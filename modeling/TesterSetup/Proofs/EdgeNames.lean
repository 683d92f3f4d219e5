import Mathlib.Data.List.Forall2
import TesterSetup.Model.Timing
import TesterSetup.Proofs.TokenLayouts
import TesterSetup.Reader.WaveTables

/-!
# Names of edges

An edge is displayed as its letter and one digit, so there are sixteen names (`edgeNames`). More
texts can be read as an edge, because its number is read like any other whole number: a plus sign
and zeros in front of the digit do not count (`plainEdgeName`). A text is read as the edge that its
plain name is displayed for, and as none if its plain name is none of the sixteen
(`EdgeId.ofText_eq_ok_iff`, `EdgeId.isOk_ofText_iff`). So the names that are read back as they are
displayed are the sixteen alone, and two texts are read as the same edge exactly when they have the
same plain name.

The entries of a waveform are read in this way, each up to its first colon
(`readWaveEdges_eq_ok_iff`).
-/

set_option autoImplicit false

namespace TesterSetup

open TesterSetup.Text

/-! ### Plain numerals -/

namespace Text

/-- What follows a plus sign at the front of a text, or else the text. -/
def dropPlus : List Char → List Char
  | '+' :: rest => rest
  | s => s

/-- A numeral without a plus sign and zeros in front. -/
def plainDigits (s : List Char) : List Char :=
  (dropPlus s).dropWhile (· == '0')

section Digits

variable {c : Char} {s ds : List Char} {n bound : Nat}

theorem digitValue_lt (h : isAsciiDigit c = true) : digitValue c < 10 := by
  simp only [isAsciiDigit, Bool.and_eq_true, decide_eq_true_eq, Char.le_def,
    UInt32.le_iff_toNat_le] at h
  change 48 ≤ c.toNat ∧ c.toNat ≤ 57 at h
  have hzero : '0'.toNat = 48 := rfl
  rw [digitValue, hzero]
  omega

theorem digitChar_digitValue (h : isAsciiDigit c = true) : Nat.digitChar (digitValue c) = c := by
  have hcode : '0'.toNat ≤ c.toNat := by
    simp only [isAsciiDigit, Bool.and_eq_true, decide_eq_true_eq, Char.le_def,
      UInt32.le_iff_toNat_le] at h
    exact h.1
  rw [← Char.toNat_inj, Nat.toNat_digitChar_of_lt_ten (digitValue_lt h), digitValue]
  exact Nat.add_sub_cancel' hcode

theorem digitsOf_digitValue (h : isAsciiDigit c = true) :
    Decimal.digitsOf (digitValue c) = [c] := by
  rw [Decimal.digitsOf, Nat.toDigits_of_lt_base (digitValue_lt h), digitChar_digitValue h]

theorem digitsValue_concat (ds : List Char) (c : Char) :
    digitsValue (ds ++ [c]) = digitsValue ds * 10 + digitValue c := by
  rw [digitsValue, List.foldl_concat]
  rfl

/-- A numeral without zeros in front is how its number is written. Nothing is left of a zero. -/
theorem dropZeros_eq (h : ∀ c ∈ ds, isAsciiDigit c = true) :
    ds.dropWhile (· == '0') =
      if digitsValue ds = 0 then [] else Decimal.digitsOf (digitsValue ds) := by
  induction ds using List.reverseRecOn with
  | nil => rfl
  | append_singleton ds c ih =>
    rw [List.forall_mem_append, List.forall_mem_singleton] at h
    obtain ⟨hds, hc⟩ := h
    rw [List.dropWhile_append, ih hds, digitsValue_concat]
    by_cases hzero : digitsValue ds = 0
    · rw [if_pos hzero, hzero, Nat.zero_mul, Nat.zero_add, digitsOf_digitValue hc]
      by_cases hdigit : c = '0'
      · subst hdigit
        rfl
      · have hvalue : digitValue c ≠ 0 := fun heq ↦ hdigit (by
          rw [← digitChar_digitValue hc, heq]
          rfl)
        rw [if_neg hvalue, List.dropWhile_cons_of_neg (by simpa using hdigit)]
        rfl
    · have hsum : digitsValue ds * 10 + digitValue c ≠ 0 := by omega
      have hne : Decimal.digitsOf (digitsValue ds) ≠ [] := Nat.toDigits_ne_nil
      rw [if_neg hzero, if_neg hsum, if_neg (by rwa [List.isEmpty_iff]), Decimal.digitsOf,
        Nat.mul_comm, Decimal.digitsOf,
        ← Nat.toDigits_append_toDigits (by decide) (Nat.pos_of_ne_zero hzero) (digitValue_lt hc)]
      exact congrArg _ (digitsOf_digitValue hc).symm

/-- Reading does not care about zeros in front. -/
theorem digitsValue_dropZeros (ds : List Char) :
    digitsValue (ds.dropWhile (· == '0')) = digitsValue ds := by
  induction ds with
  | nil => rfl
  | cons c ds ih =>
    by_cases hc : (c == '0') = true
    · rw [List.dropWhile_cons_of_pos (p := (· == '0')) hc, ih, eq_of_beq hc]
      rfl
    · rw [List.dropWhile_cons_of_neg (p := (· == '0')) hc]

/-- A digit string is one if it is so without the zeros in front. -/
theorem isAsciiDigit_of_dropZeros (h : ∀ d ∈ ds.dropWhile (· == '0'), isAsciiDigit d = true) :
    ∀ d ∈ ds, isAsciiDigit d = true := by
  intro d hd
  rw [← List.takeWhile_append_dropWhile (p := (· == '0')) (l := ds), List.mem_append] at hd
  rcases hd with hd | hd
  · have hzero : (d == '0') = true := List.mem_takeWhile_imp (p := (· == '0')) hd
    rw [eq_of_beq hzero]
    decide
  · exact h d hd

theorem readNat?_ofList (s : List Char) :
    readNat? bound (String.ofList s) = (readDigits? (dropPlus s)).filter (· < bound) := by
  rw [readNat?, String.toList_ofList]
  split
  · rfl
  · rename_i hplus
    rw [dropPlus.eq_2 s hplus]

/-- A text is read as a positive number exactly when it is how the number is written, but for a plus
sign and zeros in front. -/
theorem readNat?_eq_some_iff (hpos : 0 < n) :
    readNat? bound (String.ofList s) = some n ↔ n < bound ∧ plainDigits s = Decimal.digitsOf n := by
  rw [readNat?_ofList, Option.filter_eq_some_iff, Decimal.readDigits?_eq_some_iff,
    decide_eq_true_iff, and_comm, plainDigits]
  refine and_congr_right fun _ ↦ ⟨?_, fun hplain ↦ ?_⟩
  · rintro ⟨⟨-, hdigits⟩, rfl⟩
    rw [dropZeros_eq hdigits, if_neg (Nat.ne_of_gt hpos)]
  · have hvalue : digitsValue (dropPlus s) = n := by
      rw [← digitsValue_dropZeros, hplain, Decimal.digitsValue_digitsOf]
    have hdigits : ∀ d ∈ dropPlus s, isAsciiDigit d = true :=
      isAsciiDigit_of_dropZeros (by
        rw [hplain]
        exact fun d ↦ isAsciiDigit_of_mem_digitsOf)
    refine ⟨⟨fun hnil ↦ ?_, hdigits⟩, hvalue⟩
    rw [hnil] at hvalue
    exact absurd hvalue (Nat.ne_of_lt hpos)

end Digits

end Text

/-! ### Names of edges -/

/-- The names that edges are displayed with: a letter and a digit from one to eight. -/
def edgeNames : List String :=
  ['d', 'r'].flatMap fun letter ↦
    "12345678".toList.map fun digit ↦ String.ofList [letter, digit]

/-- A name of an edge without a plus sign and zeros behind its letter. -/
def plainEdgeName (name : String) : String :=
  match name.toList with
  | [] => ""
  | letter :: number => String.ofList (letter :: plainDigits number)

theorem EdgeKind.ofLetter?_eq_some_iff {c : Char} {kind : EdgeKind} :
    ofLetter? c = some kind ↔ c = kind.letter := by
  unfold ofLetter?
  split <;> cases kind <;> simp_all [letter]

namespace EdgeId

variable {s : String} {e e' : EdgeId}

theorem toList_text (e : EdgeId) :
    e.text.toList = e.kind.letter :: Decimal.digitsOf e.index := by
  rw [text, String.toList_append, String.toList_singleton, Nat.toString_eq_repr, Nat.toList_repr]
  rfl

theorem ofIndex_eq_ok_iff {kind : EdgeKind} {index : Nat} :
    ofIndex kind index = .ok e ↔ kind = e.kind ∧ index = e.index := by
  unfold ofIndex
  split
  · rename_i hindex
    obtain ⟨kind', index', hle, hmax⟩ := e
    simp
  · rename_i hindex
    refine iff_of_false nofun ?_
    rintro ⟨-, rfl⟩
    exact hindex ⟨e.one_le, e.le_max⟩

/-- A text is read as an edge exactly when its plain form is the name of the edge. -/
theorem ofText_eq_ok_iff : ofText s = .ok e ↔ plainEdgeName s = e.text := by
  rw [← String.toList_inj, toList_text]
  unfold ofText plainEdgeName
  dsimp only
  cases hs : s.toList with
  | nil => exact iff_of_false nofun nofun
  | cons letter number =>
    dsimp only
    rw [String.toList_ofList, List.cons.injEq, ← EdgeKind.ofLetter?_eq_some_iff]
    have hbound : e.index < widthBound 8 := Nat.lt_of_le_of_lt e.le_max (by decide)
    have hread : readNat? (widthBound 8) (String.ofList number) = some e.index ↔
        plainDigits number = Decimal.digitsOf e.index := by
      rw [readNat?_eq_some_iff e.one_le, and_iff_right hbound]
    rw [← hread]
    cases EdgeKind.ofLetter? letter with
    | none => exact iff_of_false nofun fun h ↦ nomatch h.1
    | some kind =>
      cases readNat? (widthBound 8) (String.ofList number) with
      | none => exact iff_of_false nofun fun h ↦ nomatch h.2
      | some index =>
        rw [Option.some_inj, Option.some_inj]
        exact ofIndex_eq_ok_iff

theorem text_mem_edgeNames (e : EdgeId) : e.text ∈ edgeNames := by
  have hletter : e.kind.letter ∈ ['d', 'r'] := by
    cases e.kind <;> decide
  have hdigits : ∀ index ≤ maxEdgeIndex, 1 ≤ index →
      Nat.digitChar index ∈ "12345678".toList := by
    decide
  have htext : e.text = String.ofList [e.kind.letter, Nat.digitChar e.index] := by
    have hten : e.index < 10 := Nat.lt_of_le_of_lt e.le_max (by decide)
    rw [← String.toList_inj, toList_text, String.toList_ofList, Decimal.digitsOf,
      Nat.toDigits_of_lt_base hten]
  rw [htext]
  exact List.mem_flatMap.mpr ⟨_, hletter, List.mem_map_of_mem (hdigits _ e.le_max e.one_le)⟩

theorem plainEdgeName_of_mem : ∀ name ∈ edgeNames, plainEdgeName name = name := by
  decide

/-- The name that an edge is displayed with is read as the edge. -/
theorem ofText_text (e : EdgeId) : ofText e.text = .ok e :=
  ofText_eq_ok_iff.mpr (plainEdgeName_of_mem _ (text_mem_edgeNames e))

theorem text_inj : e.text = e'.text ↔ e = e' := by
  refine ⟨fun h ↦ ?_, congrArg text⟩
  have hread := ofText_text e
  rw [h, ofText_text] at hread
  exact (Except.ok.inj hread).symm

theorem mem_edgeNames_iff : s ∈ edgeNames ↔ ∃ e : EdgeId, e.text = s := by
  constructor
  · intro hs
    have hall : ∀ name ∈ edgeNames, (ofText name).isOk = true := by decide
    obtain ⟨e, he⟩ := exists_eq_ok_of_isOk (hall s hs)
    exact ⟨e, (ofText_eq_ok_iff.mp he).symm.trans (plainEdgeName_of_mem s hs)⟩
  · rintro ⟨e, rfl⟩
    exact text_mem_edgeNames e

/-- A text is read as an edge exactly when its plain form is one of the sixteen names. -/
theorem isOk_ofText_iff : (ofText s).isOk = true ↔ plainEdgeName s ∈ edgeNames := by
  rw [mem_edgeNames_iff]
  constructor
  · intro hok
    obtain ⟨e, he⟩ := exists_eq_ok_of_isOk hok
    exact ⟨e, (ofText_eq_ok_iff.mp he).symm⟩
  · rintro ⟨e, he⟩
    rw [ofText_eq_ok_iff.mpr he.symm]
    rfl

/-- The names that are read back as they are displayed are the sixteen alone. -/
theorem text_eq_iff (h : ofText s = .ok e) : e.text = s ↔ s ∈ edgeNames := by
  rw [mem_edgeNames_iff]
  refine ⟨fun hs ↦ ⟨e, hs⟩, ?_⟩
  rintro ⟨e', rfl⟩
  rw [ofText_text] at h
  rw [Except.ok.inj h]

/-- Two texts are read as the same edge exactly when they have the same plain form. -/
theorem eq_iff_plainEdgeName_eq {s' : String} (h : ofText s = .ok e) (h' : ofText s' = .ok e') :
    e = e' ↔ plainEdgeName s = plainEdgeName s' := by
  rw [ofText_eq_ok_iff.mp h, ofText_eq_ok_iff.mp h', text_inj]

end EdgeId

/-! ### Edges of waveforms -/

/-- The entries of a waveform: its words, in which braces count as blanks. -/
def edgeEntries (text : String) : List (List Char) :=
  words (text.toList.map fun c ↦ if c == '\x7b' || c == '\x7d' then ' ' else c)

/-- An entry says what happens at an edge: a name of the edge, a colon and the action. -/
def WritesEdge (entry : List Char) (e : WaveEdge) : Prop :=
  ∃ name action, splitAtColon? entry = some (name, action) ∧
    plainEdgeName (String.ofList name) = e.edge.text ∧ e.action = String.ofList (trim action)

theorem except_mapM_eq_ok_iff {α β ε : Type} {f : α → Except ε β} {l : List α} {l' : List β} :
    l.mapM f = .ok l' ↔ List.Forall₂ (fun a b ↦ f a = .ok b) l l' := by
  induction l generalizing l' with
  | nil =>
    rw [List.mapM_nil, List.forall₂_nil_left_iff]
    exact ⟨fun h ↦ (Except.ok.inj h).symm, fun h ↦ congrArg _ h.symm⟩
  | cons a l ih =>
    rw [List.mapM_cons, List.forall₂_cons_left_iff, except_bind_eq_ok_iff]
    constructor
    · rintro ⟨b, hb, h⟩
      obtain ⟨rest, hrest, h⟩ := except_bind_eq_ok_iff.mp h
      cases h
      exact ⟨b, rest, hb, ih.mp hrest, rfl⟩
    · rintro ⟨b, rest, hb, hrest, rfl⟩
      exact ⟨b, hb, except_bind_eq_ok_iff.mpr ⟨rest, ih.mpr hrest, rfl⟩⟩

/-- A waveform is read entry by entry, each under any spelling of its edge. -/
theorem readWaveEdges_eq_ok_iff {line text : String} {edges : List WaveEdge} :
    readWaveEdges line text = .ok edges ↔ List.Forall₂ WritesEdge (edgeEntries text) edges := by
  rw [readWaveEdges, except_mapM_eq_ok_iff]
  refine iff_of_eq (congrArg (List.Forall₂ · _ _) (funext₂ fun entry e ↦ propext ?_))
  unfold WritesEdge
  cases splitAtColon? entry with
  | none =>
    refine iff_of_false nofun ?_
    rintro ⟨_, _, hsplit, -⟩
    cases hsplit
  | some parts =>
    obtain ⟨name, action⟩ := parts
    dsimp only
    rw [except_bind_eq_ok_iff]
    constructor
    · rintro ⟨edge, hedge, h⟩
      cases h
      exact ⟨name, action, rfl, EdgeId.ofText_eq_ok_iff.mp (except_mapError_eq_ok_iff.mp hedge),
        rfl⟩
    · rintro ⟨_, _, ⟨⟩, hname, haction⟩
      refine ⟨e.edge, except_mapError_eq_ok_iff.mpr (EdgeId.ofText_eq_ok_iff.mpr hname), ?_⟩
      rw [← haction]
      rfl

/-- An entry says one thing. -/
theorem rightUnique_writesEdge : Relator.RightUnique WritesEdge := by
  rintro entry ⟨edge, _⟩ ⟨edge', _⟩ ⟨name, action, hsplit, hname, rfl⟩
    ⟨name', action', hsplit', hname', rfl⟩
  cases hsplit.symm.trans hsplit'
  have hedge : edge = edge' := EdgeId.text_inj.mp (hname.symm.trans hname')
  rw [hedge]

/-- Each entry of a waveform names an edge. -/
theorem names_of_forall₂_writesEdge {entries : List (List Char)} {edges : List WaveEdge}
    (h : List.Forall₂ WritesEdge entries edges) :
    ∀ entry ∈ entries, ∃ name action, splitAtColon? entry = some (name, action) ∧
      plainEdgeName (String.ofList name) ∈ edgeNames := by
  induction h with
  | nil => exact List.forall_mem_nil _
  | cons hentry _ ih =>
    obtain ⟨name, action, hsplit, hname, -⟩ := hentry
    refine List.forall_mem_cons.mpr ⟨⟨name, action, hsplit, ?_⟩, ih⟩
    rw [hname]
    exact EdgeId.text_mem_edgeNames _

end TesterSetup
