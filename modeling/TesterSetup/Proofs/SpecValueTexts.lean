import TesterSetup.Proofs.TokenLayouts
import TesterSetup.Proofs.WrittenValues

/-!
# Texts of value lines

All the ways to write the value of a spec. A `SpecValueText` is a value line in its parts: a name,
the literals of one to three numbers, a unit in brackets or as a bare word, and a comment, with any
blanks between them and at least one in front of each number and of a bare unit. What a literal says
is fixed without the reader (`Decimal.IsLiteralOf`), and the reader finds just that
(`Decimal.readSigned?_eq_some_iff`).

A line of this kind can be taken apart in one way only. No part goes on what stands in front of it
(`SpecValueText.endsLiteral_tail`), and what follows the numbers is no further number, whether it
starts with a unit, a comment or nothing (`SpecValueText.nextNumber?_tail`): a bare unit may start
with the letter of an exponent, but it does not start like a number. So the form finds the parts as
they were written, and the line gives the spec of these parts
(`SpecValueText.exists_specValue_chars`).
-/

set_option autoImplicit false

namespace TesterSetup

open TesterSetup.Text

/-! ### Literals and their numbers -/

namespace Decimal

/-- A literal and its number: a numeral behind at most one sign. -/
inductive IsLiteralOf : List Char → Float → Prop where
  | unsigned {s : List Char} {x : Float} (h : IsNumeralOf s x) : IsLiteralOf s x
  | plus {s : List Char} {x : Float} (h : IsNumeralOf s x) : IsLiteralOf ('+' :: s) x
  | minus {s : List Char} {x : Float} (h : IsNumeralOf s x) : IsLiteralOf ('-' :: s) (-x)

variable {s : List Char} {x : Float}

/-- A numeral starts with a digit or with its point. -/
theorem IsNumeralOf.head?_ne {c : Char} (h : IsNumeralOf s x) (hc : s.head? = some c) :
    c ≠ '+' ∧ c ≠ '-' := by
  have hfirst : isAsciiDigit c = true ∨ c = '.' := by
    cases h with
    | @whole ds expo k hds _ =>
      obtain ⟨d, ds, rfl⟩ := List.exists_cons_of_ne_nil hds.1
      cases hc
      exact .inl (hds.2 c List.mem_cons_self)
    | @point ds fraction expo k hds _ =>
      cases ds with
      | nil =>
        cases hc
        exact .inr rfl
      | cons d ds =>
        cases hc
        exact .inl (hds.2 c List.mem_cons_self)
  constructor <;> rintro rfl <;> exact absurd hfirst (by decide)

/-- The literals that are read, and what they are read as. -/
theorem readSigned?_eq_some_iff : readSigned? s = some x ↔ IsLiteralOf s x := by
  constructor
  · intro h
    unfold readSigned? at h
    split at h
    · obtain ⟨y, hy, rfl⟩ := Option.map_eq_some_iff.mp h
      exact .minus (readUnsigned?_eq_some_iff.mp hy)
    · exact .plus (readUnsigned?_eq_some_iff.mp h)
    · exact .unsigned (readUnsigned?_eq_some_iff.mp h)
  · intro h
    cases h with
    | unsigned h =>
      have hread := readUnsigned?_eq_some_iff.mpr h
      unfold readSigned?
      split
      · exact absurd rfl (h.head?_ne rfl).2
      · exact absurd rfl (h.head?_ne rfl).1
      · exact hread
    | plus h => exact readUnsigned?_eq_some_iff.mpr h
    | minus h => exact Option.map_eq_some_iff.mpr ⟨_, readUnsigned?_eq_some_iff.mpr h, rfl⟩

end Decimal

/-! ### Parts of a value line -/

/-- A number of a value line: at least one blank, and a literal of it. -/
structure NumberPart where
  gap : List Char
  text : List Char
  value : Float
  gap_ne_nil : gap ≠ []
  isBlank_gap : ∀ c ∈ gap, isBlank c = true
  isLiteralOf : Decimal.IsLiteralOf text value

/-- The unit of a value line, if there is one: a text between brackets, or behind at least one blank
a word that starts with a letter. -/
inductive UnitPart where
  | absent
  | bracketed (gap text : List Char) (isBlank_gap : ∀ c ∈ gap, isBlank c = true)
    (noBracket : ']' ∉ text)
  | bare (gap : List Char) (first : Char) (word : List Char) (gap_ne_nil : gap ≠ [])
    (isBlank_gap : ∀ c ∈ gap, isBlank c = true) (isAsciiLetter_first : isAsciiLetter first = true)
    (isWord_word : ∀ c ∈ word, isWord c = true)

/-- The end of a value line: blanks, and a comment on one line behind them, if there is one. -/
structure CommentPart where
  gap : List Char
  text : Option (List Char)
  isBlank_gap : ∀ c ∈ gap, isBlank c = true
  noBreak : ∀ s ∈ text, '\n' ∉ s

/-- A value line in its parts, with a maximum only behind a minimum. -/
structure SpecValueText where
  name : String
  actual : NumberPart
  minimum : Option NumberPart
  maximum : Option NumberPart
  unit : UnitPart
  comment : CommentPart
  isIdentifier : IsIdentifier name
  bounds : maximum.isSome = true → minimum.isSome = true

namespace NumberPart

/-- The blanks and the literal of a number. -/
def pair (n : NumberPart) : List Char × List Char :=
  (n.gap, n.text)

theorem readSigned?_text (n : NumberPart) : Decimal.readSigned? n.text = some n.value :=
  Decimal.readSigned?_eq_some_iff.mpr n.isLiteralOf

theorem isGapped (n : NumberPart) : Form.IsGapped n.pair where
  gap_ne_nil := n.gap_ne_nil
  gap := n.isBlank_gap
  literal := ⟨n.value, n.readSigned?_text⟩

end NumberPart

namespace UnitPart

/-- A unit as it stands in the line. -/
def chars : UnitPart → List Char
  | absent => []
  | bracketed gap text _ _ => gap ++ '[' :: (text ++ [']'])
  | bare gap first word _ _ _ _ => gap ++ first :: word

/-- What a unit says. -/
def text : UnitPart → List Char
  | absent => []
  | bracketed _ text _ _ => text
  | bare _ first word _ _ _ _ => first :: word

end UnitPart

namespace CommentPart

/-- The end of a line as it stands there. -/
def chars (c : CommentPart) : List Char :=
  c.gap ++ match c.text with
    | none => []
    | some s => '#' :: s

end CommentPart

namespace SpecValueText

/-- The numbers of the line. -/
def numbers (t : SpecValueText) : List NumberPart :=
  t.actual :: (t.minimum.toList ++ t.maximum.toList)

/-- What follows the numbers of the line. -/
def tail (t : SpecValueText) : List Char :=
  t.unit.chars ++ t.comment.chars

/-- The line. -/
def chars (t : SpecValueText) : List Char :=
  t.name.toList ++ (Form.gapped (t.numbers.map NumberPart.pair) ++ t.tail)

/-- The spec that the line is about. -/
def spec (t : SpecValueText) : Spec where
  name := t.name
  actual := t.actual.value
  minimum := t.minimum.map NumberPart.value
  maximum := t.maximum.map NumberPart.value
  unit := String.ofList (trim t.unit.text)
  comment := String.ofList (trim (t.comment.text.getD []))

end SpecValueText

/-! ### The end of a value line -/

theorem isDigit_eq_false_of_isAsciiLetter {c : Char} (h : isAsciiLetter c = true) :
    isDigit c = false := by
  simp only [isAsciiLetter, Bool.or_eq_true, Bool.and_eq_true, decide_eq_true_eq, Char.le_def,
    UInt32.le_iff_toNat_le] at h
  have hcode : 65 ≤ c.val.toNat ∧ c.val.toNat ≤ 122 := by
    have ha : 'a'.val.toNat = 97 ∧ 'z'.val.toNat = 122 := ⟨rfl, rfl⟩
    have hA : 'A'.val.toNat = 65 ∧ 'Z'.val.toNat = 90 := ⟨rfl, rfl⟩
    omega
  have hlt : c.toNat < 0x80 := Nat.lt_of_le_of_lt hcode.2 (by decide)
  have hnine : ¬c ≤ '9' := by
    rw [Char.le_def, UInt32.le_iff_toNat_le]
    have h9 : '9'.val.toNat = 57 := rfl
    omega
  rw [isDigit, if_pos hlt, isAsciiDigit, decide_eq_false hnine, Bool.and_false]

/-- What a value line can go on with behind its numbers and the blanks that follow. -/
def StartsTail (c : Char) : Prop :=
  c = '[' ∨ c = '#' ∨ isAsciiLetter c = true

theorem StartsTail.not_isNumberStart {c : Char} (h : StartsTail c) : ¬Form.IsNumberStart c := by
  rcases h with rfl | rfl | h
  · exact Form.not_isNumberStart_bracket
  · exact Form.not_isNumberStart_hash
  · rintro (rfl | rfl | rfl | hdigit)
    · cases h
    · cases h
    · cases h
    · rw [isDigit_eq_false_of_isAsciiLetter h] at hdigit
      cases hdigit

section Gap

variable {gap : List Char}

theorem dropBlanks_append (h : ∀ c ∈ gap, isBlank c = true) (s : List Char) :
    dropBlanks (gap ++ s) = dropBlanks s :=
  List.dropWhile_append_of_pos h

/-- What stands behind blanks starts with one of them, unless there are none. -/
theorem head?_append_of_isBlank {s : List Char} {d : Char} (h : ∀ c ∈ gap, isBlank c = true)
    (hd : (gap ++ s).head? = some d) : isBlank d = true ∨ gap = [] ∧ s.head? = some d := by
  cases gap with
  | nil => exact .inr ⟨rfl, hd⟩
  | cons b gap =>
    cases hd
    exact .inl (h _ List.mem_cons_self)

end Gap

namespace CommentPart

variable (c : CommentPart)

theorem dropBlanks_chars :
    dropBlanks c.chars = match c.text with
      | none => []
      | some s => '#' :: s := by
  rw [chars, dropBlanks_append c.isBlank_gap]
  cases c.text with
  | none => rfl
  | some s => exact List.dropWhile_cons_of_neg (by decide)

/-- A comment is found, and nothing is lost of it but the blanks in front. -/
theorem comment?_chars : Form.comment? c.chars = some (dropBlanks (c.text.getD [])) := by
  unfold Form.comment?
  rw [c.dropBlanks_chars]
  cases htext : c.text with
  | none => rfl
  | some s =>
    have hbreak : '\n' ∉ dropBlanks s := fun hmem ↦
      c.noBreak s htext ((List.dropWhile_sublist isBlank).mem hmem)
    exact if_neg hbreak

/-- The end of a line does not go on a word or a number. -/
theorem head?_chars {d : Char} (hd : c.chars.head? = some d) : isBlank d = true ∨ d = '#' := by
  rcases head?_append_of_isBlank c.isBlank_gap hd with hblank | ⟨-, hd⟩
  · exact .inl hblank
  · split at hd
    · cases hd
    · cases hd
      exact .inr rfl

end CommentPart

namespace UnitPart

variable (u : UnitPart)

theorem dropBlanks_chars_append (s : List Char) :
    dropBlanks (u.chars ++ s) = match u with
      | absent => dropBlanks s
      | bracketed _ text _ _ => '[' :: (text ++ ']' :: s)
      | bare _ first word _ _ _ _ => first :: (word ++ s) := by
  cases u with
  | absent => rfl
  | bracketed gap text hgap _ =>
    rw [chars, List.append_assoc, dropBlanks_append hgap, List.cons_append, List.append_assoc]
    exact List.dropWhile_cons_of_neg (by decide)
  | bare gap first word _ hgap hfirst _ =>
    have hblank : isBlank first = false :=
      isBlank_eq_false_of_isWord (isWord_of_isNameStart (by rw [hfirst, Bool.true_or]))
    rw [chars, List.append_assoc, dropBlanks_append hgap]
    exact List.dropWhile_cons_of_neg (by rw [hblank]; decide)

theorem head?_chars {d : Char} (hd : u.chars.head? = some d) : isBlank d = true ∨ d = '[' := by
  cases u with
  | absent => cases hd
  | bracketed gap text hgap _ =>
    rcases head?_append_of_isBlank hgap hd with hblank | ⟨-, hd⟩
    · exact .inl hblank
    · cases hd
      exact .inr rfl
  | bare gap first word hne hgap _ _ =>
    rcases head?_append_of_isBlank hgap hd with hblank | ⟨hnil, -⟩
    · exact .inl hblank
    · exact absurd hnil hne

end UnitPart

namespace Form

theorem comment?_dropBlanks (s : List Char) : comment? (dropBlanks s) = comment? s := by
  unfold comment?
  rw [dropBlanks, dropBlanks, List.dropWhile_idempotent]

/-- A word that starts with a letter is a unit. -/
theorem valueTail?_word {s word rest comment : List Char} {first : Char}
    (hs : dropBlanks s = first :: (word ++ rest)) (hfirst : isAsciiLetter first = true)
    (hword : ∀ c ∈ word, isWord c = true) (hrest : ∀ c, rest.head? = some c → isWord c = false)
    (hcomment : comment? rest = some comment) : valueTail? s = some ⟨first :: word, comment⟩ := by
  unfold valueTail?
  rw [hs]
  split
  · rename_i heq
    cases heq
    cases hfirst
  · rename_i heq
    cases heq
    rw [if_pos hfirst, takeWhile_append_of_head? hword hrest,
      dropWhile_append_of_head? hword hrest, hcomment]
    rfl
  · rename_i heq
    cases heq

end Form

namespace SpecValueText

variable (t : SpecValueText)

/-- What ends a value line does not go on its last number. -/
theorem endsLiteral_tail : Form.EndsLiteral t.tail := by
  have hstart : ∀ c, t.tail.head? = some c → isBlank c = true ∨ c = '[' ∨ c = '#' := by
    intro c hc
    rw [tail, List.head?_append, Option.or_eq_some_iff] at hc
    rcases hc with hunit | ⟨-, hcomment⟩
    · exact (t.unit.head?_chars hunit).imp_right .inl
    · exact (t.comment.head?_chars hcomment).imp_right .inr
  intro c hc
  rcases hstart c hc with hblank | rfl | rfl
  · exact Form.endsLiteral_cons_of_isBlank hblank [] c rfl
  · decide
  · decide

/-- What ends a value line is no further number: a bare unit does not start like one, also where it
starts with the letter of an exponent. -/
theorem nextNumber?_tail : Form.nextNumber? t.tail = none := by
  refine Form.nextNumber?_eq_none fun c hc ↦ StartsTail.not_isNumberStart ?_
  rw [tail, UnitPart.dropBlanks_chars_append] at hc
  split at hc
  · rw [CommentPart.dropBlanks_chars] at hc
    split at hc
    · cases hc
    · cases hc
      exact .inr (.inl rfl)
  · cases hc
    exact .inl rfl
  · rename_i hfirst _ _
    cases hc
    exact .inr (.inr hfirst)

/-- The unit and the comment of a value line are found. -/
theorem valueTail?_tail :
    Form.valueTail? t.tail = some ⟨t.unit.text, dropBlanks (t.comment.text.getD [])⟩ := by
  have hcomment := t.comment.comment?_chars
  have hdrop := t.unit.dropBlanks_chars_append t.comment.chars
  rw [tail]
  cases hunit : t.unit with
  | absent =>
    rw [hunit, t.comment.dropBlanks_chars] at hdrop
    rw [← Form.comment?_dropBlanks, t.comment.dropBlanks_chars] at hcomment
    cases htext : t.comment.text with
    | none =>
      rw [htext] at hdrop
      unfold Form.valueTail?
      rw [hdrop]
      rfl
    | some s =>
      rw [htext] at hdrop hcomment
      exact Form.valueTail?_of_notUnit hdrop (by decide) (by decide) hcomment
  | bracketed gap text hgap htext =>
    rw [hunit] at hdrop
    exact Form.valueTail?_unit htext hdrop hcomment
  | bare gap first word hne hgap hfirst hword =>
    rw [hunit] at hdrop
    refine Form.valueTail?_word hdrop hfirst hword (fun d hd ↦ ?_) hcomment
    rcases t.comment.head?_chars hd with hblank | rfl
    · exact isWord_eq_false_of_isBlank hblank
    · decide

/-! ### The parts of a value line -/

theorem length_bounds_le : (t.minimum.toList ++ t.maximum.toList).length ≤ 2 := by
  cases t.minimum <;> cases t.maximum <;> simp

/-- The form of a value line finds the parts as they are written. -/
theorem specValue?_chars :
    Form.specValue? t.chars = some ⟨t.name.toList, t.numbers.map NumberPart.text, t.unit.text,
      dropBlanks (t.comment.text.getD [])⟩ := by
  have hmore : ∀ n ∈ (t.minimum.toList ++ t.maximum.toList).map NumberPart.pair,
      Form.IsGapped n := by
    rw [List.forall_mem_map]
    exact fun n _ ↦ n.isGapped
  have hcount : ((t.minimum.toList ++ t.maximum.toList).map NumberPart.pair).length ≤ 2 := by
    rw [List.length_map]
    exact t.length_bounds_le
  have hliterals :
      (t.numbers.map NumberPart.pair).map Prod.snd = t.numbers.map NumberPart.text := by
    rw [List.map_map]
    rfl
  have hparts := Form.specValue?_append t.isIdentifier t.actual.isGapped hmore hcount
    t.endsLiteral_tail t.nextNumber?_tail t.valueTail?_tail
  rw [← List.map_cons, ← numbers, hliterals] at hparts
  exact hparts

/-- The numbers of a value line stand at their places. -/
theorem getElem?_numbers :
    t.numbers[0]? = some t.actual ∧ t.numbers[1]? = t.minimum ∧ t.numbers[2]? = t.maximum := by
  have hbounds := t.bounds
  rw [numbers]
  cases hmin : t.minimum with
  | some n => cases t.maximum <;> exact ⟨rfl, rfl, rfl⟩
  | none =>
    cases hmax : t.maximum with
    | none => exact ⟨rfl, rfl, rfl⟩
    | some n =>
      rw [hmin, hmax] at hbounds
      cases hbounds rfl

/-- The number at a place is the number of the literal there. -/
theorem number?_eq_ok {v : Form.SpecValue} {ns : List NumberPart}
    (hv : v.numbers = ns.map NumberPart.text) (field : ValueField) (place : Nat) :
    v.number? field place = .ok (ns[place]?.map NumberPart.value) := by
  cases hn : ns[place]? with
  | none => exact Spec.number?_eq_none (by rw [hv, List.getElem?_map, hn]; rfl)
  | some n => exact Spec.number?_eq (by rw [hv, List.getElem?_map, hn]; rfl) n.readSigned?_text

/-- A value line is read as the spec of its parts. -/
theorem exists_specValue_chars :
    ∃ v, Form.specValue? t.chars = some v ∧ v.spec = .ok t.spec := by
  refine ⟨_, t.specValue?_chars, ?_⟩
  obtain ⟨hactual, hminimum, hmaximum⟩ := t.getElem?_numbers
  have htrim : ∀ s : List Char, trim (dropBlanks s) = trim s := by
    intro s
    rw [trim, trim, dropBlanks, dropBlanks, List.dropWhile_idempotent]
  rw [Form.SpecValue.spec, number?_eq_ok rfl, number?_eq_ok rfl, number?_eq_ok rfl, hactual,
    hminimum, hmaximum]
  show Except.ok _ = Except.ok t.spec
  rw [spec, htrim, String.ofList_toList]
  rfl

theorem isBlank_of_mem_tab : ∀ c ∈ ['\t'], isBlank c = true :=
  List.forall_mem_singleton.mpr rfl

theorem isBlank_of_mem_space : ∀ c ∈ [' '], isBlank c = true :=
  List.forall_mem_singleton.mpr rfl

/-- A value line with bounds, a unit and a comment. -/
def boundedLine : SpecValueText where
  name := "vih"
  actual := ⟨['\t'], ['+', '.', '5'], _, nofun, isBlank_of_mem_tab,
    .plus (@Decimal.IsNumeralOf.point [] ['5'] [] 0 ⟨nofun, List.all_eq_true.mp rfl⟩ .absent)⟩
  minimum := some ⟨[' '], ['-', '1', 'e', '2'], _, nofun, isBlank_of_mem_space,
    .minus (@Decimal.IsNumeralOf.whole ['1'] ['e', '2'] 2 ⟨nofun, List.all_eq_true.mp rfl⟩
      (@Decimal.IsExponentOf.plain 'e' ['2'] (.inl rfl) ⟨nofun, List.all_eq_true.mp rfl⟩))⟩
  maximum := some ⟨[' '], ['3', '.'], _, nofun, isBlank_of_mem_space,
    .unsigned (@Decimal.IsNumeralOf.point ['3'] [] [] 0 ⟨nofun, List.all_eq_true.mp rfl⟩ .absent)⟩
  unit := .bracketed [' '] [' ', 'm', 'V', ' '] isBlank_of_mem_space (by decide)
  comment := ⟨[' '], some [' ', 'i', 'n', 'p', 'u', 't'], isBlank_of_mem_space,
    fun _ hs ↦ Option.some.inj hs ▸ by decide⟩
  isIdentifier := by decide
  bounds _ := rfl

theorem exists_specValue_chars_boundedLine :
    ∃ v, Form.specValue? "vih\t+.5 -1e2 3. [ mV ] # input".toList = some v ∧
      v.spec = .ok
        { name := "vih", actual := Decimal.nearestDouble 5 (-1),
          minimum := some (-Decimal.nearestDouble 1 2),
          maximum := some (Decimal.nearestDouble 3 0), unit := "mV", comment := "input" } :=
  boundedLine.exists_specValue_chars

example : (Form.specValue? "t\t+.5 1.e2 e3#[V] # 4".toList).map (fun v ↦ (v.numbers, v.unit)) =
    some (["+.5".toList, "1.e2".toList], "e3".toList) := by
  decide +kernel

end SpecValueText

end TesterSetup
