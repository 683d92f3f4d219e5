import TesterSetup.Proofs.WrittenForms

/-!
# Written spec values

A spec can be written with any literals that read back to its numbers. `Form.numberText?_append`
finds a literal at the front of a line as it was written: no digit, point or exponent is left to
what follows, which has to start with another character (`Form.EndsLiteral`). A value line therefore
holds as many numbers as were written (`Form.specValue?_append`), and reads as the spec it was made
from (`Spec.spec_line`).
-/

set_option autoImplicit false

namespace TesterSetup

open TesterSetup.Text

/-! ### Literals -/

namespace Decimal

/-- ASCII digits, with a point behind them if there is one, and at least one digit in all. -/
structure IsMantissa (whole point : List Char) : Prop where
  digits : ∀ c ∈ whole, isAsciiDigit c = true
  fraction : (point = [] ∧ whole ≠ []) ∨
    ∃ fraction, point = '.' :: fraction ∧ (∀ c ∈ fraction, isAsciiDigit c = true) ∧
      whole ++ fraction ≠ []

/-- Nothing, or the mark of an exponent, a sign if there is one, and digits. -/
inductive IsExponent : List Char → Prop
  | absent : IsExponent []
  | present {mark : Char} {sign digits : List Char} (hmark : mark = 'e' ∨ mark = 'E')
    (hsign : sign = [] ∨ sign = ['+'] ∨ sign = ['-']) (hne : digits ≠ [])
    (hdigits : ∀ c ∈ digits, isAsciiDigit c = true) : IsExponent (mark :: (sign ++ digits))

theorem of_readDigits? {ds : List Char} {n : Nat} (h : readDigits? ds = some n) :
    ds ≠ [] ∧ ∀ c ∈ ds, isAsciiDigit c = true := by
  unfold readDigits? at h
  split at h
  · rename_i hds
    exact ⟨hds.1, List.all_eq_true.mp hds.2⟩
  · cases h

theorem of_readExponent? {s : List Char} {e : Int} (h : readExponent? s = some e) :
    ∃ sign digits, s = sign ++ digits ∧ (sign = [] ∨ sign = ['+'] ∨ sign = ['-']) ∧
      digits ≠ [] ∧ ∀ c ∈ digits, isAsciiDigit c = true := by
  have hread : ∀ {ds : List Char} {f : Int → Int},
      (readDigits? ds >>= fun n ↦ pure (n : Int)).map f = some e →
        ds ≠ [] ∧ ∀ c ∈ ds, isAsciiDigit c = true := by
    intro ds f h
    obtain ⟨n, hn, -⟩ := Option.map_eq_some_iff.mp h
    obtain ⟨m, hm, -⟩ := Option.bind_eq_some_iff.mp hn
    exact of_readDigits? hm
  unfold readExponent? at h
  split at h
  · exact ⟨['-'], _, rfl, .inr (.inr rfl), hread h⟩
  · exact ⟨['+'], _, rfl, .inr (.inl rfl), hread h⟩
  · exact ⟨[], s, rfl, .inl rfl, hread h⟩

theorem mem_takeWhile_isAsciiDigit (s : List Char) :
    ∀ c ∈ s.takeWhile isAsciiDigit, isAsciiDigit c = true :=
  fun _ hc ↦ List.mem_takeWhile_imp hc

/-- What stands behind a mantissa is an exponent. -/
theorem isExponent_of_read (places : List Char) {mantissa : Nat} {after : List Char} {x : Float}
    (h : (match after with
      | [] => some (nearestDouble mantissa (-(places.length : Int)))
      | c :: exponent =>
        if c = 'e' ∨ c = 'E' then
          (readExponent? exponent).map fun e => nearestDouble mantissa (e - places.length)
        else none) = some x) : IsExponent after := by
  cases after with
  | nil => exact .absent
  | cons c exponent =>
    dsimp only at h
    split at h
    · rename_i hmark
      obtain ⟨e, he, -⟩ := Option.map_eq_some_iff.mp h
      obtain ⟨sign, digits, rfl, hsign, hne, hdigits⟩ := of_readExponent? he
      exact .present hmark hsign hne hdigits
    · cases h

/-- A literal is a mantissa and an exponent. -/
theorem of_readUnsigned? {s : List Char} {x : Float} (h : readUnsigned? s = some x) :
    ∃ whole point expo, s = whole ++ (point ++ expo) ∧ IsMantissa whole point ∧
      IsExponent expo := by
  have hs : s.takeWhile isAsciiDigit ++ s.dropWhile isAsciiDigit = s :=
    List.takeWhile_append_dropWhile
  have hwhole := mem_takeWhile_isAsciiDigit s
  unfold readUnsigned? at h
  dsimp only at h
  generalize s.dropWhile isAsciiDigit = after at h hs
  generalize s.takeWhile isAsciiDigit = whole at h hs hwhole
  subst hs
  split at h
  · rename_i rest
    dsimp only at h
    split at h
    · cases h
    · rename_i hne
      refine ⟨whole, '.' :: rest.takeWhile isAsciiDigit, rest.dropWhile isAsciiDigit, ?_,
        ⟨hwhole, .inr ⟨_, rfl, mem_takeWhile_isAsciiDigit rest, hne⟩⟩, isExponent_of_read _ h⟩
      rw [List.cons_append, List.takeWhile_append_dropWhile]
  · dsimp only at h
    split at h
    · cases h
    · rename_i hne
      rw [List.append_nil] at hne
      exact ⟨whole, [], after, rfl, ⟨hwhole, .inl ⟨rfl, hne⟩⟩, isExponent_of_read [] h⟩

theorem of_readSigned? {s : List Char} {x : Float} (h : readSigned? s = some x) :
    ∃ sign u y, s = sign ++ u ∧ (sign = [] ∨ sign = ['+'] ∨ sign = ['-']) ∧
      readUnsigned? u = some y := by
  unfold readSigned? at h
  split at h
  · obtain ⟨y, hy, -⟩ := Option.map_eq_some_iff.mp h
    exact ⟨['-'], _, y, rfl, .inr (.inr rfl), hy⟩
  · exact ⟨['+'], _, x, rfl, .inr (.inl rfl), h⟩
  · exact ⟨[], s, x, rfl, .inl rfl, h⟩

end Decimal

/-! ### Literals in a line -/

namespace Form

open Decimal (IsMantissa IsExponent)

theorem span_digits {ds rest : List Char} (hds : ∀ c ∈ ds, isAsciiDigit c = true)
    (hrest : ∀ c, rest.head? = some c → isDigit c = false) :
    (ds ++ rest).takeWhile isDigit = ds ∧ (ds ++ rest).dropWhile isDigit = rest := by
  have hdigits : ∀ c ∈ ds, isDigit c = true := fun c hc ↦ isDigit_of_isAsciiDigit (hds c hc)
  have htake : rest.takeWhile isDigit = [] := by
    cases rest with
    | nil => rfl
    | cons c rest => exact List.takeWhile_cons_of_neg (by simp [hrest c rfl])
  rw [List.takeWhile_append_of_pos hdigits, List.dropWhile_append_of_pos hdigits, htake,
    List.append_nil]
  exact ⟨rfl, dropWhile_eq_self hrest⟩

theorem isAsciiDigit_of_head?_append {ds rest : List Char} {c : Char} (hne : ds ≠ [])
    (hds : ∀ d ∈ ds, isAsciiDigit d = true) (hc : (ds ++ rest).head? = some c) :
    isAsciiDigit c = true := by
  obtain ⟨d, ds, rfl⟩ := List.exists_cons_of_ne_nil hne
  obtain rfl : d = c := Option.some.inj hc
  exact hds d List.mem_cons_self

theorem mantissa?_append {whole point rest : List Char} (h : IsMantissa whole point)
    (hrest : ∀ c, rest.head? = some c → isDigit c = false ∧ c ≠ '.') :
    mantissa? (whole ++ (point ++ rest)) = some (whole ++ point, rest) := by
  have hstop : ∀ c, rest.head? = some c → isDigit c = false := fun c hc ↦ (hrest c hc).1
  unfold mantissa?
  rcases h.fraction with ⟨rfl, hne⟩ | ⟨fraction, rfl, hfraction, hne⟩
  · obtain ⟨htake, hdrop⟩ := span_digits h.digits hstop
    obtain ⟨d, whole, rfl⟩ := List.exists_cons_of_ne_nil hne
    rw [List.nil_append, htake, hdrop, List.append_nil]
    split
    · rename_i heq
      cases heq
    · rename_i heq _
      cases heq
    · exact absurd rfl (hrest '.' rfl).2
    · rfl
  · have hpoint : ∀ c, ('.' :: (fraction ++ rest)).head? = some c → isDigit c = false := by
      rintro c ⟨⟩
      decide
    obtain ⟨htake, hdrop⟩ := span_digits h.digits hpoint
    obtain ⟨htake', hdrop'⟩ := span_digits hfraction hstop
    rw [List.cons_append, htake, hdrop]
    cases whole with
    | nil =>
      rw [List.nil_append] at hne
      simp only [htake', hdrop', if_neg hne, List.nil_append]
    | cons d whole => simp only [htake', hdrop']

theorem sign_append {signed s : List Char}
    (hsigned : signed = [] ∨ signed = ['+'] ∨ signed = ['-'])
    (hs : ∀ c, s.head? = some c → c ≠ '+' ∧ c ≠ '-') : sign (signed ++ s) = (signed, s) := by
  rcases hsigned with rfl | rfl | rfl
  · rw [List.nil_append]
    unfold sign
    split
    · exact absurd rfl (hs '+' rfl).1
    · exact absurd rfl (hs '-' rfl).2
    · rfl
  · rfl
  · rfl

/-- What does not go on a literal. -/
def EndsLiteral (rest : List Char) : Prop :=
  ∀ c, rest.head? = some c → isDigit c = false ∧ c ≠ '.' ∧ c ≠ 'e' ∧ c ≠ 'E'

theorem exponent_append {expo rest : List Char} (h : IsExponent expo) (hrest : EndsLiteral rest) :
    exponent (expo ++ rest) = (expo, rest) := by
  have hstop : ∀ c, rest.head? = some c → isDigit c = false := fun c hc ↦ (hrest c hc).1
  cases h with
  | absent =>
    cases rest with
    | nil => rfl
    | cons c rest =>
      obtain ⟨-, -, hsmall, hlarge⟩ := hrest c rfl
      rw [List.nil_append, exponent, if_neg fun hmark ↦ hmark.1.elim hsmall hlarge]
  | @present mark signed digits hmark hsigned hne hdigits =>
    obtain ⟨htake, hdrop⟩ := span_digits hdigits hstop
    have hsign : sign (signed ++ (digits ++ rest)) = (signed, digits ++ rest) := by
      refine sign_append hsigned fun c hc ↦ ?_
      have hdigit := isAsciiDigit_of_head?_append hne hdigits hc
      constructor <;> rintro rfl <;> exact absurd hdigit (by decide)
    rw [List.cons_append, List.append_assoc, exponent, hsign]
    dsimp only
    rw [htake, hdrop, if_pos ⟨hmark, hne⟩]
    rfl

/-- A literal is found at the front of a line as it was written. -/
theorem numberText?_append {s rest : List Char} {x : Float}
    (h : Decimal.readSigned? s = some x) (hrest : EndsLiteral rest) :
    ∃ n, numberText? (s ++ rest) = some n ∧ n.mantissa ++ n.exponent = s ∧ n.rest = rest := by
  obtain ⟨signed, u, y, rfl, hsigned, hu⟩ := Decimal.of_readSigned? h
  obtain ⟨whole, point, expo, rfl, hmantissa, hexpo⟩ := Decimal.of_readUnsigned? hu
  have hstop : ∀ c, (expo ++ rest).head? = some c → isDigit c = false ∧ c ≠ '.' := by
    intro c hc
    cases hexpo with
    | absent =>
      obtain ⟨hdigit, hpoint, -⟩ := hrest c hc
      exact ⟨hdigit, hpoint⟩
    | present hmark _ _ _ =>
      cases hc
      rcases hmark with rfl | rfl <;> decide
  have hsign : sign (signed ++ (whole ++ (point ++ (expo ++ rest)))) =
      (signed, whole ++ (point ++ (expo ++ rest))) := by
    refine sign_append hsigned fun c hc ↦ ?_
    have hfirst : isAsciiDigit c = true ∨ c = '.' := by
      by_cases hne : whole = []
      · subst hne
        rcases hmantissa.fraction with ⟨-, hnil⟩ | ⟨fraction, rfl, -⟩
        · exact absurd rfl hnil
        · exact .inr (Option.some.inj hc).symm
      · exact .inl (isAsciiDigit_of_head?_append hne hmantissa.digits hc)
    constructor <;> rintro rfl <;> exact absurd hfirst (by decide)
  refine ⟨⟨signed ++ (whole ++ point), expo, rest⟩, ?_, by simp, rfl⟩
  unfold numberText?
  simp only [List.append_assoc]
  rw [hsign]
  dsimp only
  rw [mantissa?_append hmantissa hstop, Option.bind_eq_bind, Option.bind_some]
  dsimp only
  rw [exponent_append hexpo hrest]

/-- Nothing in a literal is blank. -/
theorem isBlank_of_mem_literal {s : List Char} {x : Float} (h : Decimal.readSigned? s = some x) :
    ∀ c ∈ s, isBlank c = false := by
  obtain ⟨signed, u, y, rfl, hsigned, hu⟩ := Decimal.of_readSigned? h
  obtain ⟨whole, point, expo, rfl, hmantissa, hexpo⟩ := Decimal.of_readUnsigned? hu
  have hdigits : ∀ {ds : List Char}, (∀ c ∈ ds, isAsciiDigit c = true) →
      ∀ c ∈ ds, isBlank c = false :=
    fun hds c hc ↦ isBlank_eq_false_of_isWord (isWord_of_isAsciiDigit (hds c hc))
  have hmark : ∀ {t : List Char}, t = [] ∨ t = ['+'] ∨ t = ['-'] → ∀ c ∈ t, isBlank c = false := by
    rintro t (rfl | rfl | rfl) c hc
    · cases hc
    all_goals
      rw [List.mem_singleton.mp hc]
      decide
  intro c hc
  rw [List.mem_append, List.mem_append, List.mem_append] at hc
  rcases hc with hc | hc | hc | hc
  · exact hmark hsigned c hc
  · exact hdigits hmantissa.digits c hc
  · rcases hmantissa.fraction with ⟨rfl, -⟩ | ⟨fraction, rfl, hfraction, -⟩
    · cases hc
    · rcases List.mem_cons.mp hc with rfl | hc
      · decide
      · exact hdigits hfraction c hc
  · cases hexpo with
    | absent => cases hc
    | present he hsign hne hds =>
      rw [List.mem_cons, List.mem_append] at hc
      rcases hc with rfl | hc | hc
      · rcases he with rfl | rfl <;> decide
      · exact hmark hsign c hc
      · exact hdigits hds c hc

theorem literal_ne_nil {s : List Char} {x : Float} (h : Decimal.readSigned? s = some x) :
    s ≠ [] := by
  rintro rfl
  cases h

/-- A number of a line: what was written behind blanks. -/
theorem nextNumber?_append {gap s rest : List Char} {x : Float} (hne : gap ≠ [])
    (hgap : ∀ c ∈ gap, isBlank c = true) (h : Decimal.readSigned? s = some x)
    (hrest : EndsLiteral rest) :
    ∃ n, nextNumber? (gap ++ (s ++ rest)) = some n ∧ n.mantissa ++ n.exponent = s ∧
      n.rest = rest := by
  obtain ⟨b, gap, rfl⟩ := List.exists_cons_of_ne_nil hne
  rw [List.forall_mem_cons] at hgap
  have hbare : dropBlanks (gap ++ (s ++ rest)) = s ++ rest := by
    refine dropWhile_append_of_head? hgap.2 fun c hc ↦ ?_
    obtain ⟨d, more, rfl⟩ := List.exists_cons_of_ne_nil (literal_ne_nil h)
    exact isBlank_of_mem_literal h c (Option.some.inj hc ▸ List.mem_cons_self)
  obtain ⟨n, hn⟩ := numberText?_append h hrest
  exact ⟨n, by rw [List.cons_append, nextNumber?, if_pos hgap.1, hbare]; exact hn.1, hn.2⟩

/-- At least one blank, and a literal behind the blanks. -/
structure IsGapped (n : List Char × List Char) : Prop where
  gap_ne_nil : n.1 ≠ []
  gap : ∀ c ∈ n.1, isBlank c = true
  literal : ∃ x, Decimal.readSigned? n.2 = some x

/-- Literals, each behind its blanks. -/
def gapped (ns : List (List Char × List Char)) : List Char :=
  ns.flatMap fun n ↦ n.1 ++ n.2

theorem gapped_cons_append (n : List Char × List Char) (ns : List (List Char × List Char))
    (tail : List Char) : gapped (n :: ns) ++ tail = n.1 ++ (n.2 ++ (gapped ns ++ tail)) := by
  simp [gapped]

/-- Literals, each behind a space. -/
def spaced (ns : List (List Char)) : List Char :=
  ns.flatMap (' ' :: ·)

theorem spaced_eq_gapped (ns : List (List Char)) :
    spaced ns = gapped (ns.map fun s ↦ ([' '], s)) := by
  rw [spaced, gapped, List.flatMap_map]
  rfl

theorem isGapped_space {s : List Char} (h : ∃ x, Decimal.readSigned? s = some x) :
    IsGapped ([' '], s) where
  gap_ne_nil := List.cons_ne_nil _ _
  gap := List.forall_mem_singleton.mpr (by decide)
  literal := h

/-- A number as it was written. -/
def NumberText.whole (n : NumberText) : List Char :=
  n.mantissa ++ n.exponent

/-- A blank does not go on a literal. -/
theorem endsLiteral_cons_of_isBlank {c : Char} (h : isBlank c = true) (rest : List Char) :
    EndsLiteral (c :: rest) := by
  have hdigit : isDigit c = false := eq_false_of_isBlank (by decide +kernel) h
  rintro d ⟨⟩
  refine ⟨hdigit, ?_, ?_, ?_⟩ <;> rintro rfl <;> exact absurd h (by decide)

theorem endsLiteral_gapped {tail : List Char} (htail : EndsLiteral tail)
    {ns : List (List Char × List Char)} (hns : ∀ n ∈ ns, IsGapped n) :
    EndsLiteral (gapped ns ++ tail) := by
  cases ns with
  | nil => exact htail
  | cons n ns =>
    obtain ⟨hne, hgap, -⟩ := hns n List.mem_cons_self
    obtain ⟨b, gap, hcons⟩ := List.exists_cons_of_ne_nil hne
    rw [gapped_cons_append, hcons]
    exact endsLiteral_cons_of_isBlank (hgap b (hcons ▸ List.mem_cons_self)) _

/-- The numbers that follow the first are those that were written, and the last of them is followed
by what is no number any more. -/
theorem moreNumbers_gapped {tail : List Char} (htail : EndsLiteral tail)
    (hend : nextNumber? tail = none) {ns : List (List Char × List Char)}
    (hns : ∀ n ∈ ns, IsGapped n) {count : Nat} (hcount : ns.length ≤ count) :
    (moreNumbers count (gapped ns ++ tail)).map NumberText.whole = ns.map Prod.snd ∧
      ∀ n, (moreNumbers count (gapped ns ++ tail)).getLast? = some n → n.rest = tail := by
  induction ns generalizing count with
  | nil =>
    have hnone : moreNumbers count (gapped [] ++ tail) = [] := by
      cases count with
      | zero => rfl
      | succ count =>
        rw [gapped, List.flatMap_nil, List.nil_append, moreNumbers, hend]
    rw [hnone]
    exact ⟨rfl, nofun⟩
  | cons s ns ih =>
    rw [List.forall_mem_cons] at hns
    obtain ⟨hs, hns⟩ := hns
    obtain ⟨x, hx⟩ := hs.literal
    cases count with
    | zero => cases hcount
    | succ count =>
      obtain ⟨n, hn, hwhole, hrest⟩ :=
        nextNumber?_append hs.gap_ne_nil hs.gap hx (endsLiteral_gapped htail hns)
      obtain ⟨hmap, hlast⟩ := ih hns (Nat.le_of_succ_le_succ hcount)
      have hmore : moreNumbers (count + 1) (gapped (s :: ns) ++ tail) =
          n :: moreNumbers count (gapped ns ++ tail) := by
        rw [gapped_cons_append, moreNumbers, hn]
        dsimp only
        rw [hrest]
      rw [hmore]
      refine ⟨by rw [List.map_cons, hmap, NumberText.whole, hwhole, List.map_cons], fun m hm ↦ ?_⟩
      rw [List.getLast?_cons] at hm
      cases hmany : (moreNumbers count (gapped ns ++ tail)).getLast? with
      | none =>
        rw [hmany] at hm
        cases hm
        rw [List.getLast?_eq_none_iff] at hmany
        rw [hmany, List.map_nil, eq_comm, List.map_eq_nil_iff] at hmap
        rw [hmap] at hrest
        exact hrest
      | some last =>
        rw [hmany] at hm
        cases hm
        exact hlast last hmany

theorem endNumbers?_written {first : NumberText} {more : List NumberText} {tail : List Char}
    {parts : ValueTail} (hfirst : more = [] → first.rest = tail)
    (hmore : ∀ n, more.getLast? = some n → n.rest = tail) (htail : valueTail? tail = some parts) :
    endNumbers? first more = some ((first :: more).map NumberText.whole, parts) := by
  have hlast : (more.getLast?.getD first).rest = tail := by
    cases hmany : more.getLast? with
    | none => exact hfirst (List.getLast?_eq_none_iff.mp hmany)
    | some last => exact hmore last hmany
  unfold endNumbers?
  dsimp only
  rw [hlast, htail]
  rfl

/-- A name, up to three literals behind blanks, and what ends a value line are the parts of it. -/
theorem specValue?_append {name : String} {first : List Char × List Char}
    {more : List (List Char × List Char)} {tail : List Char} {parts : ValueTail}
    (hname : IsIdentifier name) (hfirst : IsGapped first) (hmore : ∀ n ∈ more, IsGapped n)
    (hcount : more.length ≤ 2) (hends : EndsLiteral tail) (hnone : nextNumber? tail = none)
    (htail : valueTail? tail = some parts) :
    specValue? (name.toList ++ (gapped (first :: more) ++ tail)) =
      some ⟨name.toList, (first :: more).map Prod.snd, parts.unit, parts.comment⟩ := by
  obtain ⟨x, hx⟩ := hfirst.literal
  obtain ⟨n, hn, hwhole, hrest⟩ :=
    nextNumber?_append hfirst.gap_ne_nil hfirst.gap hx (endsLiteral_gapped hends hmore)
  obtain ⟨hmap, hlast⟩ := moreNumbers_gapped hends hnone hmore hcount
  have hlone : moreNumbers 2 (gapped more ++ tail) = [] → n.rest = tail := by
    intro hnil
    rw [hnil, List.map_nil, eq_comm, List.map_eq_nil_iff] at hmap
    rw [hrest, hmap]
    rfl
  have hstop : ∀ c, (gapped (first :: more) ++ tail).head? = some c → isWord c = false := by
    obtain ⟨b, gap, hcons⟩ := List.exists_cons_of_ne_nil hfirst.gap_ne_nil
    intro c hc
    rw [gapped_cons_append, hcons] at hc
    cases hc
    exact isWord_eq_false_of_isBlank (hfirst.gap b (hcons ▸ List.mem_cons_self))
  unfold specValue?
  rw [name?_append hname _ hstop, Option.bind_eq_bind, Option.bind_some]
  dsimp only
  rw [gapped_cons_append, hn, Option.bind_eq_bind, Option.bind_some, hrest,
    endNumbers?_written hlone hlast htail, Option.bind_eq_bind, Option.bind_some, List.map_cons,
    hmap, NumberText.whole, hwhole, List.map_cons]

end Form

/-! ### Units and comments -/

/-- A text on one line without blanks at its ends and without the bracket that ends a unit. -/
@[mk_iff]
structure IsUnit (s : String) : Prop extends HasBareEnds s.toList where
  noBracket : ']' ∉ s.toList
  noBreak : '\n' ∉ s.toList

instance (s : String) : Decidable (IsUnit s) :=
  decidable_of_iff _ (isUnit_iff s).symm

/-- A text on one line without blanks at its ends. -/
@[mk_iff]
structure IsComment (s : String) : Prop extends HasBareEnds s.toList where
  noBreak : '\n' ∉ s.toList

instance (s : String) : Decidable (IsComment s) :=
  decidable_of_iff _ (isComment_iff s).symm

/-- A unit behind a name or a number, if there is one. -/
def unitPart (unit : String) : List Char :=
  if unit = "" then [] else ' ' :: '[' :: (unit.toList ++ [']'])

/-- A comment at the end of a line, if there is one. -/
def commentPart (comment : String) : List Char :=
  if comment = "" then [] else ' ' :: '#' :: ' ' :: comment.toList

theorem isLine_append_unitPart {s : List Char} {unit : String} (hs : IsLine s)
    (hunit : IsUnit unit) : IsLine (s ++ unitPart unit) := by
  unfold unitPart
  split
  · rwa [List.append_nil]
  · refine hs.append ⟨⟨?_, ?_⟩, List.cons_ne_nil _ _, ?_⟩
    · rintro c ⟨⟩
      decide
    · intro c hc
      rw [← List.cons_append, List.getLast?_append_of_ne_nil _ (List.cons_ne_nil _ _)] at hc
      cases hc
      decide
    · simp [hunit.noBreak]

theorem isLine_append_commentPart {s : List Char} {comment : String} (hs : IsLine s)
    (hcomment : IsComment comment) : IsLine (s ++ commentPart comment) := by
  unfold commentPart
  split
  · rwa [List.append_nil]
  · rename_i hne
    have hmark : IsLine ['#'] := isLine_of_word (List.cons_ne_nil _ _)
      (List.forall_mem_singleton.mpr (by decide))
    have htext : IsLine comment.toList := {
      toHasBareEnds := hcomment.toHasBareEnds
      ne_nil := fun hnil ↦ hne (String.toList_eq_nil_iff.mp hnil)
      noBreak := hcomment.noBreak }
    exact hs.append (hmark.append htext)

namespace Form

theorem isLine_append_spaced {s : List Char} (hs : IsLine s) {ns : List (List Char)}
    (hns : ∀ n ∈ ns, ∃ x, Decimal.readSigned? n = some x) : IsLine (s ++ spaced ns) := by
  induction ns generalizing s with
  | nil => rwa [spaced, List.flatMap_nil, List.append_nil]
  | cons n ns ih =>
    rw [List.forall_mem_cons] at hns
    obtain ⟨⟨x, hx⟩, hns⟩ := hns
    have hn : IsLine n := isLine_of_word (literal_ne_nil hx) (isBlank_of_mem_literal hx)
    have hline := ih (hs.append hn) hns
    rwa [spaced, List.flatMap_cons, List.cons_append, ← List.cons_append, ← List.append_assoc]

theorem dropBlanks_space (s : List Char) : dropBlanks (' ' :: s) = dropBlanks s :=
  List.dropWhile_cons_of_pos (by decide)

theorem comment?_space (s : List Char) : comment? (' ' :: s) = comment? s := by
  unfold comment?
  rw [dropBlanks_space]

theorem comment?_marked {comment : String} (h : IsComment comment) :
    comment? ('#' :: ' ' :: comment.toList) = some comment.toList := by
  have hdrop : dropBlanks (' ' :: comment.toList) = comment.toList := by
    rw [dropBlanks_space]
    exact dropBlanks_eq_self h.first
  have hmark : dropBlanks ('#' :: ' ' :: comment.toList) = '#' :: ' ' :: comment.toList :=
    List.dropWhile_cons_of_neg (by decide)
  unfold comment?
  rw [hmark]
  simp only [hdrop, if_neg h.noBreak]

theorem comment?_written {comment : String} (h : IsComment comment) :
    comment? (commentPart comment) = some comment.toList := by
  unfold commentPart
  split
  · rename_i hempty
    rw [hempty]
    rfl
  · rw [comment?_space]
    exact comment?_marked h

/-- What starts with neither a bracket nor a letter is no unit. -/
theorem valueTail?_of_notUnit {s rest : List Char} {c : Char} (hs : dropBlanks s = c :: rest)
    (hbracket : c ≠ '[') (hletter : isAsciiLetter c = false) {comment : List Char}
    (hcomment : comment? (c :: rest) = some comment) : valueTail? s = some ⟨[], comment⟩ := by
  unfold valueTail?
  rw [hs]
  split
  · rename_i heq
    cases heq
    exact absurd rfl hbracket
  · rename_i heq
    cases heq
    rw [if_neg (Bool.eq_false_iff.mp hletter), hcomment]
    rfl
  · rename_i heq
    cases heq

theorem valueTail?_unit {s rest : List Char} {unit comment : List Char} (hunit : ']' ∉ unit)
    (hs : dropBlanks s = '[' :: (unit ++ ']' :: rest)) (hcomment : comment? rest = some comment) :
    valueTail? s = some ⟨unit, comment⟩ := by
  unfold valueTail?
  rw [hs]
  split
  · rename_i heq
    cases heq
    rw [bracketed?_append hunit, Option.bind_eq_bind, Option.bind_some]
    dsimp only
    rw [hcomment]
    rfl
  · rename_i hne heq
    cases heq
    exact absurd rfl hne
  · rename_i heq
    cases heq

theorem valueTail?_written {unit comment : String} (hunit : IsUnit unit)
    (hcomment : IsComment comment) :
    valueTail? (unitPart unit ++ commentPart comment) = some ⟨unit.toList, comment.toList⟩ := by
  by_cases hnone : unit = ""
  · subst hnone
    rw [unitPart, if_pos rfl, List.nil_append]
    by_cases hempty : comment = ""
    · rw [hempty]
      rfl
    · rw [commentPart, if_neg hempty]
      have hmark : dropBlanks (' ' :: '#' :: ' ' :: comment.toList) =
          '#' :: ' ' :: comment.toList := by
        rw [dropBlanks_space]
        exact List.dropWhile_cons_of_neg (by decide)
      exact valueTail?_of_notUnit hmark (by decide) (by decide) (comment?_marked hcomment)
  · have hmark : dropBlanks (unitPart unit ++ commentPart comment) =
        '[' :: (unit.toList ++ ']' :: commentPart comment) := by
      rw [unitPart, if_neg hnone, List.cons_append, dropBlanks_space, List.cons_append,
        List.append_assoc, List.singleton_append]
      exact List.dropWhile_cons_of_neg (by decide)
    exact valueTail?_unit hunit.noBracket hmark (comment?_written hcomment)

/-- What ends a value line does not go on its numbers. -/
theorem endsLiteral_tail (unit comment : String) :
    EndsLiteral (unitPart unit ++ commentPart comment) := by
  unfold unitPart commentPart
  split
  · split
    · exact nofun
    · exact endsLiteral_cons_of_isBlank (by decide) _
  · exact endsLiteral_cons_of_isBlank (by decide) _

/-- What starts like no number behind its blanks has none. -/
theorem nextNumber?_eq_none {s : List Char}
    (h : ∀ c, (dropBlanks s).head? = some c → ¬IsNumberStart c) : nextNumber? s = none := by
  cases s with
  | nil => rfl
  | cons c s =>
    rw [nextNumber?]
    split
    · rename_i hblank
      rw [dropBlanks, List.dropWhile_cons_of_pos hblank, ← dropBlanks] at h
      refine Option.eq_none_iff_forall_ne_some.mpr fun n hn ↦ ?_
      obtain ⟨d, hd, hstart⟩ := isNumberStart_of_numberText? hn
      exact h d hd hstart
    · rfl

theorem not_isNumberStart_hash : ¬IsNumberStart '#' := by
  unfold IsNumberStart
  decide

theorem nextNumber?_tail (unit comment : String) :
    nextNumber? (unitPart unit ++ commentPart comment) = none := by
  refine nextNumber?_eq_none fun c hc ↦ ?_
  unfold unitPart commentPart at hc
  split at hc
  · split at hc
    · cases hc
    · cases hc
      exact not_isNumberStart_hash
  · cases hc
    exact not_isNumberStart_bracket

end Form

/-! ### Specs -/

namespace Spec

/-- The literals that a spec is written with read back to its numbers. -/
structure IsReadFrom (s : Spec) (literal : ValueField → List Char) : Prop where
  actual : Decimal.readSigned? (literal .actual) = some s.actual
  minimum : ∀ x, s.minimum = some x → Decimal.readSigned? (literal .minimum) = some x
  maximum : ∀ x, s.maximum = some x → Decimal.readSigned? (literal .maximum) = some x

/-- The numbers of a spec. -/
def numbers (s : Spec) : List Float :=
  s.actual :: (s.minimum.toList ++ s.maximum.toList)

/-- What the form of a value line asks of a spec. -/
@[mk_iff]
structure Fits (s : Spec) : Prop where
  name : IsIdentifier s.name
  finite : ∀ x ∈ s.numbers, x.isFinite = true
  bounds : s.maximum.isSome = true → s.minimum.isSome = true
  unit : IsUnit s.unit
  comment : IsComment s.comment

instance (s : Spec) : Decidable s.Fits :=
  decidable_of_iff _ (fits_iff s).symm

/-- The literals behind the one of the actual value. -/
def bounds (s : Spec) (literal : ValueField → List Char) : List (List Char) :=
  (s.minimum.map fun _ ↦ literal .minimum).toList ++
    (s.maximum.map fun _ ↦ literal .maximum).toList

/-- The value line of a spec: `name actual [minimum [maximum]] [unit] # comment`. -/
def line (s : Spec) (literal : ValueField → List Char) : List Char :=
  s.name.toList ++ (Form.spaced (literal .actual :: s.bounds literal) ++
    (unitPart s.unit ++ commentPart s.comment))

variable {s : Spec} {literal : ValueField → List Char}

/-- Numerals for the numbers of a spec. -/
def numeral (s : Spec) : ValueField → List Char
  | .actual => Decimal.signedNumeral s.actual
  | .minimum => Decimal.signedNumeral (s.minimum.getD s.actual)
  | .maximum => Decimal.signedNumeral (s.maximum.getD s.actual)

/-- A spec that fits can be written. -/
theorem isReadFrom_numeral (h : s.Fits) : s.IsReadFrom s.numeral where
  actual := Decimal.readSigned?_signedNumeral (h.finite _ List.mem_cons_self)
  minimum x hx := by
    rw [numeral, hx, Option.getD_some]
    exact Decimal.readSigned?_signedNumeral (h.finite x (by simp [numbers, hx]))
  maximum x hx := by
    rw [numeral, hx, Option.getD_some]
    exact Decimal.readSigned?_signedNumeral (h.finite x (by simp [numbers, hx]))

theorem IsReadFrom.bounds (h : s.IsReadFrom literal) :
    ∀ t ∈ s.bounds literal, ∃ x, Decimal.readSigned? t = some x := by
  intro t ht
  rw [Spec.bounds, List.mem_append, Option.mem_toList, Option.mem_toList,
    Option.map_eq_some_iff, Option.map_eq_some_iff] at ht
  rcases ht with ⟨x, hx, rfl⟩ | ⟨x, hx, rfl⟩
  · exact ⟨x, h.minimum x hx⟩
  · exact ⟨x, h.maximum x hx⟩

theorem length_bounds : (s.bounds literal).length ≤ 2 := by
  unfold bounds
  cases s.minimum <;> cases s.maximum <;> simp

/-- The parts of a written value line are those of the spec. -/
theorem specValue?_line (h : s.Fits) (hliteral : s.IsReadFrom literal) :
    Form.specValue? (s.line literal) =
      some ⟨s.name.toList, literal .actual :: s.bounds literal, s.unit.toList,
        s.comment.toList⟩ := by
  have hmore : ∀ n ∈ (s.bounds literal).map fun t ↦ ([' '], t), Form.IsGapped n := by
    rw [List.forall_mem_map]
    exact fun t ht ↦ Form.isGapped_space (hliteral.bounds t ht)
  have hcount : ((s.bounds literal).map fun t ↦ ([' '], t)).length ≤ 2 := by
    rw [List.length_map]
    exact length_bounds
  have hparts := Form.specValue?_append h.name (Form.isGapped_space ⟨_, hliteral.actual⟩) hmore
    hcount (Form.endsLiteral_tail s.unit s.comment) (Form.nextNumber?_tail s.unit s.comment)
    (Form.valueTail?_written h.unit h.comment)
  have hliterals : ((s.bounds literal).map fun t ↦ ([' '], t)).map Prod.snd = s.bounds literal := by
    rw [List.map_map]
    exact List.map_id _
  rw [line, Form.spaced_eq_gapped, List.map_cons, hparts, List.map_cons, hliterals]

theorem number?_eq {v : Form.SpecValue} {field : ValueField} {place : Nat} {t : List Char}
    {x : Float} (ht : v.numbers[place]? = some t) (hx : Decimal.readSigned? t = some x) :
    v.number? field place = .ok (some x) := by
  rw [Form.SpecValue.number?, ht]
  dsimp only
  rw [hx]

theorem number?_eq_none {v : Form.SpecValue} {field : ValueField} {place : Nat}
    (ht : v.numbers[place]? = none) : v.number? field place = .ok none := by
  rw [Form.SpecValue.number?, ht]

/-- A written spec is read back. -/
theorem spec_line (h : s.Fits) (hliteral : s.IsReadFrom literal) :
    Form.SpecValue.spec ⟨s.name.toList, literal .actual :: s.bounds literal, s.unit.toList,
      s.comment.toList⟩ = .ok s := by
  obtain ⟨v, hv⟩ : ∃ v : Form.SpecValue, v = ⟨s.name.toList,
      literal .actual :: s.bounds literal, s.unit.toList, s.comment.toList⟩ := ⟨_, rfl⟩
  have hnumbers : v.numbers = literal .actual :: s.bounds literal := by rw [hv]
  have hactual : v.number? .actual 0 = .ok (some s.actual) :=
    number?_eq (by rw [hnumbers]; rfl) hliteral.actual
  have hbounds : v.number? .minimum 1 = .ok s.minimum ∧ v.number? .maximum 2 = .ok s.maximum := by
    cases hmin : s.minimum with
    | none =>
      have hmax : s.maximum = none := by
        cases hmax : s.maximum with
        | none => rfl
        | some x =>
          have hsome := h.bounds (by rw [hmax]; rfl)
          rw [hmin] at hsome
          cases hsome
      have hnil : v.numbers = [literal .actual] := by
        rw [hnumbers, bounds, hmin, hmax]
        rfl
      rw [hmax]
      exact ⟨number?_eq_none (by rw [hnil]; rfl), number?_eq_none (by rw [hnil]; rfl)⟩
    | some x =>
      cases hmax : s.maximum with
      | none =>
        have htwo : v.numbers = [literal .actual, literal .minimum] := by
          rw [hnumbers, bounds, hmin, hmax]
          rfl
        exact ⟨number?_eq (by rw [htwo]; rfl) (hliteral.minimum x hmin),
          number?_eq_none (by rw [htwo]; rfl)⟩
      | some y =>
        have hthree : v.numbers = [literal .actual, literal .minimum, literal .maximum] := by
          rw [hnumbers, bounds, hmin, hmax]
          rfl
        exact ⟨number?_eq (by rw [hthree]; rfl) (hliteral.minimum x hmin),
          number?_eq (by rw [hthree]; rfl) (hliteral.maximum y hmax)⟩
  rw [← hv, Form.SpecValue.spec, hactual, hbounds.1, hbounds.2]
  show Except.ok _ = Except.ok s
  rw [hv, trim_eq_self h.unit.toHasBareEnds, trim_eq_self h.comment.toHasBareEnds]
  simp only [String.ofList_toList, Option.getD_some]

/-- The value line of a spec is a line of a text. -/
theorem isLine_line (h : s.Fits) (hliteral : s.IsReadFrom literal) : IsLine (s.line literal) := by
  have hname : IsLine s.name.toList := isLine_of_word h.name.ne_nil fun c hc ↦
    isBlank_eq_false_of_isWord (List.all_eq_true.mp h.name.all_isWord c hc)
  have hread : ∀ n ∈ literal .actual :: s.bounds literal, ∃ x, Decimal.readSigned? n = some x :=
    List.forall_mem_cons.mpr ⟨⟨_, hliteral.actual⟩, hliteral.bounds⟩
  have hnumbers := Form.isLine_append_spaced hname hread
  have hunit := isLine_append_unitPart hnumbers h.unit
  rw [line, ← List.append_assoc, ← List.append_assoc]
  exact isLine_append_commentPart hunit h.comment

end Spec

end TesterSetup
