import Mathlib.Data.List.TakeWhile
import TesterSetup.Reader.Shared
import TesterSetup.Reader.Specification

/-!
# Lines that define something

Declarations, assignments and spec values as one notion: `Defines line d` says that a line has the
form of the definition `d`. Each form starts with the name that it defines, which is the longest
run of word characters at the front of the line (`Defines.name_eq`). What stands behind the name
tells the forms apart, so a line has one of them at most. A line that starts with a keyword has the
keyword as its front word, so the name of a definition rules out all keywords but itself
(`Defines.afterKeyword?_eq_none`).
-/

set_option autoImplicit false

namespace TesterSetup

open TesterSetup.Text

/-! ### Characters -/

/-- The code points of blanks. -/
def blankCodes : List Nat :=
  [9, 10, 11, 12, 13, 0x20, 0x85, 0xA0, 0x1680] ++ List.range' 0x2000 11 ++
    [0x2028, 0x2029, 0x202F, 0x205F, 0x3000]

theorem toNat_of_isBlank {c : Char} (h : isBlank c = true) : c.toNat ∈ blankCodes := by
  simp only [isBlank, Bool.or_eq_true, Bool.and_eq_true, decide_eq_true_eq, beq_iff_eq] at h
  simp only [blankCodes, List.mem_append, List.mem_cons, List.mem_range'_1, List.not_mem_nil]
  omega

/-- What no code point of a blank has, no blank has. -/
theorem eq_false_of_isBlank {p : Char → Bool} (hp : ∀ n ∈ blankCodes, p (Char.ofNat n) = false)
    {c : Char} (h : isBlank c = true) : p c = false := by
  have hc := hp c.toNat (toNat_of_isBlank h)
  rwa [Char.ofNat_toNat] at hc

theorem isWord_eq_false_of_isBlank {c : Char} (h : isBlank c = true) : isWord c = false :=
  eq_false_of_isBlank (by decide +kernel) h

theorem isWord_of_isNameStart {c : Char} (h : (isAsciiLetter c || c == '_') = true) :
    isWord c = true := by
  have hlt : c.toNat < 0x80 := by
    simp only [isAsciiLetter, Bool.or_eq_true, Bool.and_eq_true, decide_eq_true_eq, beq_iff_eq,
      Char.le_def] at h
    rcases h with (⟨-, h⟩ | ⟨-, h⟩) | rfl
    · exact Nat.lt_of_le_of_lt (UInt32.le_iff_toNat_le.mp h) (by decide)
    · exact Nat.lt_of_le_of_lt (UInt32.le_iff_toNat_le.mp h) (by decide)
    · decide
  rw [Bool.or_eq_true] at h
  rw [isWord, if_pos hlt, isAsciiWord, Bool.or_eq_true, Bool.or_eq_true]
  exact h.imp .inl id

/-! ### Front words -/

namespace Form

/-- The longest run of word characters at the front of a line. -/
def frontWord (s : List Char) : List Char :=
  s.takeWhile isWord

/-- The first character behind the front word that is not blank. -/
def afterFrontWord (s : List Char) : Option Char :=
  (dropBlanks (s.dropWhile isWord)).head?

theorem strip?_eq_some_iff {key s rest : List Char} :
    strip? key s = some rest ↔ s = key ++ rest := by
  induction key generalizing s with
  | nil => simp [strip?]
  | cons k key ih =>
    cases s with
    | nil => simp [strip?]
    | cons c s =>
      by_cases h : k = c
      · subst h
        simp [strip?, ih]
      · simp [strip?, h, Ne.symm h]

theorem frontWord_append {key : List Char} (hkey : key.all isWord = true) {s : List Char} :
    frontWord (key ++ s) = key ++ frontWord s :=
  List.takeWhile_append_of_pos (List.all_eq_true.mp hkey)

theorem frontWord_frontWord (s : List Char) : frontWord (frontWord s) = frontWord s :=
  List.takeWhile_idem

theorem frontWord_of_isBlank {c : Char} (h : isBlank c = true) (s : List Char) :
    frontWord (c :: s) = [] :=
  List.takeWhile_cons_of_neg (by rw [isWord_eq_false_of_isBlank h]; exact Bool.false_ne_true)

/-- A word at the front of a line is at the front of the front word. -/
theorem isSome_strip?_iff {key s : List Char} (hkey : key.all isWord = true) :
    (strip? key s).isSome = true ↔ key <+: frontWord s := by
  rw [Option.isSome_iff_exists]
  constructor
  · rintro ⟨rest, h⟩
    rw [strip?_eq_some_iff.mp h, frontWord_append hkey]
    exact List.prefix_append _ _
  · intro h
    obtain ⟨rest, hrest⟩ := h.trans (List.takeWhile_prefix isWord)
    exact ⟨rest, strip?_eq_some_iff.mpr hrest.symm⟩

theorem frontWord_of_isWord {w : List Char} (hw : w.all isWord = true) : frontWord w = w :=
  List.takeWhile_eq_self_iff.mpr (List.all_eq_true.mp hw)

/-- A keyword of a form is at the front of the line, with a blank behind it. -/
theorem exists_of_afterKeyword? {keyword : String} {s rest : List Char}
    (h : afterKeyword? keyword s = some rest) :
    ∃ c after, isBlank c = true ∧ s = keyword.toList ++ c :: after ∧ dropBlanks after = rest := by
  unfold afterKeyword? at h
  split at h
  · rename_i c after hstrip
    obtain ⟨hblank, hrest⟩ := Option.ite_none_right_eq_some.mp h
    exact ⟨c, after, hblank, strip?_eq_some_iff.mp hstrip, Option.some.inj hrest⟩
  · cases h

theorem frontWord_of_afterKeyword? {keyword : String} {s rest : List Char}
    (hkey : keyword.toList.all isWord = true) (h : afterKeyword? keyword s = some rest) :
    frontWord s = keyword.toList := by
  obtain ⟨c, after, hblank, rfl, -⟩ := exists_of_afterKeyword? h
  rw [frontWord_append hkey, frontWord_of_isBlank hblank, List.append_nil]

/-! ### Lines with another front word -/

section OtherWord

variable {keyword line : String}

theorem afterKeyword?_of_frontWord {s : List Char} (hkey : keyword.toList.all isWord = true)
    (h : frontWord s ≠ keyword.toList) : afterKeyword? keyword s = none := by
  cases hafter : afterKeyword? keyword s with
  | none => rfl
  | some rest => exact absurd (frontWord_of_afterKeyword? hkey hafter) h

theorem ne_of_frontWord (hkey : keyword.toList.all isWord = true)
    (h : frontWord line.toList ≠ keyword.toList) : line ≠ keyword := by
  rintro rfl
  exact h (frontWord_of_isWord hkey)

/-- A line that starts with a keyword and a space has the keyword as its front word. -/
theorem frontWord_of_startsWith (hkey : keyword.toList.all isWord = true)
    (h : startsWith line (keyword ++ " ") = true) : frontWord line.toList = keyword.toList := by
  rw [startsWith, String.toList_append] at h
  obtain ⟨rest, hstrip⟩ := Option.isSome_iff_exists.mp h
  have hspace : isBlank ' ' = true := by decide
  rw [strip?_eq_some_iff.mp hstrip, List.append_assoc, frontWord_append hkey]
  exact (congrArg _ (frontWord_of_isBlank hspace rest)).trans (List.append_nil _)

theorem startsWith_eq_false_of_frontWord (hkey : keyword.toList.all isWord = true)
    (h : frontWord line.toList ≠ keyword.toList) : startsWith line (keyword ++ " ") = false :=
  Bool.eq_false_iff.mpr fun hstart ↦ h (frontWord_of_startsWith hkey hstart)

/-- A line starts with a word when its front word does. -/
theorem startsWith_eq_of_frontWord (line : String) {word : String}
    (hword : word.toList.all isWord = true) :
    startsWith line word = startsWith (String.ofList (frontWord line.toList)) word := by
  rw [Bool.eq_iff_iff, startsWith, startsWith, isSome_strip?_iff hword, String.toList_ofList,
    isSome_strip?_iff hword, frontWord_frontWord]

/-- A line with a front word does not start with a character of another kind. -/
theorem head?_ne_of_frontWord {s : List Char} {c : Char} (h : frontWord s ≠ [])
    (hc : isWord c = false) : s.head? ≠ some c := by
  intro hhead
  obtain ⟨rest, rfl⟩ := List.head?_eq_some_iff.mp hhead
  exact h (List.takeWhile_cons_of_neg (Bool.eq_false_iff.mp hc))

end OtherWord

section Absent

variable {keyword : String} {s : List Char}

theorem numbered?_eq_none (h : afterKeyword? keyword s = none) : numbered? keyword s = none := by
  rw [numbered?, h]
  rfl

theorem argument?_eq_none (h : afterKeyword? keyword s = none) : argument? keyword s = none := by
  rw [argument?, h]
  rfl

theorem word?_eq_none (h : afterKeyword? keyword s = none) : word? keyword s = none := by
  rw [word?, h]
  rfl

theorem quotedWord?_eq_none (h : afterKeyword? keyword s = none) :
    quotedWord? keyword s = none := by
  rw [quotedWord?, h]
  rfl

theorem firstArgument?_eq_none (h : afterKeyword? keyword s = none) :
    firstArgument? keyword s = none := by
  rw [firstArgument?, h]
  rfl

/-- A line of a form that needs a keyword has the keyword as its front word. -/
theorem frontWord_of_form {α : Type} (keyword : String) {found : Option α} {a : α}
    (hkey : keyword.toList.all isWord = true) (hform : found = some a)
    (hnone : afterKeyword? keyword s = none → found = none) :
    frontWord s = keyword.toList := by
  cases hafter : afterKeyword? keyword s with
  | none =>
    rw [hnone hafter] at hform
    cases hform
  | some rest => exact frontWord_of_afterKeyword? hkey hafter

theorem noSection_of_noKeyword (language : String) (h : afterKeyword? "EQSP" s = none) :
    (section? language s).isNone = true := by
  rw [section?, h]
  rfl

end Absent

/-- A section marker starts with its keyword. -/
theorem startsWith_of_section? {language name line : String}
    (h : section? language line.toList = some name) : startsWith line "EQSP" = true := by
  unfold section? at h
  obtain ⟨rest, hafter, -⟩ := Option.bind_eq_some_iff.mp h
  obtain ⟨c, after, -, hline, -⟩ := exists_of_afterKeyword? hafter
  rw [startsWith, strip?_eq_some_iff.mpr hline]
  rfl

/-- A line does not start in two ways. -/
theorem eq_of_startsWith {line key other : String} (h : startsWith line key = true)
    (hother : startsWith line other = true) (hlength : key.toList.length = other.toList.length) :
    key = other := by
  obtain ⟨rest, hrest⟩ := Option.isSome_iff_exists.mp h
  obtain ⟨rest', hrest'⟩ := Option.isSome_iff_exists.mp hother
  have happend : key.toList ++ rest = other.toList ++ rest' :=
    (strip?_eq_some_iff.mp hrest).symm.trans (strip?_eq_some_iff.mp hrest')
  exact String.toList_injective (List.append_inj_left happend hlength)

/-- The line that opens a specification has the keyword as its front word. -/
theorem frontWord_of_specification? {s : List Char} {name : String} {brace : Bool}
    (h : specification? s = some (name, brace)) : frontWord s = "SPECIFICATION".toList := by
  unfold specification? at h
  rw [Option.bind_eq_bind, Option.bind_eq_some_iff] at h
  obtain ⟨after, hstrip, h⟩ := h
  have hkey : "SPECIFICATION".toList.all isWord = true := by decide
  rw [strip?_eq_some_iff.mp hstrip, frontWord_append hkey]
  cases after with
  | nil => exact List.append_nil _
  | cons c rest =>
    by_cases hc : isBlank c = true
    · rw [frontWord_of_isBlank hc, List.append_nil]
    · have hall : dropBlanks (c :: rest) = c :: rest := List.dropWhile_cons_of_neg hc
      dsimp only at h
      rw [hall, Nat.sub_self, if_pos (.inl rfl)] at h
      cases h

theorem frontWord_of_name? {s name rest : List Char} (h : name? s = some (name, rest)) :
    name = frontWord s ∧ name ≠ [] ∧ rest = s.dropWhile isWord := by
  cases s with
  | nil => cases h
  | cons c s =>
    rw [name?] at h
    split at h
    · rename_i hc
      cases h
      have hword := isWord_of_isNameStart hc
      exact ⟨(List.takeWhile_cons_of_pos hword).symm, List.cons_ne_nil _ _,
        (List.dropWhile_cons_of_pos hword).symm⟩
    · cases h

end Form

/-! ### Definitions -/

/-- What a line can define. -/
inductive LineDefinition where
  | declaration (name : String) (unit : Option String)
  | assignment (name expression : String)
  | value (value : Form.SpecValue)

/-- The name that is defined. -/
def LineDefinition.name : LineDefinition → String
  | .declaration name _ => name
  | .assignment name _ => name
  | .value v => String.ofList v.name

/-- A line has the form of a definition: `name` or `name [unit]`, `name = expression`, or
`name number …`. -/
inductive Defines (line : String) : LineDefinition → Prop
  | declaration {name : String} {unit : Option String}
    (h : Form.declaration? line.toList = some (name, unit)) : Defines line (.declaration name unit)
  | assignment {name expression : String}
    (h : Form.assignment? line.toList = some (name, expression)) :
    Defines line (.assignment name expression)
  | value {v : Form.SpecValue} (h : Form.specValue? line.toList = some v) : Defines line (.value v)

namespace Form

variable {s : List Char}

theorem of_declaration? {name : String} {unit : Option String}
    (h : declaration? s = some (name, unit)) :
    name = String.ofList (frontWord s) ∧ frontWord s ≠ [] ∧
      (afterFrontWord s = none ∨ afterFrontWord s = some '[') := by
  unfold declaration? at h
  rw [Option.bind_eq_bind, Option.bind_eq_some_iff] at h
  obtain ⟨⟨front, rest⟩, hname, h⟩ := h
  obtain ⟨rfl, hne, rfl⟩ := frontWord_of_name? hname
  rw [afterFrontWord]
  dsimp only at h
  split at h
  · rename_i hrest
    cases h
    exact ⟨rfl, hne, .inl (by rw [hrest]; rfl)⟩
  · rw [Option.bind_eq_some_iff] at h
    obtain ⟨⟨text, after⟩, hbracketed, h⟩ := h
    split at h
    · rename_i hafter
      cases h
      cases hafter
      refine ⟨rfl, hne, .inr ?_⟩
      unfold bracketed? at hbracketed
      split at hbracketed
      · rename_i hrest
        rw [hrest]
        rfl
      · cases hbracketed
    · cases h

theorem of_assignment? {name expression : String} (h : assignment? s = some (name, expression)) :
    name = String.ofList (frontWord s) ∧ frontWord s ≠ [] ∧ afterFrontWord s = some '=' := by
  unfold assignment? at h
  dsimp only at h
  split at h
  · cases h
  · rename_i hne
    rw [Option.bind_eq_bind, Option.bind_eq_some_iff] at h
    obtain ⟨value, hassigned, h⟩ := h
    cases h
    refine ⟨rfl, hne, ?_⟩
    unfold assigned? at hassigned
    rw [afterFrontWord]
    split at hassigned
    · rename_i hrest
      rw [hrest]
      rfl
    · cases hassigned

/-- What is assigned does not go on the name in front of it. -/
theorem dropWhile_of_assigned? {rest value : List Char} (h : assigned? rest = some value) :
    rest.takeWhile isWord = [] ∧ rest.dropWhile isWord = rest := by
  have hhead : ∃ c more, rest = c :: more ∧ isWord c = false := by
    cases rest with
    | nil => cases h
    | cons c more =>
      refine ⟨c, more, rfl, ?_⟩
      by_cases hc : isBlank c = true
      · exact isWord_eq_false_of_isBlank hc
      · have hall : dropBlanks (c :: more) = c :: more := List.dropWhile_cons_of_neg hc
        unfold assigned? at h
        rw [hall] at h
        split at h
        · rename_i heq
          cases heq
          decide
        · cases h
  obtain ⟨c, more, rfl, hc⟩ := hhead
  have hneg : ¬isWord c = true := Bool.eq_false_iff.mp hc
  exact ⟨List.takeWhile_cons_of_neg hneg, List.dropWhile_cons_of_neg hneg⟩

/-- An assignment to a fixed name is an assignment of that name. -/
theorem keyed?_eq_some_iff {key value : String} (hkey : key.toList.all isWord = true)
    (hne : key.toList ≠ []) : keyed? key s = some value ↔ assignment? s = some (key, value) := by
  constructor
  · intro h
    unfold keyed? at h
    obtain ⟨rest, hstrip, h⟩ := Option.bind_eq_some_iff.mp h
    obtain ⟨text, hassigned, h⟩ := Option.bind_eq_some_iff.mp h
    cases h
    obtain ⟨htake, hdrop⟩ := dropWhile_of_assigned? hassigned
    have hpos : ∀ c ∈ key.toList, isWord c = true := List.all_eq_true.mp hkey
    unfold assignment?
    rw [strip?_eq_some_iff.mp hstrip, List.takeWhile_append_of_pos hpos, htake, List.append_nil,
      List.dropWhile_append_of_pos hpos, hdrop, hassigned]
    dsimp only
    rw [if_neg hne, String.ofList_toList]
    rfl
  · intro h
    have hword : s.takeWhile isWord = key.toList := by
      rw [(of_assignment? h).1, String.toList_ofList]
      rfl
    have hstrip : strip? key.toList s = some (s.dropWhile isWord) := by
      rw [strip?_eq_some_iff, ← hword, List.takeWhile_append_dropWhile]
    unfold assignment? at h
    dsimp only at h
    rw [hword, if_neg hne] at h
    obtain ⟨text, hassigned, h⟩ := Option.bind_eq_some_iff.mp h
    have hvalue : String.ofList text = value := congrArg Prod.snd (Option.some.inj h)
    unfold keyed?
    rw [hstrip, Option.bind_eq_bind, Option.bind_some, hassigned, ← hvalue]
    rfl

/-- A character that a number can start with. -/
def IsNumberStart (c : Char) : Prop :=
  c = '+' ∨ c = '-' ∨ c = '.' ∨ isDigit c = true

theorem isNumberStart_of_mantissa? {digits rest : List Char}
    (h : mantissa? s = some (digits, rest)) : ∃ c, s.head? = some c ∧ IsNumberStart c := by
  cases s with
  | nil => cases h
  | cons c s =>
    refine ⟨c, rfl, ?_⟩
    by_cases hdigit : isDigit c = true
    · exact .inr (.inr (.inr hdigit))
    · rw [mantissa?, List.takeWhile_cons_of_neg hdigit, List.dropWhile_cons_of_neg hdigit] at h
      split at h
      · rename_i hpoint
        cases hpoint
        exact .inr (.inr (.inl rfl))
      · cases h
      · simp_all
      · simp_all

theorem isNumberStart_of_numberText? {n : NumberText} (h : numberText? s = some n) :
    ∃ c, s.head? = some c ∧ IsNumberStart c := by
  unfold numberText? at h
  rw [Option.bind_eq_bind, Option.bind_eq_some_iff] at h
  obtain ⟨⟨digits, rest⟩, hmantissa, -⟩ := h
  unfold sign at hmantissa
  split at hmantissa
  · exact ⟨'+', rfl, .inl rfl⟩
  · exact ⟨'-', rfl, .inr (.inl rfl)⟩
  · exact isNumberStart_of_mantissa? hmantissa

theorem of_specValue? {v : SpecValue} (h : specValue? s = some v) :
    v.name = frontWord s ∧ frontWord s ≠ [] ∧
      ∃ c, afterFrontWord s = some c ∧ IsNumberStart c := by
  unfold specValue? at h
  rw [Option.bind_eq_bind, Option.bind_eq_some_iff] at h
  obtain ⟨⟨front, rest⟩, hname, h⟩ := h
  obtain ⟨rfl, hne, rfl⟩ := frontWord_of_name? hname
  rw [Option.bind_eq_bind, Option.bind_eq_some_iff] at h
  obtain ⟨first, hfirst, h⟩ := h
  rw [Option.bind_eq_bind, Option.bind_eq_some_iff] at h
  obtain ⟨⟨numbers, tail⟩, -, h⟩ := h
  cases h
  refine ⟨rfl, hne, ?_⟩
  rw [afterFrontWord]
  unfold nextNumber? at hfirst
  split at hfirst
  · rename_i c rest hrest
    split at hfirst
    · rename_i hc
      rw [hrest, dropBlanks, List.dropWhile_cons_of_pos hc]
      exact isNumberStart_of_numberText? hfirst
    · cases hfirst
  · cases hfirst

theorem not_isNumberStart_equals : ¬IsNumberStart '=' := by
  unfold IsNumberStart
  decide

theorem not_isNumberStart_bracket : ¬IsNumberStart '[' := by
  unfold IsNumberStart
  decide

end Form

/-! ### A line has one form -/

section OneForm

variable {line : String} {d : LineDefinition}

theorem Defines.name_eq (h : Defines line d) :
    d.name = String.ofList (Form.frontWord line.toList) := by
  cases h with
  | declaration h => exact (Form.of_declaration? h).1
  | assignment h => exact (Form.of_assignment? h).1
  | value h => exact congrArg String.ofList (Form.of_specValue? h).1

theorem Defines.frontWord_ne_nil (h : Defines line d) : Form.frontWord line.toList ≠ [] := by
  cases h with
  | declaration h => exact (Form.of_declaration? h).2.1
  | assignment h => exact (Form.of_assignment? h).2.1
  | value h => exact (Form.of_specValue? h).2.1

theorem Defines.head?_ne {c : Char} (h : Defines line d) (hc : isWord c = false) :
    line.toList.head? ≠ some c :=
  Form.head?_ne_of_frontWord h.frontWord_ne_nil hc

/-- A line of one form does not have another. -/
theorem Defines.unique {d' : LineDefinition} (h : Defines line d) (h' : Defines line d') :
    d = d' := by
  cases h with
  | declaration h =>
    obtain ⟨-, -, hafter⟩ := Form.of_declaration? h
    cases h' with
    | declaration h' =>
      rw [h] at h'
      cases h'
      rfl
    | assignment h' =>
      rw [(Form.of_assignment? h').2.2] at hafter
      exact absurd hafter (by decide)
    | value h' =>
      obtain ⟨-, -, c, hc, hstart⟩ := Form.of_specValue? h'
      rw [hc] at hafter
      rcases hafter with hafter | hafter
      · cases hafter
      · cases hafter
        exact absurd hstart Form.not_isNumberStart_bracket
  | assignment h =>
    obtain ⟨-, -, hafter⟩ := Form.of_assignment? h
    cases h' with
    | declaration h' =>
      have hother := (Form.of_declaration? h').2.2
      rw [hafter] at hother
      exact absurd hother (by decide)
    | assignment h' =>
      rw [h] at h'
      cases h'
      rfl
    | value h' =>
      obtain ⟨-, -, c, hc, hstart⟩ := Form.of_specValue? h'
      rw [hafter] at hc
      cases hc
      exact absurd hstart Form.not_isNumberStart_equals
  | value h =>
    obtain ⟨-, -, c, hc, hstart⟩ := Form.of_specValue? h
    cases h' with
    | declaration h' =>
      have hother := (Form.of_declaration? h').2.2
      rw [hc] at hother
      rcases hother with hother | hother
      · cases hother
      · cases hother
        exact absurd hstart Form.not_isNumberStart_bracket
    | assignment h' =>
      have hother := (Form.of_assignment? h').2.2
      rw [hc] at hother
      cases hother
      exact absurd hstart Form.not_isNumberStart_equals
    | value h' =>
      rw [h] at h'
      cases h'
      rfl

theorem Defines.declaration?_eq (h : Defines line d) :
    Form.declaration? line.toList =
      match d with
      | .declaration name unit => some (name, unit)
      | _ => none := by
  cases hform : Form.declaration? line.toList with
  | some found =>
    cases h.unique (.declaration hform)
    rfl
  | none =>
    cases h with
    | declaration h =>
      rw [hform] at h
      cases h
    | assignment h => rfl
    | value h => rfl

theorem Defines.assignment?_eq (h : Defines line d) :
    Form.assignment? line.toList =
      match d with
      | .assignment name expression => some (name, expression)
      | _ => none := by
  cases hform : Form.assignment? line.toList with
  | some found =>
    cases h.unique (.assignment hform)
    rfl
  | none =>
    cases h with
    | declaration h => rfl
    | assignment h =>
      rw [hform] at h
      cases h
    | value h => rfl

theorem Defines.specValue?_eq (h : Defines line d) :
    Form.specValue? line.toList =
      match d with
      | .value v => some v
      | _ => none := by
  cases hform : Form.specValue? line.toList with
  | some found =>
    cases h.unique (.value hform)
    rfl
  | none =>
    cases h with
    | declaration h => rfl
    | assignment h => rfl
    | value h =>
      rw [hform] at h
      cases h

/-! ### Keywords -/

/-- A definition of another name does not start with a keyword. -/
theorem Defines.frontWord_ne {keyword : String} (h : Defines line d) (hname : d.name ≠ keyword) :
    Form.frontWord line.toList ≠ keyword.toList := by
  intro hword
  rw [h.name_eq, hword, String.ofList_toList] at hname
  exact hname rfl

theorem Defines.afterKeyword?_eq_none {keyword : String} (h : Defines line d)
    (hkey : keyword.toList.all isWord = true) (hname : d.name ≠ keyword) :
    Form.afterKeyword? keyword line.toList = none :=
  Form.afterKeyword?_of_frontWord hkey (h.frontWord_ne hname)

/-- A definition under a name that is no keyword starts with none. -/
theorem Defines.afterKeyword?_of_notMem {keywords : List String} (h : Defines line d)
    (hwords : ∀ keyword ∈ keywords, keyword.toList.all isWord = true) (hname : d.name ∉ keywords) :
    ∀ keyword ∈ keywords, Form.afterKeyword? keyword line.toList = none := by
  intro keyword hmem
  exact h.afterKeyword?_eq_none (hwords keyword hmem) (ne_of_mem_of_not_mem hmem hname).symm

theorem Defines.ne_keyword {keyword : String} (h : Defines line d)
    (hkey : keyword.toList.all isWord = true) (hname : d.name ≠ keyword) : line ≠ keyword :=
  Form.ne_of_frontWord hkey (h.frontWord_ne hname)

/-- A definition of another name does not start with a keyword and a space. -/
theorem Defines.startsWith_eq_false (h : Defines line d) (keyword : String)
    (hkey : keyword.toList.all isWord = true) (hname : d.name ≠ keyword) :
    Form.startsWith line (keyword ++ " ") = false :=
  Form.startsWith_eq_false_of_frontWord hkey (h.frontWord_ne hname)

/-- A definition starts with a word when its name does. -/
theorem Defines.startsWith_eq (h : Defines line d) (word : String)
    (hword : word.toList.all isWord = true) :
    Form.startsWith line word = Form.startsWith d.name word := by
  rw [Form.startsWith_eq_of_frontWord line hword, h.name_eq]

/-- A character that is not blank. -/
def notBlank (c : Char) : Bool :=
  !isBlank c

/-- The first word of a text is its longest run of characters that are not blank. -/
theorem head?_words {c : Char} {rest : List Char} (hc : isBlank c = false) :
    (words (c :: rest)).head? = some (c :: rest.takeWhile notBlank) := by
  induction rest generalizing c with
  | nil =>
    unfold words
    rw [if_neg (Bool.eq_false_iff.mp hc)]
    rfl
  | cons e more ih =>
    unfold words
    rw [if_neg (Bool.eq_false_iff.mp hc)]
    dsimp only
    by_cases he : isBlank e = true
    · have hstop : ¬notBlank e = true := by
        rw [notBlank, he]
        exact Bool.false_ne_true
      rw [if_pos he, List.takeWhile_cons_of_neg hstop, List.head?_cons]
    · have hgo : notBlank e = true := by
        rw [notBlank, Bool.eq_false_iff.mpr he, Bool.not_false]
      have hrest := ih (Bool.eq_false_iff.mpr he)
      rw [if_neg he, List.takeWhile_cons_of_pos hgo]
      cases hwords : words (e :: more) with
      | nil =>
        rw [hwords] at hrest
        cases hrest
      | cons word others =>
        rw [hwords, List.head?_cons, Option.some.injEq] at hrest
        rw [hrest, List.head?_cons]

/-- A line that does not start with a blank has its first word as its front word, if that is made of
word characters. -/
theorem Form.frontWord_of_firstWord {keyword : String} (hkey : keyword.toList.all isWord = true)
    (hhead : ∀ c, line.toList.head? = some c → isBlank c = false)
    (h : firstWord line = some keyword) : Form.frontWord line.toList = keyword.toList := by
  have hword : keyword.toList = line.toList.takeWhile notBlank := by
    rw [firstWord, wordsOf, List.head?_map] at h
    cases hline : line.toList with
    | nil =>
      rw [hline] at h
      cases h
    | cons c rest =>
      have hc : isBlank c = false := hhead c (by rw [hline]; rfl)
      have hgo : notBlank c = true := by rw [notBlank, hc, Bool.not_false]
      rw [hline, head?_words hc, Option.map_some, Option.some.injEq] at h
      rw [← h, String.toList_ofList, List.takeWhile_cons_of_pos hgo]
  rw [← List.takeWhile_append_dropWhile (p := notBlank) (l := line.toList), ← hword,
    Form.frontWord_append hkey]
  cases hdrop : line.toList.dropWhile notBlank with
  | nil => exact List.append_nil _
  | cons e more =>
    have he : isBlank e = true := by
      have hstop := List.head?_dropWhile_not notBlank line.toList
      rw [hdrop] at hstop
      simpa [notBlank] using hstop
    rw [Form.frontWord_of_isBlank he, List.append_nil]

/-- A line with another front word does not have a keyword as its first word. -/
theorem Form.firstWord_ne_of_frontWord {keyword : String} (hkey : keyword.toList.all isWord = true)
    (hne : frontWord line.toList ≠ []) (h : frontWord line.toList ≠ keyword.toList) :
    firstWord line ≠ some keyword := by
  refine fun hfirst ↦ h (frontWord_of_firstWord hkey (fun c hc ↦ ?_) hfirst)
  refine Bool.eq_false_iff.mpr fun hblank ↦ ?_
  exact head?_ne_of_frontWord hne (isWord_eq_false_of_isBlank hblank) hc

end OneForm

end TesterSetup
