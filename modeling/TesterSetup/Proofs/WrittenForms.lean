import TesterSetup.Proofs.WrittenLines
import TesterSetup.Reader.Shared

/-!
# Written forms of lines

Lines that were put together in the form of a declaration, an assignment or a keyword with its
arguments are taken apart into the parts they were made of. A part that is a word ends at a space or
at the end of the line (`EndsWord`); the part up to the end of the line has to be trimmed
(`IsPhrase`), and a description loses its quotes and no more (`unquote_inQuotes`).
-/

set_option autoImplicit false

namespace TesterSetup

open TesterSetup.Text

/-! ### Words -/

namespace Text

theorem words_cons_of_isBlank {c : Char} (h : isBlank c = true) (rest : List Char) :
    words (c :: rest) = words rest := by
  rw [words.eq_def]
  exact if_pos h

/-- What may follow a word: the end of the text or a space. -/
def EndsWord (rest : List Char) : Prop :=
  rest = [] ∨ ∃ more, rest = ' ' :: more

/-- A word ends at a space or at the end of the text. -/
theorem words_append {w rest : List Char} (hne : w ≠ []) (hw : ∀ c ∈ w, isBlank c = false)
    (hrest : EndsWord rest) : words (w ++ rest) = w :: words rest := by
  induction w with
  | nil => exact absurd rfl hne
  | cons c w ih =>
    rw [List.forall_mem_cons] at hw
    cases w with
    | nil =>
      rcases hrest with rfl | ⟨more, rfl⟩
      · simp [words, hw.1]
      · have hspace : isBlank ' ' = true := by decide
        rw [List.singleton_append, words.eq_def]
        simp only [hw.1, hspace, Bool.false_eq_true, if_false, if_true]
    | cons d w =>
      have hd : isBlank d = false := hw.2 d List.mem_cons_self
      have htail := ih (List.cons_ne_nil _ _) hw.2
      rw [List.cons_append] at htail
      rw [List.cons_append, List.cons_append, words.eq_def]
      simp only [hw.1, hd, htail, Bool.false_eq_true, if_false]

/-- The words of a line of words are these. -/
theorem words_intercalate {ws : List (List Char)}
    (hws : ∀ w ∈ ws, w ≠ [] ∧ ∀ c ∈ w, isBlank c = false) : words ([' '].intercalate ws) = ws := by
  induction ws with
  | nil => rfl
  | cons w ws ih =>
    rw [List.forall_mem_cons] at hws
    cases ws with
    | nil =>
      have hword := words_append hws.1.1 hws.1.2 (.inl rfl)
      rw [List.append_nil] at hword
      rw [List.intercalate_singleton, hword]
      rfl
    | cons w' ws =>
      rw [List.intercalate_cons_cons, List.append_assoc, List.singleton_append,
        words_append hws.1.1 hws.1.2 (.inr ⟨_, rfl⟩), words_cons_of_isBlank (by decide), ih hws.2]

/-! ### Lines made of parts -/

/-- A word is a line. -/
theorem isLine_of_word {w : List Char} (hne : w ≠ []) (hw : ∀ c ∈ w, isBlank c = false) :
    IsLine w where
  first _ hc := hw _ (List.mem_of_head? hc)
  last _ hc := hw _ (List.mem_of_getLast? hc)
  ne_nil := hne
  noBreak hbreak := absurd (hw _ hbreak) (by decide)

/-- Two lines with a space between them are one line. -/
theorem IsLine.append {s t : List Char} (hs : IsLine s) (ht : IsLine t) :
    IsLine (s ++ ' ' :: t) where
  first c hc := by
    obtain ⟨d, s, rfl⟩ := List.exists_cons_of_ne_nil hs.ne_nil
    exact hs.first c hc
  last c hc := by
    obtain ⟨d, t, rfl⟩ := List.exists_cons_of_ne_nil ht.ne_nil
    rw [List.getLast?_append_of_ne_nil _ (List.cons_ne_nil _ _), List.getLast?_cons_cons] at hc
    exact ht.last c hc
  ne_nil := by simp
  noBreak := by simp [hs.noBreak, ht.noBreak]

/-- Words with a space between any two are one line. -/
theorem isLine_intercalate {ws : List (List Char)} (hne : ws ≠ [])
    (hws : ∀ w ∈ ws, w ≠ [] ∧ ∀ c ∈ w, isBlank c = false) : IsLine ([' '].intercalate ws) := by
  induction ws with
  | nil => exact absurd rfl hne
  | cons w ws ih =>
    rw [List.forall_mem_cons] at hws
    have hw : IsLine w := isLine_of_word hws.1.1 hws.1.2
    cases ws with
    | nil => rwa [List.intercalate_singleton]
    | cons w' ws =>
      rw [List.intercalate_cons_cons, List.append_assoc]
      exact hw.append (ih (List.cons_ne_nil _ _) hws.2)

/-! ### Texts on one line -/

/-- A text on one line that carries something on both ends. -/
@[mk_iff]
structure IsPhrase (s : String) : Prop extends HasBareEnds s.toList where
  ne_empty : s ≠ ""
  noBreak : '\n' ∉ s.toList

instance (s : String) : Decidable (IsPhrase s) :=
  decidable_of_iff _ (isPhrase_iff s).symm

theorem IsPhrase.isLine {s : String} (h : IsPhrase s) : IsLine s.toList where
  toHasBareEnds := h.toHasBareEnds
  ne_nil hnil := h.ne_empty (String.toList_eq_nil_iff.mp hnil)
  noBreak := h.noBreak

/-- A text in quotes. -/
def inQuotes (s : String) : List Char :=
  '"' :: (s.toList ++ ['"'])

/-- A text on one line with neither blanks nor quotes at its ends. -/
@[mk_iff]
structure IsDescription (s : String) : Prop extends HasBareEnds s.toList where
  first_ne : s.toList.head? ≠ some '"'
  last_ne : s.toList.getLast? ≠ some '"'
  noBreak : '\n' ∉ s.toList

instance (s : String) : Decidable (IsDescription s) :=
  decidable_of_iff _ (isDescription_iff s).symm

theorem hasBareEnds_inQuotes (s : String) : HasBareEnds (inQuotes s) where
  first := by simp [inQuotes]; decide
  last := by simp [inQuotes, List.getLast?_cons, List.getLast?_append]; decide

theorem isLine_inQuotes {s : String} (h : '\n' ∉ s.toList) : IsLine (inQuotes s) where
  toHasBareEnds := hasBareEnds_inQuotes s
  ne_nil := List.cons_ne_nil _ _
  noBreak := by simp [inQuotes, h]

end Text

theorem hasBareEnds_unquote (text : String) : HasBareEnds (unquote text).toList := by
  unfold unquote
  rw [String.toList_ofList]
  exact hasBareEnds_trim _

/-- Quotes are taken off a text with neither blanks nor quotes at its ends. -/
theorem unquote_inQuotes_of_ne {s : String} (h : HasBareEnds s.toList)
    (hfirst : s.toList.head? ≠ some '"') (hlast : s.toList.getLast? ≠ some '"') :
    unquote (String.ofList (inQuotes s)) = s := by
  have hquote : ∀ c, c ≠ '"' → (c == '"') = false := fun c hc ↦ beq_eq_false_iff_ne.mpr hc
  have hopening : (s.toList ++ ['"']).dropWhile (· == '"') = s.toList ++ ['"'] ∨ s.toList = [] := by
    cases hs : s.toList with
    | nil => exact .inr rfl
    | cons c rest =>
      refine .inl (dropWhile_eq_self fun d hd ↦ hquote d ?_)
      rintro rfl
      exact hfirst (by rw [hs]; exact hd)
  have hinner : (((inQuotes s).dropWhile (· == '"')).reverse.dropWhile (· == '"')).reverse =
      s.toList := by
    rw [inQuotes, List.dropWhile_cons_of_pos (by decide)]
    rcases hopening with hself | hnil
    · rw [hself, List.reverse_append, List.reverse_singleton, List.singleton_append,
        List.dropWhile_cons_of_pos (by decide), dropWhile_eq_self, List.reverse_reverse]
      intro c hc
      rw [List.head?_reverse] at hc
      refine hquote c ?_
      rintro rfl
      exact hlast hc
    · rw [hnil]
      rfl
  unfold unquote
  dsimp only
  rw [String.toList_ofList, trim_eq_self (hasBareEnds_inQuotes s), hinner,
    trim_eq_self h, String.ofList_toList]

theorem unquote_inQuotes {s : String} (h : IsDescription s) :
    unquote (String.ofList (inQuotes s)) = s :=
  unquote_inQuotes_of_ne h.toHasBareEnds h.first_ne h.last_ne

/-- A text with neither blanks nor quotes at its ends stays as it is. -/
theorem unquote_eq_self {s : String} (h : HasBareEnds s.toList)
    (hfirst : s.toList.head? ≠ some '"') (hlast : s.toList.getLast? ≠ some '"') :
    unquote s = s := by
  have hopening : s.toList.dropWhile (· == '"') = s.toList := by
    refine dropWhile_eq_self fun c hc ↦ beq_eq_false_iff_ne.mpr ?_
    rintro rfl
    exact hfirst hc
  have hclosing : s.toList.reverse.dropWhile (· == '"') = s.toList.reverse := by
    refine dropWhile_eq_self fun c hc ↦ beq_eq_false_iff_ne.mpr ?_
    rintro rfl
    rw [List.head?_reverse] at hc
    exact hlast hc
  unfold unquote
  dsimp only
  rw [trim_eq_self h, hopening, hclosing, List.reverse_reverse, trim_eq_self h,
    String.ofList_toList]

/-! ### Names -/

/-- An ASCII letter or an underscore, and word characters after it. -/
def IsIdentifier (s : String) : Prop :=
  ∃ c rest, s.toList = c :: rest ∧ (isAsciiLetter c || c == '_') = true ∧ rest.all isWord = true

instance (s : String) : Decidable (IsIdentifier s) :=
  match h : s.toList with
  | [] => .isFalse fun ⟨_, _, hs, _⟩ ↦ by rw [h] at hs; cases hs
  | c :: rest =>
    decidable_of_iff ((isAsciiLetter c || c == '_') = true ∧ rest.all isWord = true)
      ⟨fun hcrest ↦ ⟨c, rest, h, hcrest⟩, fun ⟨_, _, hs, hcrest⟩ ↦ by
        rw [h] at hs; cases hs; exact hcrest⟩

theorem IsIdentifier.all_isWord {s : String} (h : IsIdentifier s) :
    s.toList.all isWord = true := by
  obtain ⟨c, rest, hs, hc, hrest⟩ := h
  rw [hs, List.all_cons, isWord_of_isNameStart hc, hrest]
  rfl

theorem IsIdentifier.ne_nil {s : String} (h : IsIdentifier s) : s.toList ≠ [] := by
  obtain ⟨c, rest, hs, -⟩ := h
  rw [hs]
  exact List.cons_ne_nil _ _

namespace Form

variable {name text unit keyword : String} {rest : List Char}

/-- A word is the front word of the lines that it starts. -/
theorem frontWord_written {w : List Char} (hw : w.all isWord = true) (hrest : EndsWord rest) :
    frontWord (w ++ rest) = w := by
  rw [frontWord_append hw]
  rcases hrest with rfl | ⟨more, rfl⟩
  · exact List.append_nil w
  · rw [frontWord_of_isBlank (by decide), List.append_nil]

theorem name?_append (h : IsIdentifier name) (rest : List Char)
    (hrest : ∀ c, rest.head? = some c → isWord c = false) :
    name? (name.toList ++ rest) = some (name.toList, rest) := by
  obtain ⟨c, more, hname, hc, hmore⟩ := h
  have hall : ∀ d ∈ more, isWord d = true := List.all_eq_true.mp hmore
  have hstop : rest.takeWhile isWord = [] ∧ rest.dropWhile isWord = rest := by
    refine ⟨?_, dropWhile_eq_self hrest⟩
    cases rest with
    | nil => rfl
    | cons d rest => exact List.takeWhile_cons_of_neg (by simp [hrest d rfl])
  rw [hname, List.cons_append, name?, if_pos hc, List.takeWhile_append_of_pos hall,
    List.dropWhile_append_of_pos hall, hstop.1, hstop.2, List.append_nil]

/-! ### Texts that start with a name -/

/-- A text is a name, blanks, and from a bracket or an equals sign on what is said about the name. -/
structure IsNamed (s : List Char) (name : String) (gap tail : List Char) : Prop where
  isWord : name.toList.all isWord = true
  text_eq : s = name.toList ++ (gap ++ tail)
  gap : ∀ c ∈ gap, isBlank c = true
  mark : ∀ c, tail.head? = some c → c = '[' ∨ c = '='

section Named

variable {s gap tail : List Char}

theorem IsNamed.isBlank_tail (h : IsNamed s name gap tail) {c : Char} (hc : tail.head? = some c) :
    isBlank c = false := by
  rcases h.mark c hc with rfl | rfl <;> decide

/-- What follows the name does not go on with it. -/
theorem IsNamed.isWord_rest (h : IsNamed s name gap tail) {c : Char}
    (hc : (gap ++ tail).head? = some c) : Text.isWord c = false := by
  cases gap with
  | nil => rcases h.mark c hc with rfl | rfl <;> decide
  | cons d gap =>
    obtain rfl : d = c := Option.some.inj hc
    exact isWord_eq_false_of_isBlank (h.gap d List.mem_cons_self)

theorem IsNamed.frontWord_eq (h : IsNamed s name gap tail) : frontWord s = name.toList := by
  rw [h.text_eq]
  exact takeWhile_append_of_head? (List.all_eq_true.mp h.isWord) fun _ ↦ h.isWord_rest

theorem IsNamed.dropBlanks_eq (h : IsNamed s name gap tail) : dropBlanks (gap ++ tail) = tail :=
  dropWhile_append_of_head? h.gap fun _ ↦ h.isBlank_tail

theorem IsNamed.afterFrontWord_eq (h : IsNamed s name gap tail) :
    afterFrontWord s = tail.head? := by
  have hrest : s.dropWhile Text.isWord = gap ++ tail := by
    rw [h.text_eq]
    exact dropWhile_append_of_head? (List.all_eq_true.mp h.isWord) fun _ ↦ h.isWord_rest
  rw [afterFrontWord, hrest, h.dropBlanks_eq]

theorem IsNamed.afterKeyword?_name (h : IsNamed s name gap tail) :
    afterKeyword? name s = if gap = [] then none else some tail := by
  have hstrip : strip? name.toList s = some (gap ++ tail) := strip?_eq_some_iff.mpr h.text_eq
  rw [afterKeyword?, hstrip]
  cases gap with
  | nil =>
    cases tail with
    | nil => rfl
    | cons c tail =>
      have hc : isBlank c = false := h.isBlank_tail rfl
      rw [if_pos rfl, List.nil_append]
      dsimp only
      rw [hc, if_neg Bool.false_ne_true]
  | cons c gap =>
    have hrest : dropBlanks (gap ++ tail) = tail :=
      dropWhile_append_of_head? (fun d hd ↦ h.gap d (List.mem_cons_of_mem c hd))
        fun _ ↦ h.isBlank_tail
    rw [if_neg (List.cons_ne_nil c gap), List.cons_append]
    dsimp only
    rw [if_pos (h.gap c List.mem_cons_self), hrest]

/-- Only the name can be read as a keyword, and only with blanks behind it. -/
theorem IsNamed.of_afterKeyword? (hkey : keyword.toList.all Text.isWord = true)
    (h : IsNamed s name gap tail) (hafter : afterKeyword? keyword s = some rest) :
    name = keyword ∧ gap ≠ [] ∧ rest = tail := by
  have hword := frontWord_of_afterKeyword? hkey hafter
  rw [h.frontWord_eq] at hword
  obtain rfl : name = keyword := String.toList_injective hword
  rw [h.afterKeyword?_name] at hafter
  split at hafter
  · cases hafter
  · rename_i hgap
    exact ⟨rfl, hgap, (Option.some.inj hafter).symm⟩

/-- There is no number behind a keyword. -/
theorem IsNamed.numbered?_eq_none (hkey : keyword.toList.all Text.isWord = true)
    (h : IsNamed s name gap tail) : numbered? keyword s = none := by
  cases hafter : afterKeyword? keyword s with
  | none => exact Form.numbered?_eq_none hafter
  | some rest =>
    obtain ⟨-, -, rfl⟩ := h.of_afterKeyword? hkey hafter
    rw [numbered?, hafter]
    cases rest with
    | nil => rfl
    | cons c rest => rcases h.mark c rfl with rfl | rfl <;> rfl

/-- There is no word behind a keyword. -/
theorem IsNamed.word?_eq_none (hkey : keyword.toList.all Text.isWord = true)
    (h : IsNamed s name gap tail) : word? keyword s = none := by
  cases hafter : afterKeyword? keyword s with
  | none => exact Form.word?_eq_none hafter
  | some rest =>
    obtain ⟨-, -, rfl⟩ := h.of_afterKeyword? hkey hafter
    rw [word?, hafter]
    cases rest with
    | nil => rfl
    | cons c rest => rcases h.mark c rfl with rfl | rfl <;> rfl

/-- What is said about the name is read as the arguments of a keyword. -/
theorem IsNamed.argument?_eq (hkey : keyword.toList.all Text.isWord = true)
    (h : IsNamed s name gap tail) :
    argument? keyword s =
      if name = keyword ∧ gap ≠ [] ∧ tail ≠ [] then some (String.ofList tail) else none := by
  split
  · rename_i htaken
    obtain ⟨rfl, hgap, htail⟩ := htaken
    rw [argument?, h.afterKeyword?_name, if_neg hgap]
    exact if_neg htail
  · rename_i hfree
    cases hafter : afterKeyword? keyword s with
    | none => exact argument?_eq_none hafter
    | some rest =>
      obtain ⟨hname, hgap, rfl⟩ := h.of_afterKeyword? hkey hafter
      have htail : rest = [] := by
        by_contra htail
        exact hfree ⟨hname, hgap, htail⟩
      rw [argument?, hafter]
      exact if_pos htail

theorem IsNamed.startsWith_space_iff {line : String}
    (hkey : keyword.toList.all Text.isWord = true) (h : IsNamed line.toList name gap tail) :
    startsWith line (keyword ++ " ") = true ↔ name = keyword ∧ gap.head? = some ' ' := by
  constructor
  · intro hstart
    have hword := frontWord_of_startsWith hkey hstart
    rw [h.frontWord_eq] at hword
    obtain rfl : name = keyword := String.toList_injective hword
    rw [startsWith, String.toList_append] at hstart
    obtain ⟨more, hmore⟩ := Option.isSome_iff_exists.mp hstart
    have hline := strip?_eq_some_iff.mp hmore
    rw [h.text_eq, List.append_assoc] at hline
    have hafter : gap ++ tail = ' ' :: more := List.append_cancel_left hline
    refine ⟨rfl, ?_⟩
    cases gap with
    | nil => exact absurd (h.isBlank_tail (congrArg List.head? hafter)) (by decide)
    | cons c gap => exact congrArg List.head? (List.cons_append.symm.trans hafter)
  · rintro ⟨rfl, hgap⟩
    obtain ⟨more, rfl⟩ := List.head?_eq_some_iff.mp hgap
    rw [startsWith, String.toList_append, Option.isSome_iff_exists]
    refine ⟨more ++ tail, strip?_eq_some_iff.mpr (h.text_eq.trans ?_)⟩
    rw [List.append_assoc]
    rfl

theorem IsNamed.eq_keyword_iff {line : String} (hkey : keyword.toList.all Text.isWord = true)
    (h : IsNamed line.toList name gap tail) :
    line = keyword ↔ name = keyword ∧ gap = [] ∧ tail = [] := by
  constructor
  · rintro rfl
    have hword := frontWord_of_isWord hkey
    rw [h.frontWord_eq] at hword
    obtain rfl : name = line := String.toList_injective hword
    exact ⟨rfl, List.append_eq_nil_iff.mp (List.append_right_eq_self.mp h.text_eq.symm)⟩
  · rintro ⟨rfl, rfl, rfl⟩
    exact String.toList_injective (h.text_eq.trans (List.append_nil _))

end Named

/-! ### Declarations and assignments -/

theorem isIdentifier_of_name? {s front : List Char} (h : name? s = some (front, rest)) :
    IsIdentifier (String.ofList front) := by
  unfold name? at h
  split at h
  · rename_i c more
    split at h
    · rename_i hc
      cases h
      exact ⟨c, _, String.toList_ofList, hc, List.all_takeWhile⟩
    · cases h
  · cases h

theorem bracketed?_append {s : List Char} (h : ']' ∉ s) (rest : List Char) :
    bracketed? ('[' :: (s ++ ']' :: rest)) = some (s, rest) := by
  obtain ⟨htake, hdrop⟩ := upTo_of_notMem h rest
  simp [bracketed?, htake, hdrop]

theorem bracketed?_eq_some_iff {s text : List Char} :
    bracketed? s = some (text, rest) ↔ s = '[' :: (text ++ ']' :: rest) ∧ ']' ∉ text := by
  constructor
  · intro h
    unfold bracketed? at h
    split at h
    · split at h
      · rename_i after hafter
        cases h
        refine ⟨?_, fun hmem ↦ ?_⟩
        · rw [← hafter, List.takeWhile_append_dropWhile]
        · simpa using List.mem_takeWhile_imp hmem
      · cases h
    · cases h
  · rintro ⟨rfl, hnone⟩
    exact bracketed?_append hnone rest

/-- A unit in brackets, or nothing. -/
def unitText : Option String → List Char
  | none => []
  | some unit => '[' :: (unit.toList ++ [']'])

/-- A text declares a name: the name, blanks and a unit in brackets or none. -/
structure IsDeclaration (s : List Char) (name : String) (gap : List Char) (unit : Option String) :
    Prop where
  identifier : IsIdentifier name
  text_eq : s = name.toList ++ (gap ++ unitText unit)
  gap : ∀ c ∈ gap, isBlank c = true
  unit : ∀ u, unit = some u → ']' ∉ u.toList

theorem unitText_eq_nil_iff {unit : Option String} : unitText unit = [] ↔ unit = none := by
  cases unit <;> simp [unitText]

theorem IsDeclaration.isNamed {s gap : List Char} {unit : Option String}
    (h : IsDeclaration s name gap unit) : IsNamed s name gap (unitText unit) where
  isWord := h.identifier.all_isWord
  text_eq := h.text_eq
  gap := h.gap
  mark c hc := by
    cases unit with
    | none => cases hc
    | some u => exact .inl (Option.some.inj hc).symm

/-- What is read as a declaration are the texts that declare a name. -/
theorem declaration?_eq_some_iff {s : List Char} {unit : Option String} :
    declaration? s = some (name, unit) ↔ ∃ gap, IsDeclaration s name gap unit := by
  constructor
  · intro h
    unfold declaration? at h
    obtain ⟨⟨front, rest⟩, hname, h⟩ := Option.bind_eq_some_iff.mp h
    obtain ⟨rfl, -, rfl⟩ := frontWord_of_name? hname
    have hidentifier := isIdentifier_of_name? hname
    have hfront : (String.ofList (frontWord s)).toList = s.takeWhile isWord := String.toList_ofList
    have hgap : ∀ c ∈ (s.dropWhile isWord).takeWhile isBlank, isBlank c = true :=
      fun c hc ↦ List.mem_takeWhile_imp hc
    have hsplit : s = s.takeWhile isWord ++ ((s.dropWhile isWord).takeWhile isBlank ++
        dropBlanks (s.dropWhile isWord)) := by
      rw [dropBlanks, List.takeWhile_append_dropWhile, List.takeWhile_append_dropWhile]
    dsimp only at h
    split at h
    · rename_i hrest
      cases h
      have hnone : ∀ u : String, none = some u → ']' ∉ u.toList := by
        rintro u ⟨⟩
      rw [hrest] at hsplit
      exact ⟨_, hidentifier, by rw [hfront]; exact hsplit, hgap, hnone⟩
    · obtain ⟨⟨text, after⟩, hbracketed, h⟩ := Option.bind_eq_some_iff.mp h
      split at h
      · rename_i hafter
        cases h
        cases hafter
        obtain ⟨hrest, hnone⟩ := bracketed?_eq_some_iff.mp hbracketed
        rw [hrest] at hsplit
        refine ⟨_, hidentifier, by rw [hfront, unitText, String.toList_ofList]; exact hsplit, hgap,
          ?_⟩
        rintro u ⟨⟩
        rwa [String.toList_ofList]
      · cases h
  · rintro ⟨gap, h⟩
    unfold declaration?
    rw [h.text_eq, name?_append h.identifier _ fun _ ↦ h.isNamed.isWord_rest, Option.bind_eq_bind,
      Option.bind_some]
    dsimp only
    rw [h.isNamed.dropBlanks_eq]
    cases unit with
    | none => simp [unitText]
    | some u =>
      have hunit := bracketed?_append (h.unit u rfl) []
      simp [unitText, hunit]

theorem declaration?_name (h : IsIdentifier name) :
    declaration? name.toList = some (name, none) :=
  declaration?_eq_some_iff.mpr ⟨[], h, (List.append_nil _).symm, nofun, nofun⟩

theorem declaration?_unit (h : IsIdentifier name) (hunit : ']' ∉ unit.toList) :
    declaration? (name.toList ++ ' ' :: '[' :: (unit.toList ++ [']'])) =
      some (name, some unit) := by
  refine declaration?_eq_some_iff.mpr ⟨[' '], h, rfl, List.forall_mem_singleton.mpr rfl, ?_⟩
  rintro u ⟨⟩
  exact hunit

/-- An assignment is read with any blanks around its equals sign. -/
theorem IsNamed.assignment?_eq {s gap after value : List Char}
    (h : IsNamed s name gap ('=' :: (after ++ value))) (hne : name.toList ≠ [])
    (hafter : ∀ c ∈ after, isBlank c = true) (hvalue : value ≠ [])
    (hfirst : ∀ c, value.head? = some c → isBlank c = false) (hbreak : '\n' ∉ value) :
    assignment? s = some (name, String.ofList value) := by
  have hassigned : assigned? (gap ++ '=' :: (after ++ value)) = some value := by
    have hdrop : dropBlanks (after ++ value) = value := dropWhile_append_of_head? hafter hfirst
    obtain ⟨c, more, hcons⟩ := List.exists_cons_of_ne_nil hvalue
    unfold assigned?
    rw [h.dropBlanks_eq]
    split
    · rename_i heq
      cases heq
      rw [hdrop, hcons]
      exact if_neg (hcons ▸ hbreak)
    · rename_i hnone
      exact absurd rfl (hnone _)
  have hword : ∀ c ∈ name.toList, Text.isWord c = true := List.all_eq_true.mp h.isWord
  unfold assignment?
  dsimp only
  rw [h.text_eq, takeWhile_append_of_head? hword fun _ ↦ h.isWord_rest,
    dropWhile_append_of_head? hword fun _ ↦ h.isWord_rest, if_neg hne, hassigned,
    String.ofList_toList]
  rfl

/-- What is assigned in a text that ends in no blank stands behind the equals sign and blanks, and
starts with none. -/
theorem of_assigned? {s value : List Char} (h : assigned? s = some value)
    (hlast : ∀ c, s.getLast? = some c → isBlank c = false) :
    ∃ after, dropBlanks s = '=' :: (after ++ value) ∧ (∀ c ∈ after, isBlank c = true) ∧
      value ≠ [] ∧ ∀ c, value.head? = some c → isBlank c = false := by
  unfold assigned? at h
  split at h
  · rename_i rest hequals
    cases hvalue : dropBlanks rest with
    | nil =>
      -- only blanks would follow the sign, and the line would end in one of them
      rw [hvalue] at h
      cases hend : rest.getLast? with
      | none =>
        rw [hend] at h
        cases h
      | some c =>
        have hsuffix : '=' :: rest <:+ s := hequals ▸ List.dropWhile_suffix _
        have hlast' : s.getLast? = some c := by
          obtain ⟨front, rfl⟩ := hsuffix
          rw [List.getLast?_append, List.getLast?_cons, hend]
          rfl
        have hblank : isBlank c = true :=
          List.dropWhile_eq_nil_iff.mp hvalue c (List.mem_of_getLast? hend)
        rw [hlast c hlast'] at hblank
        cases hblank
    | cons c more =>
      have hassigned : (if '\n' ∈ c :: more then none else some (c :: more)) = some value := by
        rw [hvalue] at h
        exact h
      split at hassigned
      · cases hassigned
      · cases hassigned
        refine ⟨rest.takeWhile isBlank, ?_, fun _ hb ↦ List.mem_takeWhile_imp hb,
          List.cons_ne_nil c more, fun d hd ↦ head?_dropBlanks (hvalue ▸ hd)⟩
        rw [hequals, ← hvalue, dropBlanks, List.takeWhile_append_dropWhile]
  · cases h

/-- The parts of an assignment that ends in no blank. -/
theorem exists_isNamed_of_assignment? {s : List Char} {expression : String}
    (h : assignment? s = some (name, expression))
    (hlast : ∀ c, s.getLast? = some c → isBlank c = false) :
    ∃ gap after value, IsNamed s name gap ('=' :: (after ++ value)) ∧ name.toList ≠ [] ∧
      expression = String.ofList value ∧ (∀ c ∈ after, isBlank c = true) ∧ value ≠ [] ∧
      ∀ c, value.head? = some c → isBlank c = false := by
  unfold assignment? at h
  dsimp only at h
  split at h
  · cases h
  · rename_i hne
    obtain ⟨value, hassigned, h⟩ := Option.bind_eq_some_iff.mp h
    cases h
    obtain ⟨after, hequals, hafter, hvalue⟩ := of_assigned? hassigned fun c hc ↦ by
      obtain ⟨front, hfront⟩ := List.dropWhile_suffix (l := s) isWord
      refine hlast c ?_
      rw [← hfront, List.getLast?_append, hc, Option.some_or]
    refine ⟨(s.dropWhile isWord).takeWhile isBlank, after, value, ⟨?_, ?_,
      fun _ hb ↦ List.mem_takeWhile_imp hb, fun c hc ↦ .inr (Option.some.inj hc).symm⟩, ?_, rfl,
      hafter, hvalue⟩
    · rw [String.toList_ofList]
      exact List.all_takeWhile
    · rw [String.toList_ofList, ← hequals, dropBlanks, List.takeWhile_append_dropWhile,
        List.takeWhile_append_dropWhile]
    · rwa [String.toList_ofList]

theorem assignment?_written (h : IsIdentifier name) (htext : IsPhrase text) :
    assignment? (name.toList ++ ' ' :: '=' :: ' ' :: text.toList) = some (name, text) := by
  have hvalue : text.toList ≠ [] := fun hnil ↦ htext.ne_empty (String.toList_eq_nil_iff.mp hnil)
  have hnamed : IsNamed (name.toList ++ ' ' :: '=' :: ' ' :: text.toList) name [' ']
      ('=' :: ([' '] ++ text.toList)) :=
    ⟨h.all_isWord, rfl, List.forall_mem_singleton.mpr rfl,
      fun _ hc ↦ .inr (Option.some.inj hc).symm⟩
  rw [hnamed.assignment?_eq h.ne_nil (List.forall_mem_singleton.mpr rfl) hvalue htext.first
    htext.noBreak, String.ofList_toList]

/-! ### Keywords -/

/-- A number and a description behind a keyword. -/
theorem numbered?_written (keyword : String) (n : Nat) (tail : List Char)
    (htail : ∀ c, tail.head? = some c → isBlank c = false) (hbreak : '\n' ∉ tail)
    (hrest : rest = [] ∧ tail = [] ∨ rest = ' ' :: tail) :
    numbered? keyword (keyword.toList ++ ' ' :: (Decimal.digitsOf n ++ rest)) =
      some (String.ofList (Decimal.digitsOf n), String.ofList tail) := by
  have hdigits : ∀ c ∈ Decimal.digitsOf n, isDigit c = true :=
    fun c hc ↦ isDigit_of_isAsciiDigit (isAsciiDigit_of_mem_digitsOf hc)
  have hword : (Decimal.digitsOf n).all isWord = true :=
    List.all_eq_true.mpr fun c hc ↦ isWord_of_isAsciiDigit (isAsciiDigit_of_mem_digitsOf hc)
  have hsplit : (Decimal.digitsOf n ++ rest).takeWhile isDigit = Decimal.digitsOf n ∧
      dropBlanks ((Decimal.digitsOf n ++ rest).dropWhile isDigit) = tail := by
    rcases hrest with ⟨rfl, rfl⟩ | rfl
    · rw [List.append_nil, List.takeWhile_eq_self_iff.mpr hdigits,
        List.dropWhile_eq_nil_iff.mpr hdigits]
      exact ⟨rfl, rfl⟩
    · rw [takeWhile_upTo hdigits (by decide), dropWhile_upTo hdigits (by decide), dropBlanks,
        List.dropWhile_cons_of_pos (by decide)]
      exact ⟨rfl, dropBlanks_eq_self htail⟩
  unfold numbered?
  rw [afterKeyword?_written keyword (isBlank_head?_append (digitsOf_ne_nil n) hword rest),
    Option.bind_eq_bind, Option.bind_some, hsplit.1, hsplit.2, if_pos ⟨digitsOf_ne_nil n, hbreak⟩]

theorem argument?_written (keyword : String) (hrest : rest ≠ [])
    (hfirst : ∀ c, rest.head? = some c → isBlank c = false) :
    argument? keyword (keyword.toList ++ ' ' :: rest) = some (String.ofList rest) := by
  unfold argument?
  rw [afterKeyword?_written keyword hfirst]
  simp [hrest]

theorem word?_written (keyword : String) (hrest : rest ≠ []) (hword : rest.all isWord = true) :
    word? keyword (keyword.toList ++ ' ' :: rest) = some (String.ofList rest) := by
  have hfirst := isBlank_head?_append hrest hword []
  rw [List.append_nil] at hfirst
  unfold word?
  rw [afterKeyword?_written keyword hfirst]
  simp only [Option.bind_eq_bind, Option.bind_some, hrest, hword, ne_eq, not_false_eq_true,
    and_self, if_true]

end Form

end TesterSetup
