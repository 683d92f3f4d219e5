import TesterSetup.Proofs.QuotedTexts
import TesterSetup.Proofs.WrittenLines
import TesterSetup.Toml.Reader

/-!
# Written documents

What a document that was put together from lines is read as. The lines are headers of tables, texts
in double quotes, empty lists and empty lines (`DocumentLine`). Each is read as the one statement
that it writes (`Toml.statements?_line`), so a document of well-formed lines is read line by line
(`Toml.statements?_lines`, `Toml.parse_lines`). A line that starts with a key and a quote is also
taken apart when anything may follow (`Toml.exists_quoted_of_statements?`).
-/

set_option autoImplicit false

namespace TesterSetup

/-- A line of a document. -/
inductive DocumentLine where
  | blank
  /-- The header of a table. -/
  | header (path : List String)
  /-- A key with a text in double quotes. -/
  | text (key content : String)
  /-- A key with an empty list. -/
  | noItems (key : String)
  deriving DecidableEq

namespace Toml

/-- A key can stand without quotes. -/
def IsBareKey (key : String) : Prop :=
  key.toList ≠ [] ∧ ∀ c ∈ key.toList, isBare c = true

instance (key : String) : Decidable (IsBareKey key) :=
  have := List.decidableBAll (isBare · = true) key.toList
  inferInstanceAs (Decidable (_ ∧ _))

/-- Keys with dots between them. -/
def dotted : List String → List Char
  | [] => []
  | [key] => key.toList
  | key :: path => key.toList ++ '.' :: dotted path

end Toml

namespace DocumentLine

open Toml

/-- The characters of a line. -/
def chars : DocumentLine → List Char
  | blank => ['\n']
  | header path => '[' :: (dotted path ++ [']', '\n'])
  | text key content => key.toList ++ (" = ".toList ++ '"' :: (content.toList ++ ['"', '\n']))
  | noItems key => key.toList ++ (" = ".toList ++ ['[', ']', '\n'])

/-- Keys stand without quotes, and texts in quotes for themselves. -/
def WellFormed : DocumentLine → Prop
  | blank => True
  | header path => path ≠ [] ∧ path.length < nestingLimit ∧ ∀ key ∈ path, IsBareKey key
  | text key content => IsBareKey key ∧ ∀ c ∈ content.toList, IsItself c
  | noItems key => IsBareKey key

instance : (line : DocumentLine) → Decidable line.WellFormed
  | blank => inferInstanceAs (Decidable True)
  | header path => inferInstanceAs (Decidable (path ≠ [] ∧ _ < _ ∧ ∀ key ∈ path, _))
  | text key content =>
    have := List.decidableBAll IsItself content.toList
    inferInstanceAs (Decidable (IsBareKey key ∧ _))
  | noItems key => inferInstanceAs (Decidable (IsBareKey key))

/-- Does what a line says to a document: the header that was read last, and the members. -/
def addTo (document : List String × Members) : DocumentLine → Option (List String × Members)
  | blank => some document
  | header path => (openTable path document.2).map (path, ·)
  | text key content =>
    (Toml.within (assign (.text content) [key]) document.1 document.2).map (document.1, ·)
  | noItems key =>
    (Toml.within (assign (.list []) [key]) document.1 document.2).map (document.1, ·)

end DocumentLine

namespace Toml

variable {key : String} {path : List String} {rest : List Char}

/-! ### Keys -/

/-- What follows a key: nothing that could stand in it, and no dot behind blanks. -/
def EndsKey (rest : List Char) : Prop :=
  (∀ c, rest.head? = some c → isBare c = false) ∧ (dropSpace rest).head? ≠ some '.'

theorem not_isSpace_of_isBare {c : Char} (h : isBare c = true) : isSpace c = false := by
  rw [Bool.eq_false_iff]
  intro hspace
  rcases Bool.or_eq_true_iff.mp hspace with hc | hc
  · rw [beq_iff_eq.mp hc] at h
    exact absurd h (by decide)
  · rw [beq_iff_eq.mp hc] at h
    exact absurd h (by decide)

theorem IsBareKey.exists_cons (h : IsBareKey key) :
    ∃ c s, key.toList = c :: s ∧ isBare c = true := by
  obtain ⟨c, s, hkey⟩ := List.exists_cons_of_ne_nil h.1
  exact ⟨c, s, hkey, h.2 c (hkey ▸ List.mem_cons_self)⟩

theorem IsBareKey.dropSpace_append (h : IsBareKey key) (rest : List Char) :
    dropSpace (key.toList ++ rest) = key.toList ++ rest := by
  obtain ⟨c, s, hkey, hc⟩ := h.exists_cons
  rw [hkey, List.cons_append, dropSpace, List.dropWhile_cons_of_neg]
  simp [not_isSpace_of_isBare hc]

theorem IsBareKey.simpleKey?_append (h : IsBareKey key)
    (hrest : ∀ c, rest.head? = some c → isBare c = false) :
    simpleKey? (key.toList ++ rest) = some (key.toList, rest) := by
  unfold simpleKey?
  rw [Text.takeWhile_append_of_head? h.2 hrest, Text.dropWhile_append_of_head? h.2 hrest]
  obtain ⟨c, s, hkey, -⟩ := h.exists_cons
  rw [hkey]

theorem length_le_dotted (h : ∀ key ∈ path, IsBareKey key) :
    path.length ≤ (dotted path).length := by
  induction path with
  | nil => exact Nat.le_refl 0
  | cons key path ih =>
    obtain ⟨hkey, hpath⟩ := List.forall_mem_cons.mp h
    have hlong := List.length_pos_iff.mpr hkey.1
    have hrest := ih hpath
    cases path with
    | nil => exact hlong
    | cons next path =>
      rw [dotted]
      · simp only [List.length_append, List.length_cons] at hrest ⊢
        omega
      · exact List.cons_ne_nil _ _

/-- Keys with dots between them are read up to the end of the last. -/
theorem keyParts?_dotted {steps : Nat} (hne : path ≠ []) (hsteps : path.length ≤ steps)
    (hpath : ∀ key ∈ path, IsBareKey key) (hrest : EndsKey rest) :
    keyParts? steps (dotted path ++ rest) = some (path, dropSpace rest) := by
  induction path generalizing steps with
  | nil => exact absurd rfl hne
  | cons key path ih =>
    obtain ⟨hkey, hpath⟩ := List.forall_mem_cons.mp hpath
    obtain ⟨steps, rfl⟩ : ∃ n, steps = n + 1 := Nat.exists_eq_add_one.mpr (by
      rw [List.length_cons] at hsteps
      omega)
    cases path with
    | nil =>
      rw [dotted, keyParts?, hkey.dropSpace_append, hkey.simpleKey?_append hrest.1]
      simp only [Option.bind_eq_bind, Option.bind_some, String.ofList_toList]
      split
      · rename_i more hdot
        exact absurd (congrArg List.head? hdot) hrest.2
      · rfl
    | cons next path =>
      have hdot : ∀ c, ('.' :: (dotted (next :: path) ++ rest)).head? = some c →
          isBare c = false := by
        rintro c ⟨⟩
        decide
      rw [dotted, List.append_assoc, List.cons_append, keyParts?, hkey.dropSpace_append,
        hkey.simpleKey?_append hdot]
      · have hspace : dropSpace ('.' :: (dotted (next :: path) ++ rest)) =
            '.' :: (dotted (next :: path) ++ rest) := rfl
        simp only [Option.bind_eq_bind, Option.bind_some, String.ofList_toList, hspace]
        rw [ih (List.cons_ne_nil _ _) (Nat.le_of_succ_le_succ hsteps) hpath]
        rfl
      · exact List.cons_ne_nil _ _

theorem key?_dotted (hne : path ≠ []) (hlimit : path.length < nestingLimit)
    (hpath : ∀ key ∈ path, IsBareKey key) (hrest : EndsKey rest) :
    key? (dotted path ++ rest) = some (path, dropSpace rest) := by
  have hsteps : path.length ≤ (dotted path ++ rest).length := by
    have := length_le_dotted hpath
    rw [List.length_append]
    omega
  rw [key?, keyParts?_dotted hne hsteps hpath hrest]
  exact if_pos hlimit

/-! ### Statements -/

theorem header?_dotted (hne : path ≠ []) (hlimit : path.length < nestingLimit)
    (hpath : ∀ key ∈ path, IsBareKey key) (rest : List Char) :
    header? (dotted path ++ ']' :: '\n' :: rest) = some (path, rest) := by
  have hends : EndsKey (']' :: '\n' :: rest) := by
    refine ⟨?_, nofun⟩
    rintro c ⟨⟩
    decide
  rw [header?, key?_dotted hne hlimit hpath hends]
  rfl

/-- A line that starts with a key and an equals sign. -/
theorem pair?_key (hkey : IsBareKey key) (rest : List Char) :
    pair? (key.toList ++ (" = ".toList ++ rest)) =
      (value? (2 * (rest.length + 1) + 2) (nestingLimit - 1) (dropSpace rest)).bind
        fun (value, rest) ↦ (lineEnd? rest).map fun rest ↦ ([key], value, rest) := by
  have hends : EndsKey (" = ".toList ++ rest) := by
    refine ⟨?_, nofun⟩
    rintro c ⟨⟩
    decide
  have hread : key? (key.toList ++ (" = ".toList ++ rest)) = some ([key], '=' :: ' ' :: rest) :=
    key?_dotted (List.cons_ne_nil key []) (by decide : 1 < nestingLimit)
      (List.forall_mem_singleton.mpr hkey) hends
  rw [pair?, hread]
  simp only [Option.bind_eq_bind, Option.bind_some, List.length_cons]
  refine Option.bind_congr fun r _ ↦ ?_
  cases lineEnd? r.2 <;> rfl

/-- A text in double quotes is a value, and nothing else that starts with a double quote is. -/
theorem value?_quote (steps room : Nat) (rest : List Char) :
    value? (steps + 1) room ('"' :: rest) =
      (quoted? ('"' :: rest)).map fun (content, rest) ↦ (.text (String.ofList content), rest) := by
  rw [value?]
  · cases quoted? ('"' :: rest) <;> rfl
  all_goals exact nofun

theorem dropSpace_quote (rest : List Char) : dropSpace ('"' :: rest) = '"' :: rest :=
  rfl

theorem pair?_text {content : String} (hkey : IsBareKey key)
    (hcontent : ∀ c ∈ content.toList, IsItself c) (rest : List Char) :
    pair? (key.toList ++ (" = ".toList ++ '"' :: (content.toList ++ '"' :: '\n' :: rest))) =
      some ([key], .text content, rest) := by
  have hquoted : quoted? ('"' :: (content.toList ++ '"' :: '\n' :: rest)) =
      some (content.toList, '\n' :: rest) := quoted?_append hcontent nofun
  rw [pair?_key hkey, dropSpace_quote, value?_quote, hquoted]
  simp only [Option.map_some, Option.bind_some, String.ofList_toList]
  rfl

theorem pair?_noItems (hkey : IsBareKey key) (rest : List Char) :
    pair? (key.toList ++ (" = ".toList ++ '[' :: ']' :: '\n' :: rest)) =
      some ([key], .list [], rest) := by
  have hvalue : ∀ steps room, value? (steps + 2) (room + 1) ('[' :: ']' :: '\n' :: rest) =
      some (.list [], '\n' :: rest) := fun _ _ ↦ rfl
  have hspace : ∀ s, dropSpace ('[' :: s) = '[' :: s := fun _ ↦ rfl
  rw [pair?_key hkey, hspace, nestingLimit, hvalue]
  rfl

theorem dropFiller_of_isBare {c : Char} (h : isBare c = true) (rest : List Char) :
    dropFiller false (c :: rest) = some (c :: rest) := by
  have hne : ∀ d, isBare d = false → c ≠ d := by
    rintro d hd rfl
    exact Bool.false_ne_true (hd.symm.trans h)
  have hcomment : ¬(c == '#') = true := by simpa using hne '#' (by decide)
  rw [dropFiller, if_neg Bool.false_ne_true, if_neg (by simp [not_isSpace_of_isBare h]),
    if_neg hcomment]
  · exact hne '\n' (by decide)
  · exact fun _ hc ↦ absurd hc (hne '\r' (by decide))

theorem statements?_header (steps : Nat) (header : List String) (members : Members)
    (rest : List Char) :
    statements? (steps + 1) header members ('[' :: rest) =
      (header? rest).bind fun r ↦
        (openTable r.1 members).bind fun members ↦ statements? steps r.1 members r.2 :=
  rfl

/-- What starts with a key is read as a key with its value. -/
theorem statements?_pair (steps : Nat) (header : List String) (members : Members)
    (hkey : IsBareKey key) (rest : List Char) :
    statements? (steps + 1) header members (key.toList ++ rest) =
      (pair? (key.toList ++ rest)).bind fun r ↦
        (within (assign r.2.1 r.1) header members).bind fun members ↦
          statements? steps header members r.2.2 := by
  obtain ⟨c, s, hs, hc⟩ := hkey.exists_cons
  have hopen : c ≠ '[' := by
    rintro rfl
    exact absurd hc (by decide)
  rw [hs, List.cons_append, statements?, dropFiller_of_isBare hc]
  simp only [Option.bind_eq_bind, Option.bind_some]
  split
  · rename_i hnil
    cases hnil
  · rename_i hheader
    exact absurd (List.cons.inj hheader).1 hopen
  · rfl

/-- A key with a quote behind it is read as the key of what is read from the quote. -/
theorem exists_quoted_of_statements? {steps : Nat} {header : List String}
    {members members' : Members} (hkey : IsBareKey key)
    (h : statements? (steps + 1) header members (key.toList ++ (" = ".toList ++ '"' :: rest)) =
      some members') :
    ∃ content after next after', quoted? ('"' :: rest) = some (content, after) ∧
      within (assign (.text (String.ofList content)) [key]) header members = some next ∧
      statements? steps header next after' = some members' := by
  rw [statements?_pair steps _ _ hkey, pair?_key hkey, dropSpace_quote, value?_quote] at h
  obtain ⟨_, hpair, h⟩ := Option.bind_eq_some_iff.mp h
  obtain ⟨_, hvalue, hpair⟩ := Option.bind_eq_some_iff.mp hpair
  obtain ⟨⟨content, after⟩, hquoted, rfl⟩ := Option.map_eq_some_iff.mp hvalue
  obtain ⟨after', -, rfl⟩ := Option.map_eq_some_iff.mp hpair
  obtain ⟨next, hnext, h⟩ := Option.bind_eq_some_iff.mp h
  exact ⟨content, after, next, after', hquoted, hnext, h⟩

/-- A line is read as the statement that it writes; an empty line takes no step. -/
theorem statements?_line {line : DocumentLine} (hline : line.WellFormed) (steps : Nat)
    (document : List String × Members) (rest : List Char) :
    statements? (steps + 1) document.1 document.2 (line.chars ++ rest) =
      if line = .blank then statements? (steps + 1) document.1 document.2 rest
      else (line.addTo document).bind fun next ↦ statements? steps next.1 next.2 rest := by
  cases line with
  | blank => rfl
  | header path =>
    obtain ⟨hne, hlimit, hpath⟩ := hline
    simp only [DocumentLine.chars, List.cons_append, List.append_assoc, List.nil_append]
    rw [if_neg nofun, statements?_header, header?_dotted hne hlimit hpath, Option.bind_some,
      DocumentLine.addTo, Option.bind_map]
    rfl
  | text key content =>
    obtain ⟨hkey, hcontent⟩ := hline
    simp only [DocumentLine.chars, List.cons_append, List.append_assoc, List.nil_append]
    rw [if_neg nofun, statements?_pair steps _ _ hkey, pair?_text hkey hcontent, Option.bind_some,
      DocumentLine.addTo, Option.bind_map]
    rfl
  | noItems key =>
    simp only [DocumentLine.chars, List.cons_append, List.append_assoc, List.nil_append]
    rw [if_neg nofun, statements?_pair steps _ _ hline, pair?_noItems hline, Option.bind_some,
      DocumentLine.addTo, Option.bind_map]
    rfl

/-- A document of lines is read line by line. -/
theorem statements?_lines {lines : List DocumentLine} (hlines : ∀ line ∈ lines, line.WellFormed)
    {steps : Nat} (hsteps : lines.length < steps) (document : List String × Members) :
    statements? steps document.1 document.2 (lines.flatMap DocumentLine.chars) =
      (lines.foldlM DocumentLine.addTo document).map Prod.snd := by
  induction lines generalizing steps document with
  | nil =>
    obtain ⟨steps, rfl⟩ := Nat.exists_eq_add_one.mpr hsteps
    rfl
  | cons line lines ih =>
    obtain ⟨hline, hothers⟩ := List.forall_mem_cons.mp hlines
    rw [List.length_cons] at hsteps
    obtain ⟨steps, rfl⟩ : ∃ n, steps = n + 1 := Nat.exists_eq_add_one.mpr (by omega)
    rw [List.flatMap_cons, statements?_line hline, List.foldlM_cons]
    by_cases hblank : line = .blank
    · subst hblank
      rw [if_pos rfl, ih hothers (by omega)]
      rfl
    · rw [if_neg hblank, Option.bind_eq_bind, Option.map_bind]
      exact Option.bind_congr fun next _ ↦ ih hothers (by omega) next

theorem length_le_flatMap_chars (lines : List DocumentLine) :
    lines.length ≤ (lines.flatMap DocumentLine.chars).length := by
  induction lines with
  | nil => exact Nat.le_refl 0
  | cons line lines ih =>
    have hline : 0 < line.chars.length := by
      cases line <;> simp [DocumentLine.chars]
    rw [List.flatMap_cons, List.length_append, List.length_cons]
    omega

/-- A text that starts with a bracket starts with no byte order mark. -/
theorem parse_of_bracket {text : String} {rest : List Char} (h : text.toList = '[' :: rest) :
    parse text =
      (statements? (text.toList.length + 1) [] [] text.toList).map (.table .headed) := by
  unfold parse
  split
  · rename_i hmark
    rw [h] at hmark
    cases hmark
  · rfl

/-- A text of well-formed lines, the first of which is a header, is read as what they write. -/
theorem parse_lines {path : List String} {lines : List DocumentLine}
    (hlines : ∀ line ∈ .header path :: lines, line.WellFormed) {text : String}
    (htext : text.toList = (DocumentLine.header path :: lines).flatMap DocumentLine.chars) :
    parse text = ((DocumentLine.header path :: lines).foldlM DocumentLine.addTo ([], [])).map
      fun document ↦ .table .headed document.2 := by
  have hread := statements?_lines hlines
    (Nat.lt_succ_of_le (length_le_flatMap_chars (.header path :: lines))) ([], [])
  rw [← htext] at hread
  rw [parse_of_bracket htext]
  exact (congrArg (Option.map (table .headed)) hread).trans (Option.map_map _ _ _)

end Toml

end TesterSetup
