import Mathlib.Data.List.Find
import TesterSetup.Proofs.CommentLines
import TesterSetup.Proofs.LevelsPlaces
import TesterSetup.Proofs.NamedLines
import TesterSetup.Proofs.WrittenLevels

/-!
# Blanks around an equals sign

A line `name = expression` of a levels text is written with any blanks around its first equals sign
(`AssignmentText`, `Spacing`), as is every line that reads as an assignment
(`exists_raw_eq_of_lines`), and two texts that differ in these blanks alone are compared
(`Respaces`). The text of a line serves two ends: it gives the line its form, and errors quote it.
So a line with other blanks but of the same form is read with the same result wherever it is read
at all (`LevelsReader.succeedsAs_read`).

The form does not depend on the blanks but for four names (`Levels.TakesAssignment`). Blanks turn
`DPSPINS` and `PINS` into the keywords of a block, and a space turns `NOOP` into a line that is
passed over. A space behind `term` is taken for that of a line `term value`, and the assignment is
rejected (`LevelsReader.read_term`).
-/

set_option autoImplicit false

namespace TesterSetup

open TesterSetup.Text

/-! ### Assignments as they are written -/

/-- The blanks around an equals sign. -/
structure Spacing where
  before : List Char
  after : List Char
  isBlank_before : ∀ c ∈ before, isBlank c = true
  isBlank_after : ∀ c ∈ after, isBlank c = true

/-- A line that assigns something, up to the blanks around its first equals sign: the blanks in
front, the name, and what is assigned from its first character that is not blank. -/
structure AssignmentText where
  lead : List Char
  name : String
  first : Char
  rest : List Char
  isBlank_lead : ∀ c ∈ lead, isBlank c = true
  name_ne : name.toList ≠ []
  isWord_name : name.toList.all isWord = true
  isBlank_first : isBlank first = false

namespace AssignmentText

variable {a : AssignmentText} {sp : Spacing}

/-- The line with some blanks around its equals sign. -/
def raw (a : AssignmentText) (sp : Spacing) : List Char :=
  a.lead ++ (a.name.toList ++ (sp.before ++ '=' :: (sp.after ++ a.first :: a.rest)))

/-- The line as it is read. -/
def text (a : AssignmentText) (sp : Spacing) : String :=
  String.ofList (trim (a.raw sp))

/-- What stands behind the name and the blanks that follow it. -/
def tail (a : AssignmentText) (sp : Spacing) : List Char :=
  '=' :: (sp.after ++ a.first :: dropBlanksRight a.rest)

/-- What is assigned. -/
def expression (a : AssignmentText) : String :=
  String.ofList (a.first :: dropBlanksRight a.rest)

theorem trim_raw (a : AssignmentText) (sp : Spacing) :
    trim (a.raw sp) = a.name.toList ++ (sp.before ++ a.tail sp) := by
  have hlead : dropBlanks (a.raw sp) =
      a.name.toList ++ (sp.before ++ '=' :: (sp.after ++ a.first :: a.rest)) :=
    dropWhile_append_of_head? a.isBlank_lead (isBlank_head?_append a.name_ne a.isWord_name _)
  have hassoc : ∀ value : List Char,
      a.name.toList ++ (sp.before ++ '=' :: (sp.after ++ value)) =
        (a.name.toList ++ (sp.before ++ '=' :: sp.after)) ++ value := fun value ↦ by simp
  rw [trim, hlead, hassoc, dropBlanksRight_append_cons a.isBlank_first, tail,
    hassoc]

theorem isNamed_text (a : AssignmentText) (sp : Spacing) :
    Form.IsNamed (a.text sp).toList a.name sp.before (a.tail sp) where
  isWord := a.isWord_name
  text_eq := by rw [text, String.toList_ofList, trim_raw]
  gap := sp.isBlank_before
  mark c hc := .inr (Option.some.inj hc).symm

/-- The line is an assignment with any blanks around its equals sign. -/
theorem assignment?_text (hbreak : '\n' ∉ a.raw sp) :
    Form.assignment? (a.text sp).toList = some (a.name, a.expression) := by
  have hafter : '\n' ∉ a.first :: a.rest := by
    unfold raw at hbreak
    simp only [List.mem_append, List.mem_cons, not_or] at hbreak
    rw [List.mem_cons, not_or]
    exact hbreak.2.2.2.2.2
  refine (a.isNamed_text sp).assignment?_eq a.name_ne sp.isBlank_after (List.cons_ne_nil _ _) ?_ ?_
  · rintro c ⟨⟩
    exact a.isBlank_first
  · rw [List.mem_cons, not_or] at hafter ⊢
    exact ⟨hafter.1, fun hmem ↦ hafter.2 (mem_of_mem_dropBlanksRight hmem)⟩

/-- Every line that is read as an assignment is written like this. -/
theorem exists_raw_eq {line : List Char} {name expression : String}
    (h : Form.assignment? (trim line) = some (name, expression)) : ∃ a sp, line = raw a sp := by
  obtain ⟨lead, trail, hline, hlead, -⟩ := exists_eq_trim_append line
  obtain ⟨gap, after, value, hnamed, hne, -, hafter, hvalue, hfirst⟩ :=
    Form.exists_isNamed_of_assignment? h (hasBareEnds_trim line).last
  obtain ⟨c, more, rfl⟩ := List.exists_cons_of_ne_nil hvalue
  refine ⟨⟨lead, name, c, more ++ trail, hlead, hne, hnamed.isWord, hfirst c rfl⟩,
    ⟨gap, after, hnamed.gap, hafter⟩, ?_⟩
  rw [hnamed.text_eq] at hline
  simpa [raw] using hline

/-- The line carries something. -/
theorem isSignificant_text (a : AssignmentText) (sp : Spacing) :
    isSignificant (a.text sp) = true := by
  have hword : Form.frontWord (a.text sp).toList ≠ [] := by
    rw [(a.isNamed_text sp).frontWord_eq]
    exact a.name_ne
  have hhash : (a.text sp).toList.head? ≠ some '#' := Form.head?_ne_of_frontWord hword (by decide)
  unfold isSignificant
  split
  · rename_i hnil
    rw [hnil] at hword
    exact absurd rfl hword
  · rename_i c rest hcons
    rw [hcons, List.head?_cons, ne_eq, Option.some_inj] at hhash
    exact bne_iff_ne.mpr hhash

/-- The line is no header, which has a comma behind its first word. -/
theorem isHeader_text (a : AssignmentText) (sp : Spacing) (language : String) :
    isHeader (a.text sp) language = false := by
  have hstrip : Form.strip? ("hp93000," ++ language ++ ",").toList (a.text sp).toList = none := by
    rw [← Option.not_isSome_iff_eq_none, Option.isSome_iff_exists]
    rintro ⟨rest, hrest⟩
    have hline : (a.text sp).toList =
        "hp93000".toList ++ ',' :: (language.toList ++ ',' :: rest) := by
      rw [Form.strip?_eq_some_iff.mp hrest]
      simp
    have hword : "hp93000".toList.all isWord = true := by decide
    have hcomma : Form.afterFrontWord (a.text sp).toList = some ',' := by
      rw [Form.afterFrontWord, hline, dropWhile_upTo (List.all_eq_true.mp hword) (by decide)]
      rfl
    rw [(a.isNamed_text sp).afterFrontWord_eq] at hcomma
    cases hcomma
  rw [isHeader, hstrip]

end AssignmentText

/-! ### Texts with other blanks -/

/-- The second text is the first with other blanks around the first equals sign of a line. -/
structure Respaces (text text' : String) (front rest : List (List Char)) (a : AssignmentText)
    (sp sp' : Spacing) : Prop where
  lines_eq : lines text.toList = front ++ a.raw sp :: rest
  lines_eq' : lines text'.toList = front ++ a.raw sp' :: rest

/-- Any blanks can be put around the equals sign of an assignment, but for line ends. -/
theorem respaces_textOf (front rest : List String) (a : AssignmentText) (sp sp' : Spacing)
    (h : ∀ l ∈ front ++ String.ofList (a.raw sp) :: rest, IsRawLine l)
    (h' : IsRawLine (String.ofList (a.raw sp'))) :
    Respaces (textOf (front ++ String.ofList (a.raw sp) :: rest))
      (textOf (front ++ String.ofList (a.raw sp') :: rest)) (front.map String.toList)
      (rest.map String.toList) a sp sp' where
  lines_eq := by rw [lines_textOf h, List.map_append, List.map_cons, String.toList_ofList]
  lines_eq' := by
    have hlines : ∀ l ∈ front ++ String.ofList (a.raw sp') :: rest, IsRawLine l := by
      rw [List.forall_mem_append, List.forall_mem_cons] at h ⊢
      exact ⟨h.1, h', h.2.2⟩
    rw [lines_textOf hlines, List.map_append, List.map_cons, String.toList_ofList]

/-- A line that carries something among the significant lines of a text. -/
theorem significantLines_of_lines {text : String} {front rest : List (List Char)} {line : List Char}
    (h : lines text.toList = front ++ line :: rest)
    (hsignificant : isSignificant (String.ofList (trim line)) = true) :
    significantLines text =
      (numberFrom 1 front).filter (fun l ↦ isSignificant l.text) ++
        ⟨front.length + 1, String.ofList (trim line)⟩ ::
        (numberFrom (front.length + 2) rest).filter fun l ↦ isSignificant l.text := by
  rw [significantLines, numberedLines_eq, h, numberFrom_append, numberFrom_cons, List.filter_append,
    List.filter_cons_of_pos (by exact hsignificant), Nat.add_comm 1]

/-! ### What the text of a line is for -/

/-- The second reading succeeds when the first one does, with the same result. -/
def SucceedsAs {ε α : Type} (x y : Except ε α) : Prop :=
  ∀ a, x = .ok a → y = .ok a

namespace SucceedsAs

variable {ε α β : Type} {x y : Except ε α}

theorem refl (x : Except ε α) : SucceedsAs x x :=
  fun _ h ↦ h

theorem of_error (e : ε) (y : Except ε α) : SucceedsAs (.error e) y :=
  nofun

theorem bind {f g : α → Except ε β} (h : SucceedsAs x y) (hf : ∀ a, SucceedsAs (f a) (g a)) :
    SucceedsAs (x >>= f) (y >>= g) := by
  intro b hb
  obtain ⟨a, ha, hb⟩ := except_bind_eq_ok_iff.mp hb
  exact except_bind_eq_ok_iff.mpr ⟨a, h a ha, hf a b hb⟩

theorem ofLine (line line' : String) (x : Except Complaint α) :
    SucceedsAs (TesterSetup.ofLine line x) (TesterSetup.ofLine line' x) :=
  fun _ h ↦ except_mapError_eq_ok_iff.mpr (except_mapError_eq_ok_iff.mp h)

theorem updateLast (l : List α) (missing missing' : ε) (f : α → Except ε α) :
    SucceedsAs (TesterSetup.updateLast l missing f) (TesterSetup.updateLast l missing' f) := by
  unfold TesterSetup.updateLast
  cases l.getLast? with
  | none => exact of_error _ _
  | some a => exact refl _

end SucceedsAs

namespace LevelsReader

variable {r : LevelsReader} (line line' : String)

theorem succeedsAs_inEqnSet {f g : LevelsEqnSet → LineResult LevelsEqnSet}
    (h : ∀ e, SucceedsAs (f e) (g e)) :
    SucceedsAs (r.inEqnSet line f) (r.inEqnSet line' g) := by
  unfold inEqnSet
  cases r.eqnset with
  | none => exact .of_error _ _
  | some num => exact .bind (.refl _) fun e ↦ (h e).bind fun _ ↦ .refl _

theorem succeedsAs_inLevelSet (f : LevelSet → LineResult LevelSet) (e : LevelsEqnSet)
    {g : LevelSet → LineResult LevelSet} (h : ∀ s, SucceedsAs (f s) (g s)) :
    SucceedsAs (r.inLevelSet line f e) (r.inLevelSet line' g e) := by
  unfold inLevelSet
  cases r.levelset with
  | none => exact .of_error _ _
  | some num => exact .bind (.refl _) fun s ↦ (h s).bind fun _ ↦ .refl _

theorem succeedsAs_inPinBlock (f : SettingBlock → LineResult SettingBlock) (e : LevelsEqnSet) :
    SucceedsAs (r.inPinBlock line f e) (r.inPinBlock line' f e) :=
  succeedsAs_inLevelSet line line' _ e fun _ ↦ (SucceedsAs.updateLast _ _ _ f).bind fun _ ↦ .refl _

theorem succeedsAs_inDpsBlock (missing : Complaint) (f : SettingBlock → LineResult SettingBlock)
    (e : LevelsEqnSet) :
    SucceedsAs (inDpsBlock line missing f e) (inDpsBlock line' missing f e) :=
  (SucceedsAs.updateLast _ _ _ f).bind fun _ ↦ .refl _

theorem succeedsAs_assign (name expression : String) (e : LevelsEqnSet) :
    SucceedsAs (r.assign line name expression e) (r.assign line' name expression e) := by
  unfold assign
  dsimp only
  split_ifs
  · exact succeedsAs_inDpsBlock line line' _ _ e
  · exact succeedsAs_inPinBlock line line' _ e
  · exact .refl _
  · exact .of_error _ _

/-- A line of the equation section is placed by its form. -/
theorem succeedsAs_placeEquations (form : EquationsLine) :
    SucceedsAs (r.placeEquations line form) (r.placeEquations line' form) := by
  cases form with
  | eqnset num description => exact (SucceedsAs.ofLine line line' _).bind fun _ ↦ .refl _
  | heading => exact .refl _
  | dpsPins pins => exact succeedsAs_inEqnSet line line' fun _ ↦ .refl _
  | levelSet num description =>
    unfold placeEquations
    cases r.eqnset with
    | none => exact .of_error _ _
    | some eqnset =>
      exact (SucceedsAs.ofLine line line' _).bind fun _ ↦
        (succeedsAs_inEqnSet line line' fun _ ↦ .refl _).bind fun _ ↦ .refl _
  | pins pins =>
    exact succeedsAs_inEqnSet line line' fun e ↦
      succeedsAs_inLevelSet line line' _ e fun _ ↦ .refl _
  | term value => exact succeedsAs_inEqnSet line line' (succeedsAs_inPinBlock line line' _)
  | unsupportedTerm => exact succeedsAs_inEqnSet line line' fun _ ↦ .of_error _ _
  | protect => exact succeedsAs_inEqnSet line line' (succeedsAs_inDpsBlock line line' _ _)
  | assignment name expression =>
    exact succeedsAs_inEqnSet line line' (succeedsAs_assign line line' name expression)
  | declaration name unit => exact succeedsAs_inEqnSet line line' fun _ ↦ .refl _
  | unplaced => exact succeedsAs_inEqnSet line line' fun _ ↦ .of_error _ _

end LevelsReader

/-! ### The form of an assignment line -/

/-- The blanks behind a name that make its assignment a line of another kind. -/
def Levels.TakesAssignment (name : String) (before : List Char) : Prop :=
  (name = "NOOP" ∨ name = "term") ∧ before.head? = some ' ' ∨
    (name = "DPSPINS" ∨ name = "PINS") ∧ before ≠ []

instance (name : String) (before : List Char) : Decidable (Levels.TakesAssignment name before) :=
  inferInstanceAs (Decidable (_ ∨ _))

namespace AssignmentText

variable {a : AssignmentText} {sp : Spacing}

theorem startsWith_text (a : AssignmentText) (sp : Spacing) {word : String}
    (hword : word.toList.all isWord = true) :
    Form.startsWith (a.text sp) word = Form.startsWith a.name word := by
  rw [Form.startsWith_eq_of_frontWord _ hword, (a.isNamed_text sp).frontWord_eq,
    String.ofList_toList]

/-- The line is passed over when its name starts like a firmware command. -/
theorem isSkipped_text (h : ¬(a.name = "NOOP" ∧ sp.before.head? = some ' ')) :
    LevelsReader.isSkipped (a.text sp) = Levels.isDropped a.name := by
  have hnamed := a.isNamed_text sp
  have hat : a.text sp ≠ "@" := by
    intro hline
    have hword := hnamed.frontWord_eq
    rw [hline] at hword
    exact a.name_ne hword.symm
  have hnoop : a.text sp ≠ "NOOP" := fun hline ↦
    List.cons_ne_nil _ _ ((hnamed.eq_keyword_iff (by decide)).mp hline).2.2
  have hspace : Form.startsWith (a.text sp) "NOOP " = false := by
    rw [Bool.eq_false_iff]
    exact fun hstart ↦
      h ((@Form.IsNamed.startsWith_space_iff _ "NOOP" _ _ _ (by decide) hnamed).mp hstart)
  rw [LevelsReader.isSkipped, beq_eq_false_iff_ne.mpr hat, beq_eq_false_iff_ne.mpr hnoop, hspace,
    Bool.false_or, Bool.false_or, Bool.false_or]
  refine (Levels.isDropped_eq_of_frontWord _).trans ?_
  rw [hnamed.frontWord_eq, String.ofList_toList]

/-- The line marks no section. -/
theorem section?_text (a : AssignmentText) (sp : Spacing) :
    Form.section? "LEV" (a.text sp).toList = none := by
  unfold Form.section?
  cases hafter : Form.afterKeyword? "EQSP" (a.text sp).toList with
  | none => rfl
  | some rest =>
    obtain ⟨-, -, rfl⟩ := (a.isNamed_text sp).of_afterKeyword? (by decide) hafter
    rfl

/-- The line gives no value to a spec. -/
theorem ofText_values (a : AssignmentText) (sp : Spacing) :
    ValuesLine.ofText (a.text sp) = .unplaced := by
  have hnamed := a.isNamed_text sp
  have hvalue : Form.specValue? (a.text sp).toList = none := by
    rw [Option.eq_none_iff_forall_ne_some]
    intro v hv
    obtain ⟨-, -, c, hc, hstart⟩ := Form.of_specValue? hv
    rw [hnamed.afterFrontWord_eq] at hc
    cases hc
    exact Form.not_isNumberStart_equals hstart
  unfold ValuesLine.ofText
  dsimp only
  rw [hnamed.numbered?_eq_none (by decide), hnamed.numbered?_eq_none (by decide), hvalue]

/-- The line assigns, unless blanks behind its name make it another one. -/
theorem ofText_equations (hbreak : '\n' ∉ a.raw sp) :
    EquationsLine.ofText (a.text sp) =
      (EquationsLine.taken? a.name sp.before (a.tail sp)).getD
        (.assignment a.name (trimmed a.expression)) := by
  rw [EquationsLine.ofText_of_isNamed (a.isNamed_text sp), EquationsLine.ofDefinition,
    assignment?_text hbreak]

theorem ofText_of_free (hbreak : '\n' ∉ a.raw sp)
    (hfree : ¬Levels.TakesAssignment a.name sp.before) :
    EquationsLine.ofText (a.text sp) = .assignment a.name (trimmed a.expression) := by
  have htail : a.tail sp ≠ [] := List.cons_ne_nil _ _
  have hnone : EquationsLine.taken? a.name sp.before (a.tail sp) = none :=
    EquationsLine.taken?_eq_none_iff.mpr
      ⟨fun h ↦ htail h.2.2, fun h ↦ hfree (.inr ⟨.inl h.1, h.2.1⟩),
        fun h ↦ hfree (.inr ⟨.inr h.1, h.2.1⟩), fun h ↦ hfree (.inl ⟨.inr h.1, h.2⟩),
        fun h ↦ htail h.2.2⟩
  rw [ofText_equations hbreak, hnone, Option.getD_none]

/-- The line has the same form with any blanks that leave it an assignment. -/
theorem equationsForm?_text (number : Nat) (hbreak : '\n' ∉ a.raw sp)
    (hfree : ¬Levels.TakesAssignment a.name sp.before) :
    equationsForm? ⟨number, a.text sp⟩ =
      if Form.startsWith a.name "EQSP" || Levels.isDropped a.name then none
      else some (.assignment a.name (trimmed a.expression)) := by
  have hnoop : ¬(a.name = "NOOP" ∧ sp.before.head? = some ' ') :=
    fun h ↦ hfree (.inl ⟨.inl h.1, h.2⟩)
  rw [equationsForm?, startsWith_text a sp (by decide), isSkipped_text hnoop,
    ofText_of_free hbreak hfree]

end AssignmentText

/-! ### Reading a line with other blanks -/

namespace LevelsReader

variable {r r' : LevelsReader} {a : AssignmentText} {sp sp' : Spacing} {number : Nat}

/-- An assignment line that is read is passed over, or belongs to the equation section. -/
theorem read_text_eq_ok_iff :
    r.read ⟨number, a.text sp⟩ = .ok r' ↔
      (∀ construct ∈ unsupportedConstructs, Form.startsWith a.name construct = false) ∧
        Form.startsWith a.name "EQSP" = false ∧
        (isSkipped (a.text sp) = true ∧ r' = r ∨
          isSkipped (a.text sp) = false ∧ r.part = .equations ∧
            r.placeEquations (a.text sp) (.ofText (a.text sp)) = .ok r') := by
  have hwords : ∀ construct ∈ unsupportedConstructs, construct.toList.all isWord = true := by
    decide
  have hmark : Form.startsWith (a.text sp) "EQSP" = Form.startsWith a.name "EQSP" :=
    a.startsWith_text sp (by decide)
  have hfind : unsupportedConstructs.find? (Form.startsWith (a.text sp)) =
      unsupportedConstructs.find? (Form.startsWith a.name) :=
    List.find?_congr fun construct hmem ↦ a.startsWith_text sp (hwords construct hmem)
  have hsection : r.openSection (a.text sp) = Complaint.malformedSection.about (a.text sp) := by
    unfold openSection
    dsimp only
    rw [a.section?_text sp]
  unfold read
  dsimp only
  rw [hfind, hmark, hsection, a.ofText_values sp]
  cases hconstruct : unsupportedConstructs.find? (Form.startsWith a.name) with
  | some construct =>
    have hstarts := List.find?_some hconstruct
    refine iff_of_false nofun fun h ↦ ?_
    rw [h.1 construct (List.mem_of_find?_eq_some hconstruct)] at hstarts
    cases hstarts
  | none =>
    have hnone : ∀ construct ∈ unsupportedConstructs, Form.startsWith a.name construct = false :=
      fun construct hmem ↦ Bool.eq_false_iff.mpr (List.find?_eq_none.mp hconstruct construct hmem)
    rw [and_iff_right hnone]
    dsimp only
    cases Form.startsWith a.name "EQSP" with
    | true => exact iff_of_false nofun fun h ↦ nomatch h.1
    | false =>
      rw [if_neg Bool.false_ne_true, and_iff_right rfl]
      cases isSkipped (a.text sp) with
      | true => simp [eq_comm]
      | false =>
        cases r.part <;> simp [Complaint.about, placeValues]

/-- A line with other blanks but of the same form is read with the same result. -/
theorem succeedsAs_read
    (hform : equationsForm? ⟨number, a.text sp'⟩ = equationsForm? ⟨number, a.text sp⟩) :
    SucceedsAs (r.read ⟨number, a.text sp⟩) (r.read ⟨number, a.text sp'⟩) := by
  intro r' hread
  obtain ⟨hsupported, hmark, hplaced⟩ := read_text_eq_ok_iff.mp hread
  refine read_text_eq_ok_iff.mpr ⟨hsupported, hmark, ?_⟩
  unfold equationsForm? at hform
  rw [a.startsWith_text sp (by decide), a.startsWith_text sp' (by decide), hmark, Bool.false_or,
    Bool.false_or] at hform
  rcases hplaced with ⟨hskipped, rfl⟩ | ⟨hkept, hpart, hplaced⟩
  · rw [hskipped, if_pos rfl] at hform
    split at hform
    · rename_i hskipped'
      exact .inl ⟨hskipped', rfl⟩
    · cases hform
  · rw [hkept, if_neg Bool.false_ne_true] at hform
    split at hform
    · cases hform
    · rename_i hkept'
      refine .inr ⟨Bool.eq_false_iff.mpr hkept', hpart, ?_⟩
      rw [Option.some.inj hform]
      exact succeedsAs_placeEquations _ _ _ _ hplaced

/-- A term line that can be read cannot be read with a space in front of its equals sign. -/
theorem read_term (hname : a.name = "term") (hbreak : '\n' ∉ a.raw sp)
    (hspace : sp'.before.head? = some ' ') (h : r.read ⟨number, a.text sp⟩ = .ok r') :
    r.read ⟨number, a.text sp'⟩ = .error (.misfit (a.text sp') .unsupportedTerm) := by
  have hunclaimed : ∀ sp, Levels.IsUnclaimed (Form.frontWord (a.text sp).toList) := by
    intro sp
    rw [(a.isNamed_text sp).frontWord_eq, hname]
    decide
  have htaken : ∀ gap tail, EquationsLine.taken? "term" gap tail =
      if gap.head? = some ' ' then some .unsupportedTerm else none := fun gap tail ↦ by
    simp [EquationsLine.taken?]
  have hform : EquationsLine.ofText (a.text sp') = .unsupportedTerm := by
    rw [EquationsLine.ofText_of_isNamed (a.isNamed_text sp'), hname, htaken, if_pos hspace,
      Option.getD_some]
  have hplaced : EquationsLine.ofText (a.text sp) = .unsupportedTerm ∨
      EquationsLine.ofText (a.text sp) = .assignment a.name (trimmed a.expression) := by
    rw [AssignmentText.ofText_equations hbreak, hname, htaken]
    split
    · exact .inl rfl
    · exact .inr rfl
  rw [read_of_isUnclaimed ⟨number, a.text sp⟩ (hunclaimed sp)] at h
  rw [read_of_isUnclaimed ⟨number, a.text sp'⟩ (hunclaimed sp')]
  dsimp only at h ⊢
  cases hpart : r.part with
  | preamble =>
    rw [hpart] at h
    cases h
  | values =>
    rw [hpart, a.ofText_values sp] at h
    cases h
  | equations =>
    rw [hpart] at h
    -- both forms need an equation set, so one is open
    obtain ⟨num, e, hopen, hget⟩ :
        ∃ num e, r.eqnset = some num ∧ r.levels.eqnsets.get? num = some e := by
      rcases hplaced with hplaced | hplaced
      · rw [hplaced] at h
        obtain ⟨num, e, -, hopen, hget, -⟩ := inEqnSet_eq_ok h
        exact ⟨num, e, hopen, hget⟩
      · rw [hplaced] at h
        obtain ⟨num, e, -, hopen, hget, -⟩ := inEqnSet_eq_ok h
        exact ⟨num, e, hopen, hget⟩
    rw [hform]
    change r.inEqnSet (a.text sp') (fun _ ↦ Complaint.unsupportedTerm.about (a.text sp')) = _
    unfold inEqnSet Container.require
    rw [hopen]
    dsimp only
    rw [hget]
    rfl

end LevelsReader

/-! ### Texts with other blanks -/

section Texts

variable {text text' origin : String} {front rest : List (List Char)} {a : AssignmentText}
  {sp sp' : Spacing} {levels : Levels}

/-- What an accepted text with other blanks is read as depends on the line with these blanks, as it
is read where the text is accepted. -/
theorem Levels.parse_of_respaces (h : Respaces text text' front rest a sp sp')
    (hparse : parse text origin = .ok levels) :
    ∃ r r' : LevelsReader, r.read ⟨front.length + 1, a.text sp⟩ = .ok r' ∧
      (r.read ⟨front.length + 1, a.text sp'⟩ = .ok r' → parse text' origin = .ok levels) ∧
      ∀ cause, r.read ⟨front.length + 1, a.text sp'⟩ = .error cause →
        parse text' origin = .error (.line ⟨origin, front.length + 1⟩ cause) := by
  have hlines := significantLines_of_lines h.lines_eq (a.isSignificant_text sp)
  have hlines' := significantLines_of_lines h.lines_eq' (a.isSignificant_text sp')
  rw [← AssignmentText.text] at hlines hlines'
  generalize (numberFrom 1 front).filter (fun l ↦ isSignificant l.text) = before at hlines hlines'
  generalize (numberFrom (front.length + 2) rest).filter (fun l ↦ isSignificant l.text) = after
    at hlines hlines'
  cases before with
  | nil =>
    have hheader : isHeader (a.text sp) language = false := a.isHeader_text sp language
    rw [parse_of_lines hlines] at hparse
    dsimp only at hparse
    rw [hheader] at hparse
    cases hparse
  | cons first before =>
    rw [List.cons_append] at hlines hlines'
    rw [parse_of_lines hlines] at hparse
    rw [parse_of_lines hlines']
    split at hparse
    · rename_i hheader
      obtain ⟨last, hrun, rfl⟩ := except_map_eq_ok_iff.mp hparse
      obtain ⟨r, hr, hrest⟩ := readLines_append_eq_ok_iff.mp hrun
      obtain ⟨r', hread, hafter⟩ := readLines_cons_eq_ok_iff.mp hrest
      rw [if_pos hheader, readLines_append_of_ok hr]
      refine ⟨r, r', hread, fun hread' ↦ ?_, fun cause hread' ↦ ?_⟩
      · rw [readLines_cons_of_ok hread', hafter]
        rfl
      · rw [readLines_cons_of_error hread']
        rfl
    · cases hparse

/-- A line of a text that is read as an assignment is written like one. -/
theorem exists_raw_eq_of_lines {line : List Char} {name expression : String}
    (hlines : lines text.toList = front ++ line :: rest)
    (hassigns : Form.assignment? (trim line) = some (name, expression)) :
    ∃ a sp, line = AssignmentText.raw a sp ∧ a.name = name ∧ a.expression = expression := by
  obtain ⟨a, sp, rfl⟩ := AssignmentText.exists_raw_eq hassigns
  have hbreak : '\n' ∉ a.raw sp :=
    noBreak_of_mem_lines (hlines ▸ List.mem_append_right _ List.mem_cons_self)
  have hread := AssignmentText.assignment?_text hbreak
  rw [AssignmentText.text, String.toList_ofList, hassigns] at hread
  cases hread
  exact ⟨a, sp, rfl, rfl, rfl⟩

/-- Every line of an accepted levels text that is read as an assignment is written with some blanks
around its equals sign. The text keeps its setup when these blanks change and the line keeps its
form. That form is an assignment with any blanks, but for four names: blanks behind `DPSPINS` and
`PINS` and a space behind `NOOP` and `term` make the line one of another kind. A space behind `term`
is rejected. -/
theorem Levels.parse_respaced (hparse : parse text origin = .ok levels) :
    (∀ front line rest name expression, Text.lines text.toList = front ++ line :: rest →
      Form.assignment? (trim line) = some (name, expression) →
        ∃ a sp, line = AssignmentText.raw a sp ∧ a.name = name ∧ a.expression = expression) ∧
    ∀ text' front rest a sp sp', Respaces text text' front rest a sp sp' →
      (equationsForm? ⟨front.length + 1, a.text sp'⟩ =
          equationsForm? ⟨front.length + 1, a.text sp⟩ →
        parse text' origin = .ok levels) ∧
      (¬TakesAssignment a.name sp.before → ¬TakesAssignment a.name sp'.before →
        parse text' origin = .ok levels) ∧
      (a.name = "term" → sp'.before.head? = some ' ' →
        parse text' origin = .error (.line ⟨origin, front.length + 1⟩
          (.misfit (a.text sp') .unsupportedTerm))) := by
  refine ⟨fun _ _ _ _ _ ↦ exists_raw_eq_of_lines, fun text' front rest a sp sp' h ↦ ?_⟩
  have hbreak : '\n' ∉ a.raw sp :=
    noBreak_of_mem_lines (h.lines_eq ▸ List.mem_append_right _ List.mem_cons_self)
  have hbreak' : '\n' ∉ a.raw sp' :=
    noBreak_of_mem_lines (h.lines_eq' ▸ List.mem_append_right _ List.mem_cons_self)
  obtain ⟨r, r', hread, hok, herror⟩ := parse_of_respaces h hparse
  refine ⟨fun hform ↦ ?_, fun hfree hfree' ↦ ?_, fun hname hspace ↦ ?_⟩
  · exact hok (LevelsReader.succeedsAs_read hform r' hread)
  · refine hok (LevelsReader.succeedsAs_read ?_ r' hread)
    rw [AssignmentText.equationsForm?_text _ hbreak hfree,
      AssignmentText.equationsForm?_text _ hbreak' hfree']
  · exact herror _ (LevelsReader.read_term hname hbreak hspace hread)

end Texts

/-- The lines of a levels text in front of a setting of its pins. -/
def pinSettingFront : List String :=
  ["hp93000,level,0.1", "EQSP LEV,EQN,#1", "EQNSET 1", "LEVELSET 1", "PINS A"]

/-- The setting `term=50`, without blanks. -/
def termAssignment : AssignmentText where
  lead := []
  name := "term"
  first := '5'
  rest := ['0']
  isBlank_lead := nofun
  name_ne := by decide
  isWord_name := by decide
  isBlank_first := by decide

/-- No blanks. -/
def noSpacing : Spacing :=
  ⟨[], [], nofun, nofun⟩

/-- A space on either side. -/
def singleSpacing : Spacing :=
  ⟨[' '], [' '], List.forall_mem_singleton.mpr rfl, List.forall_mem_singleton.mpr rfl⟩

/-- A tab in front. -/
def tabSpacing : Spacing :=
  ⟨['\t'], [], List.forall_mem_singleton.mpr rfl, nofun⟩

/-- A levels text with `term=50` and some blanks. -/
def termText (sp : Spacing) : String :=
  textOf (pinSettingFront ++ [String.ofList (termAssignment.raw sp)])

theorem respaces_termText {sp sp' : Spacing} (h : IsRawLine (String.ofList (termAssignment.raw sp)))
    (h' : IsRawLine (String.ofList (termAssignment.raw sp'))) :
    Respaces (termText sp) (termText sp') (pinSettingFront.map String.toList) [] termAssignment
      sp sp' := by
  refine respaces_textOf pinSettingFront [] termAssignment sp sp' ?_ h'
  rw [List.forall_mem_append, List.forall_mem_singleton]
  exact ⟨by decide, h⟩

theorem respaces_singleSpacing :
    Respaces (termText noSpacing) (termText singleSpacing) (pinSettingFront.map String.toList) []
      termAssignment noSpacing singleSpacing :=
  respaces_termText (by decide) (by decide)

theorem respaces_tabSpacing :
    Respaces (termText noSpacing) (termText tabSpacing) (pinSettingFront.map String.toList) []
      termAssignment noSpacing tabSpacing :=
  respaces_termText (by decide) (by decide)

theorem isOk_parse_termText : (Levels.parse (termText noSpacing) "a").isOk = true := by
  decide +kernel

/-- A tab in front of the equals sign changes nothing, a space is rejected. -/
theorem Levels.parse_respaced_term :
    (∃ levels, parse (termText noSpacing) "a" = .ok levels ∧
      parse (termText tabSpacing) "a" = .ok levels) ∧
    parse (termText singleSpacing) "a" =
      .error (.line ⟨"a", 6⟩ (.misfit "term = 50" .unsupportedTerm)) := by
  obtain ⟨levels, hparse⟩ := exists_eq_ok_of_isOk isOk_parse_termText
  obtain ⟨-, hrespaced⟩ := parse_respaced hparse
  obtain ⟨-, htab, -⟩ := hrespaced _ _ _ _ _ _ respaces_tabSpacing
  obtain ⟨-, -, hsingle⟩ := hrespaced _ _ _ _ _ _ respaces_singleSpacing
  exact ⟨⟨levels, hparse, htab (by decide +kernel) (by decide +kernel)⟩, hsingle rfl rfl⟩

/-- An accepted text does not keep its setup with all blanks around an equals sign. -/
theorem not_forall_parse_respaces :
    ¬∀ (text text' : String) (front rest : List (List Char)) (a : AssignmentText)
      (sp sp' : Spacing), Respaces text text' front rest a sp sp' →
      ∀ (origin : String) (levels : Levels), Levels.parse text origin = .ok levels →
        Levels.parse text' origin = .ok levels := by
  intro hall
  obtain ⟨levels, hparse⟩ := exists_eq_ok_of_isOk isOk_parse_termText
  have hsingle := hall _ _ _ _ _ _ _ respaces_singleSpacing "a" levels hparse
  have hrejected : (Levels.parse (termText singleSpacing) "a").isOk = false := by
    decide +kernel
  rw [hsingle] at hrejected
  cases hrejected

end TesterSetup
