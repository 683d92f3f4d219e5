import TesterSetup.Proofs.DeclaredSpecs
import TesterSetup.Proofs.NamedLines

/-!
# Keywords as names of specs

In the equation sections the declaration of a spec is the last form that a line can have. A line that
is nothing but a name, with a unit or without one, declares a spec when no form before has taken the
line, unless the name is one of the `reservedWords`. The keywords that start the blocks of an equation
section are none of these. With its arguments left out, or with a unit in their place, such a keyword
is the name of a spec, and whether another form takes the line depends on the keyword and on the
blanks behind it (`Levels.TakesDeclaration`, `Timing.TakesDeclaration`).

So an equation set of an accepted text has a keyword among its specs exactly when such a line stands
in it, and a keyword without its arguments does not make a text be rejected
(`Levels.PlacesKeywords`, `Timing.PlacesKeywords`).
-/

set_option autoImplicit false

namespace TesterSetup

open TesterSetup.Text

/-! ### Forms of lines -/

section LevelsForms

variable {line keyword : String} {gap : List Char} {unit : Option String}

/-- The keywords of the equation section and the spec set section of a levels text. -/
def Levels.structuralKeywords : List String :=
  ["EQNSET", "SPECSET", "DPSPINS", "LEVELSET", "PINS", "term", "protect"]

/-- Another form takes a line that declares a keyword: the pins of a block can be a unit, a
termination is taken with the space behind its keyword, a protection has nothing behind it. -/
def Levels.TakesDeclaration (keyword : String) (gap : List Char) (unit : Option String) : Prop :=
  (keyword = "DPSPINS" ∨ keyword = "PINS") ∧ gap ≠ [] ∧ unit ≠ none ∨
    keyword = "term" ∧ gap.head? = some ' ' ∨ keyword = "protect" ∧ gap = [] ∧ unit = none

/-- A line is taken for the declaration of a keyword. -/
def Levels.DeclaresKeyword (keyword line : String) : Prop :=
  ∃ gap unit, Form.IsDeclaration line.toList keyword gap unit ∧
    ¬Levels.TakesDeclaration keyword gap unit

/-- The keyword of a line of the equation section. A termination with a value that is not supported has
no place there. -/
def EquationsLine.keyword? : EquationsLine → Option String
  | .eqnset _ _ => some "EQNSET"
  | .dpsPins _ => some "DPSPINS"
  | .levelSet _ _ => some "LEVELSET"
  | .pins _ => some "PINS"
  | .term _ => some "term"
  | .protect => some "protect"
  | _ => none

theorem EquationsLine.frontWord_of_keyword? (h : (ofText line).keyword? = some keyword) :
    Form.frontWord line.toList = keyword.toList := by
  generalize hform : ofText line = form at h
  unfold ofText at hform
  dsimp only at hform
  split at hform
  · rename_i hfound
    cases hform
    cases h
    exact Form.frontWord_of_form "EQNSET" (by decide) hfound Form.numbered?_eq_none
  split at hform
  · cases hform
    cases h
  split at hform
  · rename_i hfound
    cases hform
    cases h
    exact Form.frontWord_of_form "DPSPINS" (by decide) hfound Form.argument?_eq_none
  split at hform
  · rename_i hfound
    cases hform
    cases h
    exact Form.frontWord_of_form "LEVELSET" (by decide) hfound Form.numbered?_eq_none
  split at hform
  · rename_i hfound
    cases hform
    cases h
    exact Form.frontWord_of_form "PINS" (by decide) hfound Form.argument?_eq_none
  split at hform
  · rename_i hfound
    cases hform
    cases h
    exact Form.frontWord_of_form "term" (by decide) hfound Form.word?_eq_none
  split at hform
  · cases hform
    cases h
  split at hform
  · rename_i hline
    cases hform
    cases h
    rw [hline]
    exact Form.frontWord_of_isWord (by decide)
  split at hform
  · cases hform
    cases h
  split at hform
  · split at hform
    · cases hform
      cases h
    · cases hform
      cases h
  · cases hform
    cases h

theorem EquationsLine.not_takesDeclaration_iff (hmem : keyword ∈ Levels.structuralKeywords) :
    ¬Levels.TakesDeclaration keyword gap unit ↔ taken? keyword gap (Form.unitText unit) = none := by
  have hkeywords : ∀ k ∈ Levels.structuralKeywords, ¬(k = "SPECS" ∨ k = "EQUATIONS") := by decide
  rw [taken?_eq_none_iff, and_iff_right fun h ↦ hkeywords keyword hmem h.1, ne_eq, ne_eq,
    Form.unitText_eq_nil_iff, Levels.TakesDeclaration, or_and_right, not_or, not_or, not_or,
    and_assoc]

/-- The declaration of a keyword is taken for one unless another form takes it. -/
theorem EquationsLine.declared?_of_isDeclaration (hmem : keyword ∈ Levels.structuralKeywords)
    (h : Form.IsDeclaration line.toList keyword gap unit) :
    (ofText line).declared? = some keyword ↔ ¬Levels.TakesDeclaration keyword gap unit := by
  have hkeywords : ∀ k ∈ Levels.structuralKeywords, isReservedWord k = false := by decide
  have hdeclaration := Form.declaration?_eq_some_iff.mpr ⟨gap, h⟩
  have hdefinition : ofDefinition line = .declaration keyword (trimmed (unit.getD "")) := by
    rw [ofDefinition, (Defines.declaration hdeclaration).assignment?_eq, hdeclaration]
    dsimp only
    rw [hkeywords keyword hmem, if_neg Bool.false_ne_true]
  rw [not_takesDeclaration_iff hmem, ofText_of_isNamed h.isNamed, hdefinition]
  cases htaken : taken? keyword gap (Form.unitText unit) with
  | none => exact iff_of_true rfl rfl
  | some form =>
    refine iff_of_false (fun hdeclared ↦ ?_) nofun
    -- none of the forms that take a line is a declaration
    unfold taken? at htaken
    repeat' split at htaken
    all_goals cases htaken
    all_goals cases hdeclared

/-- A line declares a keyword by its form exactly when it is a declaration of the keyword that no other
form takes. -/
theorem EquationsLine.declared?_eq_some_iff (hmem : keyword ∈ Levels.structuralKeywords) :
    (ofText line).declared? = some keyword ↔ Levels.DeclaresKeyword keyword line := by
  constructor
  · intro hdeclared
    cases hform : ofText line with
    | declaration name u =>
      rw [hform] at hdeclared
      cases hdeclared
      obtain ⟨unit, hdefines⟩ := defines_of_declaration hform
      obtain ⟨gap, hname⟩ := Form.declaration?_eq_some_iff.mp hdefines.declaration?_eq
      exact ⟨gap, unit, hname, (declared?_of_isDeclaration hmem hname).mp (by rw [hform]; rfl)⟩
    | _ =>
      rw [hform] at hdeclared
      cases hdeclared
  · rintro ⟨gap, unit, hname, htaken⟩
    exact (declared?_of_isDeclaration hmem hname).mpr htaken

/-- A reserved word is declared by no line. -/
theorem EquationsLine.isReservedWord_of_declared? {name : String}
    (h : (ofText line).declared? = some name) : isReservedWord name = false := by
  generalize hform : ofText line = form at h
  unfold ofText at hform
  dsimp only at hform
  repeat' split at hform
  all_goals cases hform
  all_goals cases h
  exact Bool.eq_false_iff.mpr ‹_›

theorem EquationsLine.of_heading (h : ofText line = .heading) :
    line = "SPECS" ∨ line = "EQUATIONS" := by
  unfold ofText at h
  dsimp only at h
  repeat' split at h
  all_goals cases h
  assumption

/-- A line that starts with a keyword has a form of that keyword, or else it assigns or declares the
keyword or has no place. -/
theorem EquationsLine.ofText_of_frontWord (hmem : keyword ∈ Levels.structuralKeywords)
    (hfront : Form.frontWord line.toList = keyword.toList) :
    (ofText line).keyword? = some keyword ∨ (∃ x, ofText line = .assignment keyword x) ∨
      (ofText line).declared? = some keyword ∨
      ofText line = .unplaced ∨ ofText line = .unsupportedTerm := by
  have hname : ∀ {d : LineDefinition}, Defines line d → d.name = keyword := fun hdefines ↦ by
    rw [hdefines.name_eq, hfront, String.ofList_toList]
  have hword : ∀ other, (ofText line).keyword? = some other → other = keyword := fun other hother ↦
    String.toList_injective ((frontWord_of_keyword? hother).symm.trans hfront)
  cases hform : ofText line with
  | heading =>
    have hkeywords : ∀ k ∈ Levels.structuralKeywords, Form.frontWord "SPECS".toList ≠ k.toList ∧
        Form.frontWord "EQUATIONS".toList ≠ k.toList := by
      decide
    obtain ⟨hspecs, hequations⟩ := hkeywords keyword hmem
    rcases of_heading hform with rfl | rfl
    · exact absurd hfront hspecs
    · exact absurd hfront hequations
  | assignment name x =>
    obtain ⟨_, hdefines⟩ := defines_of_assignment hform
    obtain rfl : name = keyword := hname hdefines
    exact .inr (.inl ⟨x, rfl⟩)
  | declaration name u =>
    obtain ⟨_, hdefines⟩ := defines_of_declaration hform
    obtain rfl : name = keyword := hname hdefines
    exact .inr (.inr (.inl rfl))
  | unplaced => exact .inr (.inr (.inr (.inl rfl)))
  | unsupportedTerm => exact .inr (.inr (.inr (.inr rfl)))
  | _ =>
    rw [hform] at hword
    exact .inl (congrArg some (hword _ rfl))

end LevelsForms

section TimingForms

variable {line keyword : String} {gap : List Char} {unit : Option String}

/-- The keywords of the sections of a timing text that give equation sets, timing sets and spec
sets. -/
def Timing.structuralKeywords : List String :=
  ["EQNSET", "SPECSET", "TIMINGSET", "DEFINES", "PINS", "WAVETBL", "period"]

/-- Another form takes a line that declares a keyword: the ports of an equation set and the pins of a
block can be a unit. -/
def Timing.TakesDeclaration (keyword : String) (gap : List Char) (unit : Option String) : Prop :=
  (keyword = "DEFINES" ∨ keyword = "PINS") ∧ gap ≠ [] ∧ unit ≠ none

/-- A line is taken for the declaration of a keyword. -/
def Timing.DeclaresKeyword (keyword line : String) : Prop :=
  ∃ gap unit, Form.IsDeclaration line.toList keyword gap unit ∧
    ¬Timing.TakesDeclaration keyword gap unit

namespace TimingEquationsLine

/-- The keyword of a line of the equation section. -/
def keyword? : TimingEquationsLine → Option String
  | .eqnset _ _ => some "EQNSET"
  | .timingSet _ _ => some "TIMINGSET"
  | .defines _ => some "DEFINES"
  | .pins _ => some "PINS"
  | .period _ => some "period"
  | _ => none

theorem frontWord_of_keyword? (h : (ofText line).keyword? = some keyword) :
    Form.frontWord line.toList = keyword.toList := by
  generalize hform : ofText line = form at h
  unfold ofText at hform
  dsimp only at hform
  split at hform
  · rename_i hfound
    cases hform
    cases h
    exact Form.frontWord_of_form "EQNSET" (by decide) hfound Form.numbered?_eq_none
  split at hform
  · cases hform
    cases h
  split at hform
  · rename_i hfound
    cases hform
    cases h
    exact Form.frontWord_of_form "TIMINGSET" (by decide) hfound Form.numbered?_eq_none
  split at hform
  · rename_i hfound
    cases hform
    cases h
    exact Form.frontWord_of_form "DEFINES" (by decide) hfound Form.argument?_eq_none
  split at hform
  · rename_i hfound
    cases hform
    cases h
    exact Form.frontWord_of_form "PINS" (by decide) hfound Form.argument?_eq_none
  split at hform
  · rename_i hfound
    cases hform
    cases h
    have hassigned := (Form.keyed?_eq_some_iff (by decide) (by decide)).mp hfound
    rw [(Form.of_assignment? hassigned).1, String.toList_ofList]
  split at hform
  · cases hform
    cases h
  split at hform
  · split at hform
    · cases hform
      cases h
    · cases hform
      cases h
  · cases hform
    cases h

theorem not_takesDeclaration_iff (hmem : keyword ∈ Timing.structuralKeywords) :
    ¬Timing.TakesDeclaration keyword gap unit ↔ taken? keyword gap (Form.unitText unit) = none := by
  have hkeywords : ∀ k ∈ Timing.structuralKeywords, ¬(k = "SPECS" ∨ k = "EQUATIONS") := by decide
  rw [taken?_eq_none_iff, and_iff_right fun h ↦ hkeywords keyword hmem h.1, ne_eq, ne_eq,
    Form.unitText_eq_nil_iff, Timing.TakesDeclaration, or_and_right, not_or]

/-- The declaration of a keyword is taken for one unless another form takes it. -/
theorem declared?_of_isDeclaration (hmem : keyword ∈ Timing.structuralKeywords)
    (h : Form.IsDeclaration line.toList keyword gap unit) :
    (ofText line).declared? = some keyword ↔ ¬Timing.TakesDeclaration keyword gap unit := by
  have hkeywords : ∀ k ∈ Timing.structuralKeywords, isReservedWord k = false := by decide
  have hdeclaration := Form.declaration?_eq_some_iff.mpr ⟨gap, h⟩
  have hdefines := Defines.declaration hdeclaration
  have hdefinition : ofDefinition line = .declaration keyword (trimmed (unit.getD "")) := by
    rw [ofDefinition, hdefines.keyed?_eq "period" (by decide) (by decide),
      hdefines.assignment?_eq, hdeclaration]
    dsimp only
    rw [hkeywords keyword hmem, if_neg Bool.false_ne_true]
  rw [not_takesDeclaration_iff hmem, ofText_of_isNamed h.isNamed, hdefinition]
  cases htaken : taken? keyword gap (Form.unitText unit) with
  | none => exact iff_of_true rfl rfl
  | some form =>
    refine iff_of_false (fun hdeclared ↦ ?_) nofun
    -- none of the forms that take a line is a declaration
    unfold taken? at htaken
    repeat' split at htaken
    all_goals cases htaken
    all_goals cases hdeclared

/-- A line declares a keyword by its form exactly when it is a declaration of the keyword that no other
form takes. -/
theorem declared?_eq_some_iff (hmem : keyword ∈ Timing.structuralKeywords) :
    (ofText line).declared? = some keyword ↔ Timing.DeclaresKeyword keyword line := by
  constructor
  · intro hdeclared
    cases hform : ofText line with
    | declaration name u =>
      rw [hform] at hdeclared
      cases hdeclared
      obtain ⟨unit, hdefines⟩ := defines_of_declaration hform
      obtain ⟨gap, hname⟩ := Form.declaration?_eq_some_iff.mp hdefines.declaration?_eq
      exact ⟨gap, unit, hname, (declared?_of_isDeclaration hmem hname).mp (by rw [hform]; rfl)⟩
    | _ =>
      rw [hform] at hdeclared
      cases hdeclared
  · rintro ⟨gap, unit, hname, htaken⟩
    exact (declared?_of_isDeclaration hmem hname).mpr htaken

/-- A reserved word is declared by no line. -/
theorem isReservedWord_of_declared? {name : String} (h : (ofText line).declared? = some name) :
    isReservedWord name = false := by
  generalize hform : ofText line = form at h
  unfold ofText at hform
  dsimp only at hform
  repeat' split at hform
  all_goals cases hform
  all_goals cases h
  exact Bool.eq_false_iff.mpr ‹_›

theorem of_heading (h : ofText line = .heading) : line = "SPECS" ∨ line = "EQUATIONS" := by
  unfold ofText at h
  dsimp only at h
  repeat' split at h
  all_goals cases h
  assumption

/-- A line that starts with a keyword has a form of that keyword, or else it assigns or declares the
keyword or has no form at all. -/
theorem ofText_of_frontWord (hmem : keyword ∈ Timing.structuralKeywords)
    (hfront : Form.frontWord line.toList = keyword.toList) :
    (ofText line).keyword? = some keyword ∨ (∃ x, ofText line = .assignment keyword x) ∨
      (ofText line).declared? = some keyword ∨ ofText line = .unplaced := by
  have hname : ∀ {d : LineDefinition}, Defines line d → d.name = keyword := fun hdefines ↦ by
    rw [hdefines.name_eq, hfront, String.ofList_toList]
  have hword : ∀ other, (ofText line).keyword? = some other → other = keyword := fun other hother ↦
    String.toList_injective ((frontWord_of_keyword? hother).symm.trans hfront)
  cases hform : ofText line with
  | heading =>
    have hkeywords : ∀ k ∈ Timing.structuralKeywords, Form.frontWord "SPECS".toList ≠ k.toList ∧
        Form.frontWord "EQUATIONS".toList ≠ k.toList := by
      decide
    obtain ⟨hspecs, hequations⟩ := hkeywords keyword hmem
    rcases of_heading hform with rfl | rfl
    · exact absurd hfront hspecs
    · exact absurd hfront hequations
  | assignment name x =>
    obtain ⟨_, hdefines⟩ := defines_of_assignment hform
    obtain rfl : name = keyword := hname hdefines
    exact .inr (.inl ⟨x, rfl⟩)
  | declaration name u =>
    obtain ⟨_, hdefines⟩ := defines_of_declaration hform
    obtain rfl : name = keyword := hname hdefines
    exact .inr (.inr (.inl rfl))
  | unplaced => exact .inr (.inr (.inr rfl))
  | _ =>
    rw [hform] at hword
    exact .inl (congrArg some (hword _ rfl))

end TimingEquationsLine

end TimingForms

/-! ### Texts -/

/-- A line that starts with a structural keyword is neither a section mark nor passed over. -/
theorem equationsForm?_of_keyword {line : Line} {keyword : String}
    (hmem : keyword ∈ Levels.structuralKeywords)
    (hfront : Form.frontWord line.text.toList = keyword.toList) :
    equationsForm? line = some (.ofText line.text) := by
  have hkeywords : ∀ k ∈ Levels.structuralKeywords, k.toList ≠ [] ∧ k.toList ≠ "NOOP".toList ∧
      Form.startsWith k "EQSP" = false ∧ Levels.isDropped k = false := by
    decide
  obtain ⟨hne, hnoop, hmark, hkept⟩ := hkeywords keyword hmem
  refine equationsForm?_of_placed ?_ ?_
  · rw [Form.startsWith_eq_of_frontWord line.text (by decide), hfront, String.ofList_toList, hmark]
  · rw [LevelsReader.isSkipped_of_frontWord (hfront ▸ hne) (hfront ▸ hnoop), hfront,
      String.ofList_toList, hkept]

/-- A line that starts with a structural keyword is neither a section mark nor passed over. -/
theorem TimingReader.equationsForm?_of_keyword {line : Line} {keyword : String}
    (hmem : keyword ∈ Timing.structuralKeywords)
    (hfront : Form.frontWord line.text.toList = keyword.toList) :
    equationsForm? line = some (.ofText line.text) := by
  have hkeywords : ∀ k ∈ Timing.structuralKeywords, k.toList ≠ [] ∧
      Form.startsWith k "NOOP" = false ∧ Form.startsWith k "EQSP" = false ∧
      ∀ command ∈ firmwareCommands, k.toList ≠ command.toList := by
    decide
  obtain ⟨hne, hnoop, hmark, hcommands⟩ := hkeywords keyword hmem
  refine equationsForm?_of_placed ?_ (isPassedOver_of_frontWord hfront hne hnoop hcommands)
  rw [Form.startsWith_eq_of_frontWord line.text (by decide), hfront, String.ofList_toList, hmark]

section Levels

variable {text origin : String} {levels : Levels} {first : Line} {lines : List Line}

/-- In an equation section only the lines that are taken for declarations of keywords make keywords
names of specs. -/
structure Levels.PlacesKeywords (levels : Levels) (lines : List Line) : Prop where
  reserved : ∀ e ∈ levels.eqnsets.items, ∀ name ∈ reservedWords, name ∉ e.specs.keys
  declared : ∀ e ∈ levels.eqnsets.items, ∀ keyword ∈ structuralKeywords,
    (keyword ∈ e.specs.keys ↔ ∃ before line after, lines = before ++ line :: after ∧
      AtEqnSet e.num before ∧ DeclaresKeyword keyword line.text)
  placed : ∀ before line after, lines = before ++ line :: after → AtEquations before →
    ∀ keyword ∈ structuralKeywords, Form.frontWord line.text.toList = keyword.toList →
      (EquationsLine.ofText line.text).keyword? = some keyword ∨
        (∃ x, EquationsLine.ofText line.text = .assignment keyword x) ∨
        DeclaresKeyword keyword line.text

theorem Levels.placesKeywords_of_parse (hparse : parse text origin = .ok levels)
    (hlines : significantLines text = first :: lines) : levels.PlacesKeywords lines where
  reserved e he name hname hmem := by
    obtain ⟨_, line, _, -, -, hdeclared⟩ := (mem_specs_iff hparse hlines he).mp hmem
    obtain ⟨form, hform, hspec⟩ := Option.bind_eq_some_iff.mp hdeclared
    rw [← ofText_of_equationsForm? hform] at hspec
    have hfree := EquationsLine.isReservedWord_of_declared? hspec
    rw [isReservedWord, List.contains_iff_mem.mpr hname] at hfree
    cases hfree
  declared e he keyword hmem := by
    rw [mem_specs_iff hparse hlines he]
    refine exists_congr fun before ↦ exists_congr fun line ↦ exists_congr fun after ↦
      and_congr_right fun _ ↦ and_congr_right fun _ ↦ ?_
    rw [← EquationsLine.declared?_eq_some_iff hmem]
    constructor
    · intro hdeclared
      obtain ⟨form, hform, hspec⟩ := Option.bind_eq_some_iff.mp hdeclared
      rwa [← ofText_of_equationsForm? hform] at hspec
    · intro hspec
      obtain ⟨_, _, hname, -⟩ := (EquationsLine.declared?_eq_some_iff hmem).mp hspec
      rw [equationsForm?_of_keyword hmem hname.isNamed.frontWord_eq, Option.bind_some, hspec]
  placed before line after hsplit hat keyword hmem hfront := by
    have hne := ofText_ne_unplaced hparse (hlines.trans (congrArg _ hsplit)) hat
      (equationsForm?_of_keyword hmem hfront)
    rcases EquationsLine.ofText_of_frontWord hmem hfront with hown | hassigned | hdeclared | hnone
    · exact .inl hown
    · exact .inr (.inl hassigned)
    · exact .inr (.inr ((EquationsLine.declared?_eq_some_iff hmem).mp hdeclared))
    · exact absurd hnone hne

end Levels

section Timing

variable {text origin : String} {timing : Timing} {first : Line} {lines : List Line}

/-- In an equation section only the lines that are taken for declarations of keywords make keywords
names of specs. -/
structure Timing.PlacesKeywords (timing : Timing) (origin : String) (lines : List Line) : Prop where
  reserved : ∀ e ∈ timing.eqnsets.items, ∀ name ∈ reservedWords, name ∉ e.specs.keys
  declared : ∀ e ∈ timing.eqnsets.items, ∀ keyword ∈ structuralKeywords,
    (keyword ∈ e.specs.keys ↔ ∃ before line after, lines = before ++ line :: after ∧
      AtEqnSet origin e.num before ∧ DeclaresKeyword keyword line.text)
  placed : ∀ before line after, lines = before ++ line :: after → AtEquations origin before →
    ∀ keyword ∈ structuralKeywords, Form.frontWord line.text.toList = keyword.toList →
      (TimingEquationsLine.ofText line.text).keyword? = some keyword ∨
        (∃ x, TimingEquationsLine.ofText line.text = .assignment keyword x) ∨
        DeclaresKeyword keyword line.text

theorem Timing.placesKeywords_of_parse (hparse : parse text origin = .ok timing)
    (hlines : significantLines text = first :: lines) : timing.PlacesKeywords origin lines where
  reserved e he name hname hmem := by
    obtain ⟨_, line, _, -, -, hdeclared⟩ := (mem_specs_iff hparse hlines he).mp hmem
    obtain ⟨form, hform, hspec⟩ := Option.bind_eq_some_iff.mp hdeclared
    rw [← TimingReader.ofText_of_equationsForm? hform] at hspec
    have hfree := TimingEquationsLine.isReservedWord_of_declared? hspec
    rw [isReservedWord, List.contains_iff_mem.mpr hname] at hfree
    cases hfree
  declared e he keyword hmem := by
    rw [mem_specs_iff hparse hlines he]
    refine exists_congr fun before ↦ exists_congr fun line ↦ exists_congr fun after ↦
      and_congr_right fun _ ↦ and_congr_right fun _ ↦ ?_
    rw [← TimingEquationsLine.declared?_eq_some_iff hmem]
    constructor
    · intro hdeclared
      obtain ⟨form, hform, hspec⟩ := Option.bind_eq_some_iff.mp hdeclared
      rwa [← TimingReader.ofText_of_equationsForm? hform] at hspec
    · intro hspec
      obtain ⟨_, _, hname, -⟩ := (TimingEquationsLine.declared?_eq_some_iff hmem).mp hspec
      rw [TimingReader.equationsForm?_of_keyword hmem hname.isNamed.frontWord_eq, Option.bind_some,
        hspec]
  placed before line after hsplit hat keyword hmem hfront := by
    have hne := ofText_ne_unplaced hparse (hlines.trans (congrArg _ hsplit)) hat
      (TimingReader.equationsForm?_of_keyword hmem hfront)
    rcases TimingEquationsLine.ofText_of_frontWord hmem hfront with
      hown | hassigned | hdeclared | hnone
    · exact .inl hown
    · exact .inr (.inl hassigned)
    · exact .inr (.inr ((TimingEquationsLine.declared?_eq_some_iff hmem).mp hdeclared))
    · exact absurd hnone hne

end Timing

/-- In an accepted text an equation set never declares a reserved word. It declares a structural
keyword exactly when a line that declares the keyword and is taken by no other form stands where the
equation set is open. All other lines of an equation section that start with a structural keyword have a form
of that keyword or assign it. -/
theorem keyword_declarations (text origin : String) (first : Line) (lines : List Line)
    (hlines : significantLines text = first :: lines) :
    (∀ levels, Levels.parse text origin = .ok levels → levels.PlacesKeywords lines) ∧
      ∀ timing, Timing.parse text origin = .ok timing → timing.PlacesKeywords origin lines :=
  ⟨fun _ hparse ↦ Levels.placesKeywords_of_parse hparse hlines,
    fun _ hparse ↦ Timing.placesKeywords_of_parse hparse hlines⟩

/-- A levels text with a level set whose number is missing. -/
def bareLevelSetText : String :=
  "hp93000,level,0.1\nEQSP LEV,EQN,#1\nEQNSET 1\nSPECS\nVDD [V]\nLEVELSET\n"

/-- A timing text with a timing set whose number is missing. -/
def bareTimingSetText : String :=
  "hp93000,timing,0.1\nEQSP TIM,EQN,#1\nEQNSET 1\nSPECS\nT [ns]\nTIMINGSET\n"

theorem parse_bareLevelSetText :
    ∃ levels, Levels.parse bareLevelSetText "a" = .ok levels ∧
      (levels.eqnsets.items.any fun e ↦ e.specs.keys = ["VDD", "LEVELSET"]) = true :=
  exists_eq_ok_of_any (by decide +kernel)

theorem parse_bareTimingSetText :
    ∃ timing, Timing.parse bareTimingSetText "a" = .ok timing ∧
      (timing.eqnsets.items.any fun e ↦ e.specs.keys = ["T", "TIMINGSET"]) = true :=
  exists_eq_ok_of_any (by decide +kernel)

/-- In these texts lines declare `LEVELSET` and `TIMINGSET`. -/
theorem keyword_declarations_bare :
    (∃ levels e first lines, Levels.parse bareLevelSetText "a" = .ok levels ∧
      significantLines bareLevelSetText = first :: lines ∧ e ∈ levels.eqnsets.items ∧
      ∃ before line after, lines = before ++ line :: after ∧ AtEqnSet e.num before ∧
        Levels.DeclaresKeyword "LEVELSET" line.text) ∧
    ∃ timing e first lines, Timing.parse bareTimingSetText "a" = .ok timing ∧
      significantLines bareTimingSetText = first :: lines ∧ e ∈ timing.eqnsets.items ∧
      ∃ before line after, lines = before ++ line :: after ∧
        Timing.AtEqnSet "a" e.num before ∧ Timing.DeclaresKeyword "TIMINGSET" line.text := by
  constructor
  · obtain ⟨levels, hparse, hmade⟩ := parse_bareLevelSetText
    obtain ⟨e, he, hkeys⟩ := List.any_eq_true.mp hmade
    have hkeyword : "LEVELSET" ∈ e.specs.keys := by
      rw [of_decide_eq_true hkeys]
      decide
    obtain ⟨first, lines, hlines⟩ : ∃ first lines,
        significantLines bareLevelSetText = first :: lines := ⟨_, _, rfl⟩
    have hplaces := (keyword_declarations bareLevelSetText "a" first lines hlines).1 levels hparse
    exact ⟨levels, e, first, lines, hparse, hlines, he,
      (hplaces.declared e he "LEVELSET" (by decide)).mp hkeyword⟩
  · obtain ⟨timing, hparse, hmade⟩ := parse_bareTimingSetText
    obtain ⟨e, he, hkeys⟩ := List.any_eq_true.mp hmade
    have hkeyword : "TIMINGSET" ∈ e.specs.keys := by
      rw [of_decide_eq_true hkeys]
      decide
    obtain ⟨first, lines, hlines⟩ : ∃ first lines,
        significantLines bareTimingSetText = first :: lines := ⟨_, _, rfl⟩
    have hplaces := (keyword_declarations bareTimingSetText "a" first lines hlines).2 timing hparse
    exact ⟨timing, e, first, lines, hparse, hlines, he,
      (hplaces.declared e he "TIMINGSET" (by decide)).mp hkeyword⟩

/-- In either language an equation set can declare a structural keyword. -/
theorem not_forall_keywords_undeclared :
    (¬∀ (text origin : String) (levels : Levels), Levels.parse text origin = .ok levels →
      ∀ e ∈ levels.eqnsets.items, ∀ keyword ∈ Levels.structuralKeywords, keyword ∉ e.specs.keys) ∧
    ¬∀ (text origin : String) (timing : Timing), Timing.parse text origin = .ok timing →
      ∀ e ∈ timing.eqnsets.items, ∀ keyword ∈ Timing.structuralKeywords, keyword ∉ e.specs.keys := by
  constructor
  · intro hall
    obtain ⟨levels, hparse, hmade⟩ := parse_bareLevelSetText
    obtain ⟨e, he, hkeys⟩ := List.any_eq_true.mp hmade
    refine hall _ _ levels hparse e he "LEVELSET" (by decide) ?_
    rw [of_decide_eq_true hkeys]
    decide
  · intro hall
    obtain ⟨timing, hparse, hmade⟩ := parse_bareTimingSetText
    obtain ⟨e, he, hkeys⟩ := List.any_eq_true.mp hmade
    refine hall _ _ timing hparse e he "TIMINGSET" (by decide) ?_
    rw [of_decide_eq_true hkeys]
    decide

end TesterSetup