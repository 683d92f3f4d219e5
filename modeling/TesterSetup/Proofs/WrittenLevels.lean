import TesterSetup.Proofs.LevelsReading
import TesterSetup.Proofs.WrittenValues

/-!
# Written levels

The text of a levels setup in the layout of the language: the equation sets with their declarations,
equations, supply blocks and level sets, then the spec sets with their values. `Levels.Fits` says
which setups can be written so. Every line of the text is claimed by the form it was written in
(`EquationsLine.ofText`, `ValuesLine.ofText`), whatever names, texts and pins it carries: the words
that lines start with tell the forms apart, and a name that lines may start with is none of them.
-/

set_option autoImplicit false

namespace TesterSetup

open TesterSetup.Text

/-! ### Names -/

namespace Levels

/-- What claims a line before its form is looked at: section markers, unsupported constructs and
firmware commands. -/
def claimedPrefixes : List String :=
  "EQSP" :: LevelsReader.unsupportedConstructs ++ LevelsReader.firmwareCommands

theorem isWord_of_mem_claimedPrefixes :
    ∀ start ∈ claimedPrefixes, start.toList.all isWord = true := by
  decide

/-- A word that lines can start with. -/
structure IsUnclaimed (word : List Char) : Prop where
  ne_nil : word ≠ []
  ne_noop : word ≠ "NOOP".toList
  unclaimed : ∀ start ∈ claimedPrefixes, ¬start.toList <+: word

instance (word : List Char) : Decidable (IsUnclaimed word) :=
  decidable_of_iff (word ≠ [] ∧ word ≠ "NOOP".toList ∧
    ∀ start ∈ claimedPrefixes, ¬start.toList <+: word)
    ⟨fun ⟨hne, hnoop, hstart⟩ ↦ ⟨hne, hnoop, hstart⟩, fun h ↦ ⟨h.1, h.2, h.3⟩⟩

/-- A name for specs and equations: an identifier that is no keyword and starts like none of the
lines that are skipped or rejected. -/
structure IsFreeName (name : String) : Prop where
  identifier : IsIdentifier name
  notKeyword : name ∉ keywords
  unclaimed : ∀ start ∈ claimedPrefixes, Form.startsWith name start = false

instance (name : String) : Decidable (IsFreeName name) :=
  decidable_of_iff (IsIdentifier name ∧ name ∉ keywords ∧
    ∀ start ∈ claimedPrefixes, Form.startsWith name start = false)
    ⟨fun ⟨hname, hkeyword, hstart⟩ ↦ ⟨hname, hkeyword, hstart⟩, fun h ↦ ⟨h.1, h.2, h.3⟩⟩

theorem IsFreeName.isUnclaimed {name : String} (h : IsFreeName name) :
    IsUnclaimed name.toList where
  ne_nil := h.identifier.ne_nil
  ne_noop heq := h.notKeyword (String.toList_injective heq ▸ by decide)
  unclaimed start hstart hfront := by
    have hword := isWord_of_mem_claimedPrefixes start hstart
    have hstarts : Form.startsWith name start = true := by
      rw [Form.startsWith, Form.isSome_strip?_iff hword,
        Form.frontWord_of_isWord h.identifier.all_isWord]
      exact hfront
    rw [h.unclaimed start hstart] at hstarts
    cases hstarts

end Levels

namespace LevelsReader

/-- A line that starts with a word that no line is skipped or rejected for is placed by the section
that is open. -/
theorem read_of_isUnclaimed {r : LevelsReader} (line : Line)
    (h : Levels.IsUnclaimed (Form.frontWord line.text.toList)) :
    r.read line =
      match r.part with
      | .preamble => Complaint.noPlacement.about line.text
      | .equations => r.placeEquations line.text (.ofText line.text)
      | .values => r.placeValues line.text (.ofText line.text) := by
  have hstart : ∀ start ∈ Levels.claimedPrefixes, Form.startsWith line.text start = false := by
    intro start hmem
    rw [Form.startsWith, Bool.eq_false_iff, Ne,
      Form.isSome_strip?_iff (Levels.isWord_of_mem_claimedPrefixes start hmem)]
    exact h.unclaimed start hmem
  have hconstructs : unsupportedConstructs.find? (Form.startsWith line.text) = none := by
    rw [List.find?_eq_none]
    intro construct hmem
    rw [hstart construct (List.mem_cons_of_mem _ (List.mem_append_left _ hmem))]
    exact Bool.false_ne_true
  have hnoop : "NOOP".toList.all isWord = true := by decide
  have hskipped : isSkipped line.text = false := by
    have hat : line.text ≠ "@" := fun heq ↦ h.ne_nil (by rw [heq]; decide)
    have hcommands : firmwareCommands.any (Form.startsWith line.text) = false := by
      rw [List.any_eq_false]
      intro command hmem
      rw [hstart command (List.mem_cons_of_mem _ (List.mem_append_right _ hmem))]
      exact Bool.false_ne_true
    rw [isSkipped, beq_eq_false_iff_ne.mpr hat,
      beq_eq_false_iff_ne.mpr (Form.ne_of_frontWord hnoop h.ne_noop), hcommands,
      show "NOOP " = "NOOP" ++ " " from rfl, Form.startsWith_eq_false_of_frontWord hnoop h.ne_noop]
    rfl
  unfold read
  dsimp only
  rw [hconstructs]
  dsimp only
  refine (if_neg ?_).trans ((if_neg ?_).trans rfl)
  · rw [hstart "EQSP" (by decide)]
    exact Bool.false_ne_true
  · rw [hskipped]
    exact Bool.false_ne_true

end LevelsReader

/-! ### Lines -/

/-- `KEY number "description"`. -/
def numberedLine (keyword : String) (num : Nat) (description : String) : List Char :=
  keyword.toList ++ ' ' :: (Decimal.digitsOf num ++ ' ' :: inQuotes description)

/-- `KEY pin pin …`. -/
def pinsLine (keyword : String) (pins : List String) : List Char :=
  keyword.toList ++ ' ' :: [' '].intercalate (pins.map String.toList)

/-- `name` or `name [unit]`. -/
def declarationLine (name unit : String) : List Char :=
  name.toList ++ unitPart unit

/-- `name = text`. -/
def assignmentLine (name text : String) : List Char :=
  name.toList ++ ' ' :: '=' :: ' ' :: text.toList

/-- The text that a setting is given by. -/
def Setting.text : Setting → String
  | .expression text => text
  | .literal text => text
  | .flag _ => ""

/-- `term word`, `protect`, or `name = text` for any other setting. -/
def Setting.line (name : String) (s : Setting) : List Char :=
  if name = "term" then "term".toList ++ ' ' :: s.text.toList
  else if name = "protect" then "protect".toList
  else assignmentLine name s.text

/-- A block of settings: its pins and its settings, a line for each. -/
def SettingBlock.lines (keyword : String) (b : SettingBlock) : List (List Char) :=
  pinsLine keyword b.pins :: b.settings.entries.map fun e ↦ e.2.line e.1

/-- A level set with its pin blocks. -/
def LevelSet.lines (s : LevelSet) : List (List Char) :=
  numberedLine "LEVELSET" s.num s.description :: s.pinblocks.flatMap (SettingBlock.lines "PINS")

/-- An equation set: specs, equations, supply blocks and level sets in this order. -/
def LevelsEqnSet.lines (e : LevelsEqnSet) : List (List Char) :=
  [numberedLine "EQNSET" e.num e.description] ++
    ("SPECS".toList :: e.specs.entries.map fun d ↦ declarationLine d.1 d.2) ++
    ("EQUATIONS".toList :: e.equations.entries.map fun d ↦ assignmentLine d.1 d.2) ++
    e.setups.dpsblocks.flatMap (SettingBlock.lines "DPSPINS") ++
    e.setups.levelsets.items.flatMap LevelSet.lines

/-- A spec set with its values. -/
def SpecSet.lines (literal : Spec → ValueField → List Char) (s : SpecSet) : List (List Char) :=
  ("EQNSET".toList ++ ' ' :: Decimal.digitsOf s.eqnset) ::
    numberedLine "SPECSET" s.num s.description ::
    s.specs.items.map fun spec ↦ spec.line (literal spec)

namespace Levels

/-- The marker of the equation section. -/
def equationsMarker : String := "EQSP LEV,EQN,#1"

/-- The marker of the spec set section. -/
def valuesMarker : String := "EQSP LEV,SPS,#1"

/-- The lines of a setup after the header. Each number of a value has a literal of its own. -/
def lines (literal : SpecSet → Spec → ValueField → List Char) (l : Levels) : List (List Char) :=
  (equationsMarker.toList :: l.eqnsets.items.flatMap LevelsEqnSet.lines) ++
    (valuesMarker.toList :: l.specsets.items.flatMap fun s ↦ s.lines (literal s))

/-- The text of a setup. -/
def text (literal : SpecSet → Spec → ValueField → List Char) (l : Levels) : List Char :=
  joinLines (header.toList :: l.lines literal)

end Levels

/-! ### Setups that can be written -/

/-- Pins or supplies of a block: at least one, each a word. -/
@[mk_iff]
structure ArePins (pins : List String) : Prop where
  ne_nil : pins ≠ []
  words : ∀ p ∈ pins, p.toList ≠ [] ∧ ∀ c ∈ p.toList, isBlank c = false

instance (pins : List String) : Decidable (ArePins pins) :=
  decidable_of_iff (pins ≠ [] ∧ ∀ p ∈ pins, p.toList ≠ [] ∧ p.toList.all notBlank = true)
    (by simp [arePins_iff, notBlank])

/-- A setting has the form that its name gives its text. A text stands on one line, and that of
`term` is a word. -/
@[mk_iff]
structure Setting.Fits (name : String) (s : Setting) : Prop where
  classified : s = .classify name s.text
  phrase : name ≠ "protect" → IsPhrase s.text
  word : name = "term" → s.text.toList.all isWord = true

instance (name : String) (s : Setting) : Decidable (s.Fits name) :=
  decidable_of_iff _ (Setting.fits_iff name s).symm

/-- A block whose settings have names of one kind. -/
@[mk_iff]
structure SettingBlock.Fits (isSetting : String → Bool) (b : SettingBlock) : Prop where
  pins : ArePins b.pins
  names : ∀ e ∈ b.settings.entries, isSetting e.1 = true
  settings : ∀ e ∈ b.settings.entries, e.2.Fits e.1

instance (isSetting : String → Bool) (b : SettingBlock) : Decidable (b.Fits isSetting) :=
  decidable_of_iff _ (SettingBlock.fits_iff isSetting b).symm

@[mk_iff]
structure LevelSet.Fits (s : LevelSet) : Prop where
  num : s.num < widthBound 32
  description : IsDescription s.description
  pinblocks : ∀ b ∈ s.pinblocks, b.Fits isPinSetting

instance (s : LevelSet) : Decidable s.Fits :=
  decidable_of_iff _ (LevelSet.fits_iff s).symm

/-- An equation set that was built by hand and whose parts fit their lines. -/
@[mk_iff]
structure LevelsEqnSet.Fits (e : LevelsEqnSet) : Prop where
  num : e.num < widthBound 32
  description : IsDescription e.description
  specs : ∀ d ∈ e.specs.entries, Levels.IsFreeName d.1 ∧ isReservedWord d.1 = false ∧ IsUnit d.2
  equations : ∀ d ∈ e.equations.entries, Levels.IsFreeName d.1 ∧ isDpsSetting d.1 = false ∧
    isPinSetting d.1 = false ∧ IsPhrase d.2
  dpsblocks : ∀ b ∈ e.setups.dpsblocks, b.Fits isDpsSetting
  levelsets : ∀ s ∈ e.setups.levelsets.items, s.Fits
  source : e.source = none

instance (e : LevelsEqnSet) : Decidable (LevelsEqnSet.Fits e) :=
  decidable_of_iff _ (LevelsEqnSet.fits_iff e).symm

@[mk_iff]
structure SpecSet.Fits (s : SpecSet) : Prop where
  eqnset : s.eqnset < widthBound 32
  num : s.num ≤ maxSpecSetNum
  description : IsDescription s.description
  wavetable : s.wavetable = none
  check : s.check = none
  specs : ∀ spec ∈ s.specs.items, Levels.IsFreeName spec.name ∧ spec.Fits

instance (s : SpecSet) : Decidable s.Fits :=
  decidable_of_iff _ (SpecSet.fits_iff s).symm

/-- A setup whose parts fit the levels language. -/
@[mk_iff]
structure Levels.Fits (l : Levels) : Prop where
  eqnsets : ∀ e ∈ l.eqnsets.items, LevelsEqnSet.Fits e
  specsets : ∀ s ∈ l.specsets.items, s.Fits

instance (l : Levels) : Decidable l.Fits :=
  decidable_of_iff _ (Levels.fits_iff l).symm

/-- The literals that the values of a setup are written with read back to them. -/
def Levels.IsReadFrom (l : Levels) (literal : SpecSet → Spec → ValueField → List Char) : Prop :=
  ∀ s ∈ l.specsets.items, ∀ spec ∈ s.specs.items, spec.IsReadFrom (literal s spec)

/-! ### Words that lines start with -/

namespace Levels

theorem isUnclaimed_frontWord {w rest : List Char} (hw : w.all isWord = true)
    (h : IsUnclaimed w) (hrest : EndsWord rest) : IsUnclaimed (Form.frontWord (w ++ rest)) := by
  rwa [Form.frontWord_written hw hrest]

theorem IsFreeName.isUnclaimed_frontWord {name : String} {rest : List Char} (h : IsFreeName name)
    (hrest : EndsWord rest) : IsUnclaimed (Form.frontWord (name.toList ++ rest)) :=
  Levels.isUnclaimed_frontWord h.identifier.all_isWord h.isUnclaimed hrest

theorem isUnclaimed_numberedLine {keyword : String} (hkey : keyword.toList.all isWord = true)
    (h : IsUnclaimed keyword.toList) (num : Nat) (description : String) :
    IsUnclaimed (Form.frontWord (numberedLine keyword num description)) :=
  isUnclaimed_frontWord hkey h (.inr ⟨_, rfl⟩)

theorem isUnclaimed_pinsLine {keyword : String} (hkey : keyword.toList.all isWord = true)
    (h : IsUnclaimed keyword.toList) (pins : List String) :
    IsUnclaimed (Form.frontWord (pinsLine keyword pins)) :=
  isUnclaimed_frontWord hkey h (.inr ⟨_, rfl⟩)

theorem IsFreeName.isUnclaimed_assignmentLine {name : String} (h : IsFreeName name)
    (text : String) : IsUnclaimed (Form.frontWord (assignmentLine name text)) :=
  h.isUnclaimed_frontWord (.inr ⟨_, rfl⟩)

theorem IsFreeName.isUnclaimed_declarationLine {name : String} (h : IsFreeName name)
    (unit : String) : IsUnclaimed (Form.frontWord (declarationLine name unit)) := by
  refine h.isUnclaimed_frontWord ?_
  unfold unitPart
  split
  · exact .inl rfl
  · exact .inr ⟨_, rfl⟩

/-- Settings that are written as assignments have names that lines can start with. -/
theorem isFreeName_of_isSetting {name : String}
    (h : isDpsSetting name = true ∨ isPinSetting name = true) :
    name = "term" ∨ name = "protect" ∨ IsFreeName name := by
  have hall : ∀ setting ∈ dpsResources ++ pinResources,
      setting = "term" ∨ setting = "protect" ∨ IsFreeName setting := by
    decide +kernel
  refine hall name (List.mem_append.mpr ?_)
  rwa [isDpsSetting, isPinSetting, List.contains_iff_mem, List.contains_iff_mem] at h

theorem isUnclaimed_settingLine {name : String}
    (hname : isDpsSetting name = true ∨ isPinSetting name = true) (s : Setting) :
    IsUnclaimed (Form.frontWord (s.line name)) := by
  unfold Setting.line
  split
  · exact isUnclaimed_frontWord (by decide) (by decide) (.inr ⟨_, rfl⟩)
  · rename_i hterm
    split
    · decide
    · rename_i hprotect
      have hfree := (isFreeName_of_isSetting hname).resolve_left hterm
      exact (hfree.resolve_left hprotect).isUnclaimed_assignmentLine s.text

end Levels

/-! ### Lines with a keyword -/

section Keywords

variable {keyword : String} {line : List Char}

/-- A line that starts with a keyword does not start with another. -/
theorem afterKeyword?_eq_none_of_ne (hfront : Form.frontWord line = keyword.toList) :
    ∀ other ∈ Levels.keywords, other ≠ keyword → Form.afterKeyword? other line = none := by
  intro other hmem hne
  refine Form.afterKeyword?_of_frontWord (Levels.isWord_of_mem_keywords other hmem) ?_
  rw [hfront]
  exact fun heq ↦ hne (String.toList_injective heq).symm

theorem numbered?_numberedLine (keyword : String) (num : Nat) {description : String}
    (h : IsDescription description) :
    Form.numbered? keyword (numberedLine keyword num description) =
      some (String.ofList (Decimal.digitsOf num), String.ofList (inQuotes description)) :=
  Form.numbered?_written keyword num _ (hasBareEnds_inQuotes description).first
    (isLine_inQuotes h.noBreak).noBreak (.inr rfl)

theorem isLine_digitsOf (num : Nat) : IsLine (Decimal.digitsOf num) :=
  isLine_of_word (digitsOf_ne_nil num) fun _ hc ↦
    isBlank_eq_false_of_isWord (isWord_of_isAsciiDigit (isAsciiDigit_of_mem_digitsOf hc))

theorem ArePins.isLine {pins : List String} (h : ArePins pins) :
    IsLine ([' '].intercalate (pins.map String.toList)) :=
  isLine_intercalate (by simpa using h.ne_nil) (List.forall_mem_map.mpr h.words)

theorem argument?_pinsLine (keyword : String) {pins : List String} (h : ArePins pins) :
    Form.argument? keyword (pinsLine keyword pins) =
      some (String.ofList ([' '].intercalate (pins.map String.toList))) :=
  Form.argument?_written keyword h.isLine.ne_nil h.isLine.first

theorem wordsOf_pins {pins : List String} (h : ArePins pins) :
    wordsOf (String.ofList ([' '].intercalate (pins.map String.toList))) = pins := by
  rw [wordsOf, String.toList_ofList, words_intercalate (List.forall_mem_map.mpr h.words),
    List.map_map]
  exact (List.map_congr_left fun p _ ↦ String.ofList_toList).trans (List.map_id pins)

end Keywords

/-! ### Lines of the equation section -/

namespace EquationsLine

variable {keyword : String} {line : List Char}

theorem ofText_eqnset (num : Nat) {description : String} (h : IsDescription description) :
    ofText (String.ofList (numberedLine "EQNSET" num description)) =
      .eqnset (String.ofList (Decimal.digitsOf num)) (String.ofList (inQuotes description)) := by
  unfold ofText
  dsimp only
  rw [String.toList_ofList, numbered?_numberedLine "EQNSET" num h]

/-- A line with a keyword is no heading. -/
theorem not_heading (hfront : Form.frontWord line = keyword.toList)
    (hspecs : keyword ≠ "SPECS") (hequations : keyword ≠ "EQUATIONS") :
    ¬(String.ofList line = "SPECS" ∨ String.ofList line = "EQUATIONS") := by
  have hne : ∀ heading : String, heading.toList.all isWord = true → keyword ≠ heading →
      String.ofList line ≠ heading := by
    intro heading hword hother
    refine Form.ne_of_frontWord hword ?_
    rw [String.toList_ofList, hfront]
    exact fun heq ↦ hother (String.toList_injective heq)
  exact not_or.mpr ⟨hne "SPECS" (by decide) hspecs, hne "EQUATIONS" (by decide) hequations⟩

theorem ofText_dpsPins {pins : List String} (h : ArePins pins) :
    ofText (String.ofList (pinsLine "DPSPINS" pins)) = .dpsPins pins := by
  have hfront : Form.frontWord (pinsLine "DPSPINS" pins) = "DPSPINS".toList :=
    Form.frontWord_written (by decide) (.inr ⟨_, rfl⟩)
  have hnone := afterKeyword?_eq_none_of_ne hfront
  unfold ofText
  dsimp only
  rw [String.toList_ofList, Form.numbered?_eq_none (hnone "EQNSET" (by decide) (by decide)),
    argument?_pinsLine "DPSPINS" h]
  dsimp only
  rw [if_neg (not_heading hfront (by decide) (by decide)), wordsOf_pins h]

theorem ofText_levelSet (num : Nat) {description : String} (h : IsDescription description) :
    ofText (String.ofList (numberedLine "LEVELSET" num description)) =
      .levelSet (String.ofList (Decimal.digitsOf num)) (String.ofList (inQuotes description)) := by
  have hfront : Form.frontWord (numberedLine "LEVELSET" num description) = "LEVELSET".toList :=
    Form.frontWord_written (by decide) (.inr ⟨_, rfl⟩)
  have hnone := afterKeyword?_eq_none_of_ne hfront
  unfold ofText
  dsimp only
  rw [String.toList_ofList, Form.numbered?_eq_none (hnone "EQNSET" (by decide) (by decide)),
    Form.argument?_eq_none (hnone "DPSPINS" (by decide) (by decide)),
    numbered?_numberedLine "LEVELSET" num h]
  dsimp only
  rw [if_neg (not_heading hfront (by decide) (by decide))]

theorem ofText_pins {pins : List String} (h : ArePins pins) :
    ofText (String.ofList (pinsLine "PINS" pins)) = .pins pins := by
  have hfront : Form.frontWord (pinsLine "PINS" pins) = "PINS".toList :=
    Form.frontWord_written (by decide) (.inr ⟨_, rfl⟩)
  have hnone := afterKeyword?_eq_none_of_ne hfront
  unfold ofText
  dsimp only
  rw [String.toList_ofList, Form.numbered?_eq_none (hnone "EQNSET" (by decide) (by decide)),
    Form.argument?_eq_none (hnone "DPSPINS" (by decide) (by decide)),
    Form.numbered?_eq_none (hnone "LEVELSET" (by decide) (by decide)),
    argument?_pinsLine "PINS" h]
  dsimp only
  rw [if_neg (not_heading hfront (by decide) (by decide)), wordsOf_pins h]

theorem ofText_term {word : String} (hne : word ≠ "") (hword : word.toList.all isWord = true) :
    ofText (String.ofList ("term".toList ++ ' ' :: word.toList)) = .term word := by
  have hfront : Form.frontWord ("term".toList ++ ' ' :: word.toList) = "term".toList :=
    Form.frontWord_written (by decide) (.inr ⟨_, rfl⟩)
  have hnone := afterKeyword?_eq_none_of_ne hfront
  have hterm := Form.word?_written "term" (mt String.toList_eq_nil_iff.mp hne) hword
  unfold ofText
  dsimp only
  rw [String.toList_ofList, Form.numbered?_eq_none (hnone "EQNSET" (by decide) (by decide)),
    Form.argument?_eq_none (hnone "DPSPINS" (by decide) (by decide)),
    Form.numbered?_eq_none (hnone "LEVELSET" (by decide) (by decide)),
    Form.argument?_eq_none (hnone "PINS" (by decide) (by decide)), hterm]
  dsimp only
  rw [if_neg (not_heading hfront (by decide) (by decide)), String.ofList_toList]

theorem ofText_assignment {name text : String} (hname : Levels.IsFreeName name)
    (htext : IsPhrase text) :
    ofText (String.ofList (assignmentLine name text)) = .assignment name text := by
  have hdefines : Defines (String.ofList (assignmentLine name text)) (.assignment name text) :=
    .assignment (by
      rw [String.toList_ofList]
      exact Form.assignment?_written hname.identifier htext)
  rw [ofText_of_defines hdefines hname.notKeyword]
  dsimp only
  rw [trimmed_eq_self htext.toHasBareEnds]

/-- The form of the line of a setting. -/
def ofSetting (name : String) (s : Setting) : EquationsLine :=
  if name = "term" then .term s.text
  else if name = "protect" then .protect
  else .assignment name s.text

theorem ofText_setting {name : String} {s : Setting}
    (hname : isDpsSetting name = true ∨ isPinSetting name = true) (h : s.Fits name) :
    ofText (String.ofList (s.line name)) = ofSetting name s := by
  unfold Setting.line ofSetting
  split
  · rename_i hterm
    have hphrase : IsPhrase s.text := h.phrase (by rw [hterm]; decide)
    exact ofText_term hphrase.ne_empty (h.word hterm)
  · rename_i hterm
    split
    · decide
    · rename_i hprotect
      have hfree := (Levels.isFreeName_of_isSetting hname).resolve_left hterm
      exact ofText_assignment (hfree.resolve_left hprotect) (h.phrase hprotect)

theorem ofText_declaration {name unit : String} (hname : Levels.IsFreeName name)
    (hreserved : isReservedWord name = false) (hunit : IsUnit unit) :
    ofText (String.ofList (declarationLine name unit)) = .declaration name unit := by
  obtain ⟨given, hgiven, hdeclared⟩ : ∃ given : Option String, given.getD "" = unit ∧
      Form.declaration? (declarationLine name unit) = some (name, given) := by
    unfold declarationLine unitPart
    split
    · rename_i hempty
      refine ⟨none, hempty.symm, ?_⟩
      rw [List.append_nil]
      exact Form.declaration?_name hname.identifier
    · exact ⟨some unit, rfl, Form.declaration?_unit hname.identifier hunit.noBracket⟩
  have hdefines : Defines (String.ofList (declarationLine name unit)) (.declaration name given) :=
    .declaration (by rwa [String.toList_ofList])
  rw [ofText_of_defines hdefines hname.notKeyword]
  dsimp only
  rw [hreserved, if_neg Bool.false_ne_true, hgiven, trimmed_eq_self hunit.toHasBareEnds]

end EquationsLine

/-! ### Lines of the spec set section -/

namespace ValuesLine

theorem ofText_eqnset (num : Nat) :
    ofText (String.ofList ("EQNSET".toList ++ ' ' :: Decimal.digitsOf num)) =
      .eqnset (String.ofList (Decimal.digitsOf num)) := by
  have hnumbered := Form.numbered?_written "EQNSET" num [] (by simp) (by simp)
    (.inl ⟨rfl, rfl⟩)
  rw [List.append_nil] at hnumbered
  unfold ofText
  dsimp only
  rw [String.toList_ofList, hnumbered]

theorem ofText_specSet (num : Nat) {description : String} (h : IsDescription description) :
    ofText (String.ofList (numberedLine "SPECSET" num description)) =
      .specSet (String.ofList (Decimal.digitsOf num)) (String.ofList (inQuotes description)) := by
  have hfront : Form.frontWord (numberedLine "SPECSET" num description) = "SPECSET".toList :=
    Form.frontWord_written (by decide) (.inr ⟨_, rfl⟩)
  have hnone := afterKeyword?_eq_none_of_ne hfront
  unfold ofText
  dsimp only
  rw [String.toList_ofList, Form.numbered?_eq_none (hnone "EQNSET" (by decide) (by decide)),
    numbered?_numberedLine "SPECSET" num h]

/-- A value line carries the spec that it was written for. -/
theorem ofText_value {spec : Spec} (hname : Levels.IsFreeName spec.name) (h : spec.Fits)
    {literal : ValueField → List Char} (hliteral : spec.IsReadFrom literal) :
    ∃ v : Form.SpecValue, ofText (String.ofList (spec.line literal)) = .value v ∧
      v.spec = .ok spec := by
  have hvalue := Spec.specValue?_line h hliteral
  have hdefines : Defines (String.ofList (spec.line literal)) (.value _) :=
    .value (by
      rw [String.toList_ofList]
      exact hvalue)
  refine ⟨_, ?_, Spec.spec_line h hliteral⟩
  rw [ofText_of_defines hdefines]
  show String.ofList spec.name.toList ∉ Levels.keywords
  rw [String.ofList_toList]
  exact hname.notKeyword

end ValuesLine

/-! ### Lines of the text -/

/-- A line that starts with a word, so it is no comment. -/
structure StartsWithWord (l : List Char) : Prop extends IsLine l where
  frontWord_ne_nil : Form.frontWord l ≠ []

theorem StartsWithWord.isSignificant {l : List Char} (h : StartsWithWord l) :
    isSignificant (String.ofList l) = true := by
  obtain ⟨c, rest, rfl⟩ := List.exists_cons_of_ne_nil h.ne_nil
  have hc : c ≠ '#' := by
    rintro rfl
    exact h.frontWord_ne_nil (List.takeWhile_cons_of_neg (by decide))
  unfold Text.isSignificant
  rw [String.toList_ofList]
  exact bne_iff_ne.mpr hc

theorem isLine_of_isWord {w : List Char} (hne : w ≠ []) (hw : w.all isWord = true) : IsLine w :=
  isLine_of_word hne fun c hc ↦ isBlank_eq_false_of_isWord (List.all_eq_true.mp hw c hc)

theorem startsWithWord_keyword {keyword : String} (hne : keyword.toList ≠ [])
    (hkey : keyword.toList.all isWord = true) : StartsWithWord keyword.toList where
  toIsLine := isLine_of_isWord hne hkey
  frontWord_ne_nil := by rwa [Form.frontWord_of_isWord hkey]

/-- A word at the start of a line with further parts. -/
theorem startsWithWord_append {w rest : List Char} (hne : w ≠ []) (hw : w.all isWord = true)
    (hrest : IsLine rest) : StartsWithWord (w ++ ' ' :: rest) where
  toIsLine := (isLine_of_isWord hne hw).append hrest
  frontWord_ne_nil := by rwa [Form.frontWord_written hw (.inr ⟨_, rfl⟩)]

theorem startsWithWord_numberedLine {keyword : String} (hne : keyword.toList ≠ [])
    (hkey : keyword.toList.all isWord = true) (num : Nat) {description : String}
    (h : IsDescription description) : StartsWithWord (numberedLine keyword num description) :=
  startsWithWord_append hne hkey ((isLine_digitsOf num).append (isLine_inQuotes h.noBreak))

theorem startsWithWord_pinsLine {keyword : String} (hne : keyword.toList ≠ [])
    (hkey : keyword.toList.all isWord = true) {pins : List String} (h : ArePins pins) :
    StartsWithWord (pinsLine keyword pins) :=
  startsWithWord_append hne hkey h.isLine

theorem startsWithWord_assignmentLine {name text : String} (hname : IsIdentifier name)
    (htext : IsPhrase text) : StartsWithWord (assignmentLine name text) := by
  have hequals : IsLine ['='] :=
    isLine_of_word (List.cons_ne_nil _ _) (List.forall_mem_singleton.mpr (by decide))
  exact startsWithWord_append hname.ne_nil hname.all_isWord (hequals.append htext.isLine)

theorem startsWithWord_declarationLine {name unit : String} (hname : Levels.IsFreeName name)
    (hunit : IsUnit unit) : StartsWithWord (declarationLine name unit) where
  toIsLine := isLine_append_unitPart
    (isLine_of_isWord hname.identifier.ne_nil hname.identifier.all_isWord) hunit
  frontWord_ne_nil := (hname.isUnclaimed_declarationLine unit).ne_nil

theorem startsWithWord_settingLine {name : String} {s : Setting}
    (hname : isDpsSetting name = true ∨ isPinSetting name = true) (h : s.Fits name) :
    StartsWithWord (s.line name) := by
  unfold Setting.line
  split
  · rename_i hterm
    have hphrase : IsPhrase s.text := h.phrase (by rw [hterm]; decide)
    exact startsWithWord_append (by decide) (by decide) hphrase.isLine
  · rename_i hterm
    split
    · exact startsWithWord_keyword (by decide) (by decide)
    · rename_i hprotect
      have hfree := (Levels.isFreeName_of_isSetting hname).resolve_left hterm
      exact startsWithWord_assignmentLine (hfree.resolve_left hprotect).identifier
        (h.phrase hprotect)

theorem startsWithWord_blockLines {keyword : String} (hne : keyword.toList ≠ [])
    (hkey : keyword.toList.all isWord = true) {kind : String → Bool}
    (hkind : ∀ name, kind name = true → isDpsSetting name = true ∨ isPinSetting name = true)
    {b : SettingBlock} (hb : b.Fits kind) : ∀ l ∈ b.lines keyword, StartsWithWord l := by
  rw [SettingBlock.lines, List.forall_mem_cons, List.forall_mem_map]
  exact ⟨startsWithWord_pinsLine hne hkey hb.pins, fun d hd ↦
    startsWithWord_settingLine (hkind d.1 (hb.names d hd)) (hb.settings d hd)⟩

theorem startsWithWord_levelSetLines {s : LevelSet} (hs : s.Fits) :
    ∀ l ∈ s.lines, StartsWithWord l := by
  rw [LevelSet.lines, List.forall_mem_cons, List.forall_mem_flatMap]
  exact ⟨startsWithWord_numberedLine (by decide) (by decide) s.num hs.description, fun b hb ↦
    startsWithWord_blockLines (by decide) (by decide) (fun _ ↦ .inr) (hs.pinblocks b hb)⟩

theorem startsWithWord_eqnSetLines {e : LevelsEqnSet} (he : LevelsEqnSet.Fits e) :
    ∀ l ∈ LevelsEqnSet.lines e, StartsWithWord l := by
  simp only [LevelsEqnSet.lines, List.forall_mem_append, List.forall_mem_singleton,
    List.forall_mem_cons, List.forall_mem_map, List.forall_mem_flatMap]
  refine ⟨⟨⟨⟨?_, ?_, fun d hd ↦ ?_⟩, ?_, fun d hd ↦ ?_⟩, fun b hb ↦ ?_⟩, fun s hs ↦ ?_⟩
  · exact startsWithWord_numberedLine (by decide) (by decide) e.num he.description
  · exact startsWithWord_keyword (by decide) (by decide)
  · obtain ⟨hname, -, hunit⟩ := he.specs d hd
    exact startsWithWord_declarationLine hname hunit
  · exact startsWithWord_keyword (by decide) (by decide)
  · obtain ⟨hname, -, -, htext⟩ := he.equations d hd
    exact startsWithWord_assignmentLine hname.identifier htext
  · exact startsWithWord_blockLines (by decide) (by decide) (fun _ ↦ .inl) (he.dpsblocks b hb)
  · exact startsWithWord_levelSetLines (he.levelsets s hs)

theorem startsWithWord_specSetLines {s : SpecSet} (hs : s.Fits)
    {literal : Spec → ValueField → List Char}
    (hliterals : ∀ spec ∈ s.specs.items, spec.IsReadFrom (literal spec)) :
    ∀ l ∈ s.lines literal, StartsWithWord l := by
  rw [SpecSet.lines, List.forall_mem_cons, List.forall_mem_cons, List.forall_mem_map]
  refine ⟨startsWithWord_append (by decide) (by decide) (isLine_digitsOf s.eqnset),
    startsWithWord_numberedLine (by decide) (by decide) s.num hs.description, fun spec hspec ↦ ?_⟩
  obtain ⟨hname, hfits⟩ := hs.specs spec hspec
  exact {
    toIsLine := Spec.isLine_line hfits (hliterals spec hspec)
    frontWord_ne_nil := (hname.isUnclaimed_frontWord (.inr ⟨_, rfl⟩)).ne_nil }

/-- All lines of the text of a setup that fits carry something. -/
theorem Levels.startsWithWord_lines {l : Levels} (hl : l.Fits)
    {literal : SpecSet → Spec → ValueField → List Char}
    (hliterals : l.IsReadFrom literal) :
    ∀ line ∈ header.toList :: l.lines literal, StartsWithWord line := by
  have hbare : ∀ s : String, s.toList ≠ [] → s.toList.all notBlank = true → IsLine s.toList :=
    fun s hne hs ↦ isLine_of_word hne fun c hc ↦ by
      simpa [notBlank] using List.all_eq_true.mp hs c hc
  have hheader : StartsWithWord header.toList :=
    ⟨hbare header (by decide) (by decide), by decide⟩
  have hmarker : ∀ rest : String, IsLine rest.toList →
      StartsWithWord ("EQSP".toList ++ ' ' :: rest.toList) :=
    fun _ hrest ↦ startsWithWord_append (by decide) (by decide) hrest
  simp only [lines, List.forall_mem_cons, List.forall_mem_append, List.forall_mem_flatMap]
  exact ⟨hheader,
    ⟨hmarker "LEV,EQN,#1" (hbare _ (by decide) (by decide)),
      fun e he ↦ startsWithWord_eqnSetLines (hl.eqnsets e he)⟩,
    hmarker "LEV,SPS,#1" (hbare _ (by decide) (by decide)),
    fun s hs ↦ startsWithWord_specSetLines (hl.specsets s hs) (hliterals s hs)⟩

end TesterSetup
