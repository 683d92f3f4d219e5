import TesterSetup.Proofs.DeclaredNames
import TesterSetup.Proofs.LevelsPlaces
import TesterSetup.Proofs.WrittenForms

/-!
# What levels texts are read as

What holds of every levels setup that was read from a text. Settings stand in blocks of their own
kind and are of the kind that their names ask for (`EqnSet.Classified`). The equations of an
equation set are the assignments in it before its first supply block and its first level set, the
pin blocks of a level set the `PINS` lines in it, both in the order of the text (`EqnSet.MadeOf`).

`PlacedIn.madeOf` is the step: what one line makes of the equation set that is open.
`LevelsReader.made_of_run` carries it through a text.
-/

set_option autoImplicit false

namespace TesterSetup

open TesterSetup.Text

/-! ### Settings -/

/-- A setting of the kind that its name asks for: `offcurr` and `term` are literals, `protect` is a
flag that is given, all others are expressions that are neither empty nor have blanks around. -/
inductive Setting.SuitedTo (name : String) : Setting → Prop
  | literal (hname : name = "offcurr" ∨ name = "term") (text : String) :
      SuitedTo name (.literal text)
  | flag (hname : name = "protect") : SuitedTo name (.flag true)
  | expression {text : String} (hliteral : ¬(name = "offcurr" ∨ name = "term"))
      (hflag : name ≠ "protect") (hne : text ≠ "") (htrimmed : trimmed text = text) :
      SuitedTo name (.expression text)

/-- All settings of a block are those of a resource and suited to their names. -/
def SettingBlock.SetBy (isResource : String → Bool) (b : SettingBlock) : Prop :=
  ∀ e ∈ b.settings.entries, isResource e.1 = true ∧ e.2.SuitedTo e.1

/-- An expression as a line assigns it. -/
def IsAssigned (expression : String) : Prop :=
  expression ≠ "" ∧ trimmed expression = expression

theorem Setting.suitedTo_classify {name expression : String} (h : IsAssigned expression) :
    (classify name expression).SuitedTo name := by
  unfold classify
  split
  · rename_i hname
    exact .literal hname _
  · rename_i hliteral
    split
    · rename_i hname
      exact .flag hname
    · rename_i hflag
      rw [h.2]
      exact .expression hliteral hflag h.1 h.2

theorem SettingLine.suitedTo {form : EquationsLine} {name : String} {value : Setting}
    (h : SettingLine form name value)
    (hform : ∀ name expression, form = .assignment name expression → IsAssigned expression) :
    value.SuitedTo name := by
  cases h with
  | term value => exact .literal (.inr rfl) value
  | protect => exact .flag rfl
  | assignment name expression => exact Setting.suitedTo_classify (hform _ _ rfl)

namespace SettingBlock

variable {isResource : String → Bool} {b b' : SettingBlock} {name : String} {value : Setting}

theorem pins_set (h : b.set name value = .ok b') : b'.pins = b.pins := by
  rw [(of_set h).2]

theorem entries_set (h : b.set name value = .ok b') :
    b'.settings.entries = b.settings.entries ++ [(name, value)] := by
  obtain ⟨hnew, rfl⟩ := of_set h
  rw [← Bool.not_eq_true, OrderedMap.contains_iff] at hnew
  exact OrderedMap.entries_insert_of_notMem hnew value

theorem setBy_ofPins (pins : List String) : (ofPins pins).SetBy isResource :=
  List.forall_mem_nil _

theorem SetBy.set (hb : b.SetBy isResource) (hname : isResource name = true)
    (hvalue : value.SuitedTo name) (h : b.set name value = .ok b') : b'.SetBy isResource := by
  unfold SetBy
  rw [entries_set h, List.forall_mem_append, List.forall_mem_singleton]
  exact ⟨hb, hname, hvalue⟩

end SettingBlock

/-! ### What lines assign -/

namespace Text

theorem trim_ne_nil {s : List Char} (hne : s ≠ [])
    (hfirst : ∀ c, s.head? = some c → isBlank c = false) : trim s ≠ [] := by
  intro htrim
  rw [trim, dropBlanks_eq_self hfirst, dropBlanksRight, List.reverse_eq_nil_iff,
    List.dropWhile_eq_nil_iff] at htrim
  cases s with
  | nil => exact hne rfl
  | cons c rest =>
    have hblank := htrim c (List.mem_reverse.mpr List.mem_cons_self)
    rw [hfirst c rfl] at hblank
    cases hblank

theorem trimmed_trimmed (s : String) : trimmed (trimmed s) = trimmed s := by
  unfold trimmed
  rw [String.toList_ofList, trim_eq_self (hasBareEnds_trim _)]

end Text

theorem EquationsLine.of_assignment {line name expression : String}
    (h : ofText line = .assignment name expression) :
    ∃ value, Form.assignment? line.toList = some (name, value) ∧ expression = trimmed value := by
  unfold ofText at h
  dsimp only at h
  repeat' split at h
  all_goals cases h
  rename_i hform
  exact ⟨_, hform, rfl⟩

theorem EquationsLine.isAssigned {line name expression : String} (hline : HasBareEnds line.toList)
    (h : ofText line = .assignment name expression) : IsAssigned expression := by
  obtain ⟨_, hform, rfl⟩ := of_assignment h
  obtain ⟨-, -, value, -, -, rfl, -, hne, hfirst⟩ :=
    Form.exists_isNamed_of_assignment? hform hline.last
  refine ⟨fun hempty ↦ trim_ne_nil hne hfirst ?_, trimmed_trimmed _⟩
  rw [trimmed, String.toList_ofList] at hempty
  rw [← String.toList_ofList (l := trim value), hempty]
  rfl

/-! ### Equation sets -/

/-- Settings stand in blocks of their own kind, and no equation has the name of a setting. -/
structure EqnSet.Classified (e : LevelsEqnSet) : Prop where
  supplies : ∀ b ∈ e.setups.dpsblocks, b.SetBy isDpsSetting
  pins : ∀ s ∈ e.setups.levelsets.items, ∀ b ∈ s.pinblocks, b.SetBy isPinSetting
  equations : ∀ name ∈ e.equations.keys, isDpsSetting name = false ∧ isPinSetting name = false

/-- A line that starts a supply block or a level set. -/
def OpensBlocks (line : Line) : Prop :=
  (∃ pins, equationsForm? line = some (.dpsPins pins)) ∨
    ∃ digits description, equationsForm? line = some (.levelSet digits description)

/-- Among some lines an equation set has a line that starts a supply block or a level set. -/
def HasBlocks (num : Nat) : List Line → Prop :=
  OpenAfter (fun front line ↦ AtEqnSet num front ∧ OpensBlocks line) fun _ ↦ False

/-- A line gives an equation set an equation: it assigns a name that is no setting's, in that
equation set and before its first supply block and its first level set. -/
structure EquationLine (num : Nat) (front : List Line) (line : Line) (equation : String × String) :
    Prop where
  atEqnSet : AtEqnSet num front
  noBlocks : ¬HasBlocks num front
  form_eq : equationsForm? line = some (.assignment equation.1 equation.2)
  noDps : isDpsSetting equation.1 = false
  noPin : isPinSetting equation.1 = false

/-- A line gives a level set of an equation set a pin block. -/
structure PinsLine (eqnset num : Nat) (front : List Line) (line : Line) (pins : List String) :
    Prop where
  atLevelSet : AtLevelSet eqnset num front
  form_eq : equationsForm? line = some (.pins pins)

/-- The pins of the blocks of a level set, which may not be there. -/
def EqnSet.pinsOf (e : LevelsEqnSet) (num : Nat) : List (List String) :=
  (e.setups.levelsets.get? num).elim [] fun s ↦ s.pinblocks.map SettingBlock.pins

/-- An equation set is made of the lines in it. -/
structure EqnSet.MadeOf (num : Nat) (lines : List Line) (e : LevelsEqnSet) : Prop where
  classified : e.Classified
  blocks : HasBlocks num lines ↔ e.acceptsEquations = false
  equations : GivenBy (EquationLine num) lines e.equations.entries
  pins : ∀ set, GivenBy (PinsLine num set) lines (e.pinsOf set)

section EqnSets

variable {e e' : LevelsEqnSet} {levelset levelset' : Option Nat} {form : EquationsLine}
  {lines : List Line} {line : Line} {num : Nat}

theorem hasBlocks_concat_iff :
    HasBlocks num (lines ++ [line]) ↔
      AtEqnSet num lines ∧ OpensBlocks line ∨ HasBlocks num lines := by
  rw [HasBlocks, openAfter_concat_iff, and_iff_right not_false]

theorem opensBlocks_iff (hform : equationsForm? line = some form) :
    OpensBlocks line ↔ (∃ pins, form = .dpsPins pins) ∨
      ∃ digits description, form = .levelSet digits description := by
  unfold OpensBlocks
  simp only [hform, Option.some_inj]

/-- An equation set without declarations is made of no lines. -/
theorem EqnSet.madeOf_default : (default : LevelsEqnSet).MadeOf num [] where
  classified := ⟨List.forall_mem_nil _, List.forall_mem_nil _, List.forall_mem_nil _⟩
  blocks := iff_of_false not_openAfter_nil (by decide)
  equations := .nil
  pins _ := .nil

/-- Number and description are no part of what lines make. -/
theorem EqnSet.MadeOf.of_parts (h : e.MadeOf num lines) (hequations : e'.equations = e.equations)
    (hsetups : e'.setups = e.setups) : e'.MadeOf num lines := by
  obtain ⟨⟨hsupplies, hpins, hnames⟩, hblocks, hgiven, hpinlines⟩ := h
  unfold acceptsEquations pinsOf at *
  rw [← hsetups] at hsupplies hpins hblocks hpinlines
  rw [← hequations] at hnames hgiven
  exact ⟨⟨hsupplies, hpins, hnames⟩, hblocks, hgiven, hpinlines⟩

/-- A line that is not in the equation set, or has no form that adds to one, adds nothing to it. -/
theorem EqnSet.MadeOf.concat_other (h : e.MadeOf num lines)
    (hline : ∀ form, equationsForm? line = some form → AtEqnSet num lines →
      form = .heading ∨ ∃ digits description, form = .eqnset digits description)
    (hset : ∀ set, AtLevelSet num set lines → AtEqnSet num lines) :
    e.MadeOf num (lines ++ [line]) where
  classified := h.classified
  blocks := by
    rw [hasBlocks_concat_iff, or_iff_right, h.blocks]
    rintro ⟨hin, ⟨pins, hform⟩ | ⟨digits, description, hform⟩⟩
    · rcases hline _ hform hin with hother | ⟨_, _, hother⟩ <;> cases hother
    · rcases hline _ hform hin with hother | ⟨_, _, hother⟩ <;> cases hother
  equations := by
    refine h.equations.other fun equation hgives ↦ ?_
    rcases hline _ hgives.form_eq hgives.atEqnSet with hother | ⟨_, _, hother⟩ <;> cases hother
  pins set := by
    refine (h.pins set).other fun pins hgives ↦ ?_
    rcases hline _ hgives.form_eq (hset set hgives.atLevelSet) with hother | ⟨_, _, hother⟩ <;>
      cases hother

/-! ### One line -/

theorem PlacedIn.classified (h : PlacedIn e levelset form e' levelset') (he : e.Classified)
    (hform : ∀ name expression, form = .assignment name expression → IsAssigned expression) :
    e'.Classified := by
  cases h with
  | dpsPins pins =>
    refine ⟨?_, he.pins, he.equations⟩
    rw [List.forall_mem_append, List.forall_mem_singleton]
    exact ⟨he.supplies, SettingBlock.setBy_ofPins pins⟩
  | levelSet hnum hadd =>
    exact ⟨he.supplies, Container.forall_items_add he.pins (List.forall_mem_nil _) hadd,
      he.equations⟩
  | pins pins hopen hget =>
    have hs := he.pins _ (Container.mem_of_get? hget)
    refine ⟨he.supplies, Container.forall_items_replace he.pins ?_, he.equations⟩
    rw [List.forall_mem_append, List.forall_mem_singleton]
    exact ⟨hs, SettingBlock.setBy_ofPins pins⟩
  | pinSetting hline hname hdps hopen hget hblocks hset =>
    have hs := he.pins _ (Container.mem_of_get? hget)
    rw [hblocks, List.forall_mem_append, List.forall_mem_singleton] at hs
    refine ⟨he.supplies, Container.forall_items_replace he.pins ?_, he.equations⟩
    rw [List.forall_mem_append, List.forall_mem_singleton]
    exact ⟨hs.1, hs.2.set hname (hline.suitedTo hform) hset⟩
  | dpsSetting hline hname hblocks hset =>
    have hs := he.supplies
    rw [hblocks, List.forall_mem_append, List.forall_mem_singleton] at hs
    refine ⟨?_, he.pins, he.equations⟩
    rw [List.forall_mem_append, List.forall_mem_singleton]
    exact ⟨hs.1, hs.2.set hname (hline.suitedTo hform) hset⟩
  | equation hdps hpin haccepts hadd =>
    obtain ⟨-, rfl⟩ := EqnSet.of_addEquation hadd
    exact ⟨he.supplies, he.pins, OrderedMap.forall_keys_insert he.equations ⟨hdps, hpin⟩ _⟩
  | declaration name unit => exact ⟨he.supplies, he.pins, he.equations⟩

/-- An equation set takes equations until a line starts a supply block or a level set. -/
theorem PlacedIn.acceptsEquations_eq_false_iff (h : PlacedIn e levelset form e' levelset') :
    e'.acceptsEquations = false ↔ ((∃ pins, form = .dpsPins pins) ∨
      ∃ digits description, form = .levelSet digits description) ∨ e.acceptsEquations = false := by
  cases h with
  | dpsPins pins =>
    refine iff_of_true ?_ (.inl (.inl ⟨pins, rfl⟩))
    simp [EqnSet.acceptsEquations]
  | levelSet hnum hadd =>
    refine iff_of_true ?_ (.inl (.inr ⟨_, _, rfl⟩))
    simp [EqnSet.acceptsEquations, Container.isEmpty, Container.items_add hadd]
  | pins pins hopen hget =>
    simp [EqnSet.acceptsEquations, Container.isEmpty, Container.replace, Container.put]
  | pinSetting hline hname hdps hopen hget hblocks hset =>
    have hform : ¬((∃ pins, form = .dpsPins pins) ∨
        ∃ digits description, form = .levelSet digits description) := by
      rintro (⟨pins, rfl⟩ | ⟨digits, description, rfl⟩) <;> cases hline
    rw [or_iff_right hform]
    simp [EqnSet.acceptsEquations, Container.isEmpty, Container.replace, Container.put]
  | dpsSetting hline hname hblocks hset =>
    refine iff_of_true ?_ (.inr ?_)
    · simp [EqnSet.acceptsEquations]
    · simp [EqnSet.acceptsEquations, hblocks]
  | equation hdps hpin haccepts hadd =>
    obtain ⟨-, rfl⟩ := EqnSet.of_addEquation hadd
    simp [EqnSet.acceptsEquations]
  | declaration name unit => simp [EqnSet.acceptsEquations, EqnSet.declareSpec]

/-- A line adds an equation, or gives none and leaves the equations as they are. -/
theorem PlacedIn.equations_cases (h : PlacedIn e levelset form e' levelset') :
    (∃ name expression, form = .assignment name expression ∧ isDpsSetting name = false ∧
      isPinSetting name = false ∧ e.acceptsEquations = true ∧
      e'.equations.entries = e.equations.entries ++ [(name, expression)]) ∨
    (∀ name expression, form = .assignment name expression → isDpsSetting name = true ∨
      isPinSetting name = true) ∧ e'.equations = e.equations := by
  cases h with
  | dpsPins pins => exact .inr ⟨nofun, rfl⟩
  | levelSet hnum hadd => exact .inr ⟨nofun, rfl⟩
  | pins pins hopen hget => exact .inr ⟨nofun, rfl⟩
  | pinSetting hline hname hdps hopen hget hblocks hset =>
    refine .inr ⟨?_, rfl⟩
    rintro name expression rfl
    cases hline
    exact .inr hname
  | dpsSetting hline hname hblocks hset =>
    refine .inr ⟨?_, rfl⟩
    rintro name expression rfl
    cases hline
    exact .inl hname
  | equation hdps hpin haccepts hadd =>
    obtain ⟨hnew, rfl⟩ := EqnSet.of_addEquation hadd
    rw [← Bool.not_eq_true, OrderedMap.contains_iff] at hnew
    exact .inl ⟨_, _, rfl, hdps, hpin, haccepts, OrderedMap.entries_insert_of_notMem hnew _⟩
  | declaration name unit => exact .inr ⟨nofun, rfl⟩

theorem EqnSet.pinsOf_replace {set : Nat} {s : LevelSet}
    (hget : e.setups.levelsets.get? set = some s) (pinblocks : List SettingBlock) (other : Nat) :
    EqnSet.pinsOf { e with setups :=
        ⟨e.setups.levelsets.replace { s with pinblocks }, e.setups.dpsblocks⟩ } other =
      if set = other then pinblocks.map SettingBlock.pins else e.pinsOf other := by
  obtain rfl : s.num = set := Container.key_of_get? hget
  let s' : LevelSet := { s with pinblocks }
  have hget' : e.setups.levelsets.get? (Keyed.key s') = some s := hget
  unfold pinsOf
  split
  · rename_i heq
    subst heq
    exact congrArg (Option.elim · _ _) (Container.get?_replace_of_get? hget')
  · rename_i hne
    exact congrArg (Option.elim · _ _) (Container.get?_replace_of_ne (b := s') hne)

/-- A line adds a block to the level set that is open, or gives none and leaves the pins of all
blocks as they are. -/
theorem PlacedIn.pins_cases (h : PlacedIn e levelset form e' levelset') :
    (∃ pins set, form = .pins pins ∧ levelset = some set ∧
      ∀ other, e'.pinsOf other = if set = other then e.pinsOf set ++ [pins] else e.pinsOf other) ∨
    (∀ pins, form ≠ .pins pins) ∧ ∀ other, e'.pinsOf other = e.pinsOf other := by
  cases h with
  | dpsPins pins => exact .inr ⟨by simp, fun _ ↦ rfl⟩
  | levelSet hnum hadd =>
    refine .inr ⟨by simp, fun other ↦ ?_⟩
    unfold EqnSet.pinsOf
    dsimp only
    cases hget : e.setups.levelsets.get? other with
    | some s =>
      obtain ⟨s', hs', rfl⟩ := Container.keeps_add (R := Eq) hadd other s hget
      rw [hs']
    | none =>
      -- a level set that was not there has no blocks when it is added
      rw [Container.get?, Container.items_add hadd, List.find?_append, ← Container.get?, hget,
        Option.none_or, List.find?_singleton]
      split <;> rfl
  | @pins set s pins hopen hget =>
    refine .inl ⟨pins, set, rfl, hopen, fun other ↦ ?_⟩
    have hopened : e.pinsOf set = s.pinblocks.map SettingBlock.pins := by
      rw [EqnSet.pinsOf, hget]
      rfl
    rw [EqnSet.pinsOf_replace hget, hopened, List.map_append]
    rfl
  | @pinSetting _ _ _ set s front b b' hline hname hdps hopen hget hblocks hset =>
    refine .inr ⟨?_, fun other ↦ ?_⟩
    · rintro pins rfl
      cases hline
    · rw [EqnSet.pinsOf_replace hget]
      split
      · rename_i heq
        subst heq
        rw [EqnSet.pinsOf, hget, List.map_append, List.map_singleton,
          SettingBlock.pins_set hset, ← List.map_singleton, ← List.map_append, ← hblocks]
        rfl
      · rfl
  | dpsSetting hline hname hblocks hset =>
    refine .inr ⟨?_, fun _ ↦ rfl⟩
    rintro pins rfl
    cases hline
  | equation hdps hpin haccepts hadd =>
    obtain ⟨-, rfl⟩ := EqnSet.of_addEquation hadd
    exact .inr ⟨by simp, fun _ ↦ rfl⟩
  | declaration name unit => exact .inr ⟨by simp, fun _ ↦ rfl⟩

/-- What a line makes of the equation set that is open is made of the lines up to it. -/
theorem PlacedIn.madeOf (h : PlacedIn e levelset form e' levelset') (he : e.MadeOf num lines)
    (hline : equationsForm? line = some form) (hin : AtEqnSet num lines)
    (hopen : ∀ set, AtLevelSet num set lines ↔ levelset = some set)
    (hassigned : ∀ name expression, form = .assignment name expression → IsAssigned expression) :
    e'.MadeOf num (lines ++ [line]) where
  classified := h.classified he.classified hassigned
  blocks := by
    rw [hasBlocks_concat_iff, and_iff_right hin, opensBlocks_iff hline, he.blocks,
      h.acceptsEquations_eq_false_iff]
  equations := by
    refine he.equations.concat ?_
    rcases h.equations_cases with ⟨name, expression, rfl, hdps, hpin, haccepts, hentries⟩ |
      ⟨hresource, hsame⟩
    · refine .inl ⟨(name, expression), ⟨hin, fun hblocks ↦ ?_, hline, hdps, hpin⟩, hentries⟩
      rw [he.blocks.mp hblocks] at haccepts
      cases haccepts
    · refine .inr ⟨fun equation hgives ↦ ?_, by rw [hsame]⟩
      have hform : form = _ := Option.some.inj (hline.symm.trans hgives.form_eq)
      rcases hresource _ _ hform with hdps | hpin
      · rw [hgives.noDps] at hdps
        cases hdps
      · rw [hgives.noPin] at hpin
        cases hpin
  pins other := by
    refine (he.pins other).concat ?_
    rcases h.pins_cases with ⟨pins, set, rfl, hset, hpins⟩ | ⟨hform, hsame⟩
    · rw [hpins other]
      by_cases hother : set = other
      · subst hother
        rw [if_pos rfl]
        exact .inl ⟨pins, ⟨(hopen set).mpr hset, hline⟩, rfl⟩
      · rw [if_neg hother]
        refine .inr ⟨fun _ hgives ↦ hother ?_, rfl⟩
        exact Option.some.inj (hset.symm.trans ((hopen other).mp hgives.atLevelSet))
    · refine .inr ⟨fun pins hgives ↦ ?_, hsame other⟩
      exact hform pins (Option.some.inj (hline.symm.trans hgives.form_eq))

end EqnSets

/-! ### Readers -/

theorem le_maxSpecSetNum_of_readSpecSetNum {text : String} {num : Nat}
    (h : readSpecSetNum text = .ok num) : num ≤ maxSpecSetNum := by
  obtain ⟨n, -, h⟩ := except_bind_eq_ok_iff.mp h
  split at h
  · cases h
  · rename_i hle
    cases h
    exact Nat.le_of_not_lt hle

namespace LevelsReader

variable {r r' : LevelsReader} {line : Line} {lines : List Line}

/-- What a reader has read is made of the lines up to it. An equation set that is not there is made
of no lines. -/
structure Made (r : LevelsReader) (lines : List Line) : Prop where
  follows : r.Follows lines
  eqnsets : ∀ num, ((r.levels.eqnsets.get? num).getD default).MadeOf num lines
  specsets : ∀ s ∈ r.levels.specsets.items, s.num ≤ maxSpecSetNum

theorem made_start : start.Made [] where
  follows := follows_start
  eqnsets _ := EqnSet.madeOf_default
  specsets := List.forall_mem_nil _

theorem Follows.atEqnSet_of_atLevelSet (hr : r.Follows lines) {num set : Nat}
    (h : AtLevelSet num set lines) : AtEqnSet num lines := by
  rw [hr.atLevelSet] at h
  exact (hr.atEqnSet num).mpr ⟨h.1, h.2.1⟩

/-- A line of the section of values keeps the numbers of the spec sets below their bound. -/
theorem specsets_placeValues {text : String} {form : ValuesLine}
    (hr : ∀ s ∈ r.levels.specsets.items, s.num ≤ maxSpecSetNum)
    (h : r.placeValues text form = .ok r') :
    ∀ s ∈ r'.levels.specsets.items, s.num ≤ maxSpecSetNum := by
  cases form with
  | eqnset num =>
    obtain ⟨num, -, h⟩ := except_bind_eq_ok_iff.mp h
    cases h
    exact hr
  | specSet num description =>
    unfold placeValues at h
    dsimp only at h
    split at h
    · cases h
    · obtain ⟨num, hnum, h⟩ := except_bind_eq_ok_iff.mp h
      obtain ⟨specsets, hadd, h⟩ := except_bind_eq_ok_iff.mp h
      cases h
      have hle := le_maxSpecSetNum_of_readSpecSetNum (except_mapError_eq_ok_iff.mp hnum)
      exact Container.forall_items_add hr hle (except_mapError_eq_ok_iff.mp hadd)
  | value value =>
    obtain ⟨spec, -, h⟩ := except_bind_eq_ok_iff.mp h
    split at h
    · cases h
    · rename_i s hlast
      obtain ⟨specs, -, h⟩ := except_bind_eq_ok_iff.mp h
      cases h
      exact Container.forall_items_replace hr (hr s (List.mem_of_getLast? hlast))
  | unplaced => cases h

/-- A line of the equation section adds to the equation set that is open alone. -/
theorem madeOf_placeEquations {form : EquationsLine} (hr : r.Made lines)
    (hform : equationsForm? line = some form) (hpart : r.part = .equations)
    (hassigned : ∀ name expression, form = .assignment name expression → IsAssigned expression)
    (h : r.placeEquations line.text form = .ok r') (num : Nat) :
    ((r'.levels.eqnsets.get? num).getD default).MadeOf num (lines ++ [line]) := by
  have hset : ∀ set, AtLevelSet num set lines → AtEqnSet num lines :=
    fun _ ↦ hr.follows.atEqnSet_of_atLevelSet
  rcases placeEquations_cases h with ⟨rfl, rfl⟩ |
    ⟨digits, description, opened, eqnsets, rfl, -, hadd, rfl⟩ |
    ⟨opened, e, e', levelset', hopen, hget, hplaced, rfl⟩
  · refine (hr.eqnsets num).concat_other (fun form hother _ ↦ .inl ?_) hset
    exact Option.some.inj (hother.symm.trans hform)
  · have hother : ((r.levels.eqnsets.get? num).getD default).MadeOf num (lines ++ [line]) :=
      (hr.eqnsets num).concat_other
        (fun form hother _ ↦ .inr ⟨_, _, Option.some.inj (hother.symm.trans hform)⟩) hset
    dsimp only
    rw [Container.get?_add hadd]
    split
    · rename_i hkey
      obtain rfl : opened = num := hkey
      have hnew : r.levels.eqnsets.get? opened = none :=
        Container.get?_eq_none_iff.mpr (Container.key_notMem_of_add hadd)
      rw [hnew] at hother
      exact hother.of_parts rfl rfl
    · exact hother
  · obtain rfl : e'.num = opened := hplaced.num_eq.trans (Container.key_of_get? hget)
    by_cases hnum : e'.num = num
    · subst hnum
      have hin : AtEqnSet e'.num lines := (hr.follows.atEqnSet _).mpr ⟨hpart, hopen⟩
      have he : e.MadeOf e'.num lines := by
        have hmade := hr.eqnsets e'.num
        rwa [hget] at hmade
      have hreplaced : (r.levels.eqnsets.replace e').get? e'.num = some e' :=
        Container.get?_replace_of_get? hget
      dsimp only
      rw [hreplaced]
      refine hplaced.madeOf he hform hin (fun set ↦ ?_) hassigned
      rw [hr.follows.atLevelSet, and_iff_right hpart, and_iff_right hopen]
    · have hkept : (r.levels.eqnsets.replace e').get? num = r.levels.eqnsets.get? num :=
        Container.get?_replace_of_ne hnum
      dsimp only
      rw [hkept]
      refine (hr.eqnsets num).concat_other (fun _ _ hin ↦ absurd ?_ hnum) hset
      exact Option.some.inj (hopen.symm.trans ((hr.follows.atEqnSet num).mp hin).2)

/-- What one line makes. -/
theorem made_read (hr : r.Made lines) (hline : HasBareEnds line.text.toList)
    (h : r.read line = .ok r') : r'.Made (lines ++ [line]) := by
  have hfollows := follows_read hr.follows h
  have hset : ∀ num set, AtLevelSet num set lines → AtEqnSet num lines :=
    fun _ _ ↦ hr.follows.atEqnSet_of_atLevelSet
  rcases read_cases h with ⟨hmark, h⟩ | ⟨hskipped, rfl⟩ | ⟨hmark, hskipped, hpart, h⟩ |
    ⟨hmark, hskipped, hpart, h⟩
  · have hnone := IsSectionMark.equationsForm?_eq_none hmark
    have hsame := (of_openSection h).2
    refine ⟨hfollows, fun num ↦ ?_, by rw [hsame]; exact hr.specsets⟩
    rw [hsame]
    refine (hr.eqnsets num).concat_other (fun form hform ↦ ?_) (hset num)
    rw [hnone] at hform
    cases hform
  · have hnone : equationsForm? line = none := equationsForm?_of_skipped hskipped
    refine ⟨hfollows, fun num ↦ ?_, hr.specsets⟩
    refine (hr.eqnsets num).concat_other (fun form hform ↦ ?_) (hset num)
    rw [hnone] at hform
    cases hform
  · have hform := equationsForm?_of_placed hmark hskipped
    refine ⟨hfollows, madeOf_placeEquations hr hform hpart
      (fun _ _ ↦ EquationsLine.isAssigned hline) h, ?_⟩
    rw [specsets_placeEquations h]
    exact hr.specsets
  · refine ⟨hfollows, fun num ↦ ?_, specsets_placeValues hr.specsets h⟩
    rw [eqnsets_placeValues h]
    refine (hr.eqnsets num).concat_other (fun form _ hin ↦ ?_) (hset num)
    have hequations := ((hr.follows.atEqnSet num).mp hin).1
    rw [hpart] at hequations
    cases hequations

/-- What a run makes. -/
theorem made_of_run {origin : String} (hlines : ∀ line ∈ lines, HasBareEnds line.text.toList)
    (h : readLines origin read start lines = .ok r) : r.Made lines := by
  have hmade := readLines_induction_front (P := fun front r ↦ r.Made front) h made_start
    fun _ _ _ line hline hr hread ↦ made_read hr (hlines line hline) hread
  rwa [List.nil_append] at hmade

end LevelsReader

/-! ### Texts -/

/-- An equation set is read from the lines of a text: its settings are classified, its equations are
the assignments in it before its first supply block and its first level set, and each of its level
sets has the pin blocks of the lines for which it was opened last. -/
structure EqnSet.ReadFrom (lines : List Line) (e : LevelsEqnSet) : Prop where
  classified : e.Classified
  equations : GivenBy (EquationLine e.num) lines e.equations.entries
  pinblocks : ∀ s ∈ e.setups.levelsets.items,
    GivenBy (PinsLine e.num s.num) lines (s.pinblocks.map SettingBlock.pins)

theorem EqnSet.MadeOf.readFrom {e : LevelsEqnSet} {lines : List Line} (h : e.MadeOf e.num lines) :
    e.ReadFrom lines where
  classified := h.classified
  equations := h.equations
  pinblocks s hs := by
    have hget : e.setups.levelsets.get? s.num = some s := Container.get?_eq_some_iff.mpr ⟨hs, rfl⟩
    have hpins := h.pins s.num
    unfold pinsOf at hpins
    rwa [hget] at hpins

/-- What an accepted levels text is read as. Every equation set is read from the lines behind the
header, and every spec set has a number of two digits at most and names each spec once. -/
theorem Levels.contents_of_parse {text origin : String} {levels : Levels}
    (h : parse text origin = .ok levels) :
    ∃ header lines, significantLines text = header :: lines ∧
      (∀ e ∈ levels.eqnsets.items, e.ReadFrom lines) ∧
      ∀ s ∈ levels.specsets.items,
        s.num ≤ maxSpecSetNum ∧ (s.specs.items.map Spec.name).Nodup := by
  obtain ⟨lines, hlines, h⟩ := except_bind_eq_ok_iff.mp h
  obtain ⟨r, hr, h⟩ := except_bind_eq_ok_iff.mp h
  cases h
  obtain ⟨header, htext, -⟩ := afterHeader_eq_ok_iff.mp hlines
  have hmade : r.Made lines := LevelsReader.made_of_run (fun line hline ↦
    hasBareEnds_of_mem_significantLines (mem_of_afterHeader hlines line hline)) hr
  refine ⟨header, lines, htext, fun e he ↦ ?_, fun s hs ↦ ⟨hmade.specsets s hs, s.specs.nodup⟩⟩
  have hget : r.levels.eqnsets.get? e.num = some e := Container.get?_eq_some_iff.mpr ⟨he, rfl⟩
  have hfrom := hmade.eqnsets e.num
  rw [hget] at hfrom
  exact EqnSet.MadeOf.readFrom hfrom

/-- A levels text with settings of all kinds, an equation and pin blocks in two level sets. -/
def blocksText : String :=
  "hp93000,level,0.1\nEQSP LEV,EQN,#1\nEQNSET 1 \"core\"\nSPECS\nVDD [V]\nEQUATIONS\n" ++
    "VH = VDD * 0.8\nDPSPINS S\nvout = VDD\noffcurr = act\nprotect\nLEVELSET 1\nPINS A B\n" ++
    "vih = VH\nLEVELSET 2\nPINS A\nvih = VDD\nterm hiz\nEQSP LEV,SPS,#1\nEQNSET 1\nSPECSET 1\n"

theorem Levels.contents_of_parse_blocksText :
    ∃ levels, parse blocksText "a" = .ok levels ∧
      ∃ header lines, significantLines blocksText = header :: lines ∧
        (∃ e ∈ levels.eqnsets.items, e.equations.keys = ["VH"] ∧ e.ReadFrom lines) ∧
        ∃ s ∈ levels.specsets.items, s.num ≤ maxSpecSetNum := by
  obtain ⟨levels, hlevels, hparts⟩ : ∃ levels, parse blocksText "a" = .ok levels ∧
      ((levels.eqnsets.items.any fun e ↦ e.equations.keys = ["VH"]) &&
        !levels.specsets.isEmpty) = true :=
    exists_eq_ok_of_any (by decide +kernel)
  obtain ⟨header, lines, hlines, heqnsets, hspecsets⟩ := contents_of_parse hlevels
  rw [Bool.and_eq_true] at hparts
  obtain ⟨e, he, hkeys⟩ := List.any_eq_true.mp hparts.1
  obtain ⟨s, hs⟩ : ∃ s, s ∈ levels.specsets.items := by
    refine List.exists_mem_of_ne_nil _ fun hnil ↦ ?_
    rw [Container.isEmpty, hnil] at hparts
    exact absurd hparts.2 (by decide)
  exact ⟨levels, hlevels, header, lines, hlines,
    ⟨e, he, of_decide_eq_true hkeys, heqnsets e he⟩, s, hs, (hspecsets s hs).1⟩

end TesterSetup
