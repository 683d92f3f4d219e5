import Mathlib.Data.List.Induction
import TesterSetup.Proofs.LevelsReading

/-!
# Open places of a levels text

A line of the equation section belongs to the equation set and the level set that are open where it
stands, and the text alone says which these are: what opened last, if no line since has closed it
(`OpenAfter`). `AtEquations`, `AtEqnSet` and `AtLevelSet` say so of the section, an equation set and
a level set. The reader keeps the same (`LevelsReader.follows_read`).

`LevelsReader.placeEquations_cases` says once what a line of the equation section does: it adds an
equation set, or it makes one change (`PlacedIn`) to the equation set that is open.
-/

set_option autoImplicit false

namespace TesterSetup

open TesterSetup.Text

/-! ### What lines open and what they give -/

section Scopes

variable {α : Type} {opens : List Line → Line → Prop} {closes : Line → Prop}
  {lines : List Line} {line : Line}

/-- A line opened something, and none of the lines after it closes it. Whether a line opens
something may depend on the lines before it. -/
def OpenAfter (opens : List Line → Line → Prop) (closes : Line → Prop) (lines : List Line) : Prop :=
  ∃ front opening between, lines = front ++ opening :: between ∧ opens front opening ∧
    ∀ later ∈ between, ¬closes later

theorem not_openAfter_nil : ¬OpenAfter opens closes [] := by
  rintro ⟨front, opening, between, h, -⟩
  simp at h

theorem openAfter_concat_iff :
    OpenAfter opens closes (lines ++ [line]) ↔
      opens lines line ∨ ¬closes line ∧ OpenAfter opens closes lines := by
  constructor
  · rintro ⟨front, opening, between, hsplit, hopens, hbetween⟩
    rcases between.eq_nil_or_concat with rfl | ⟨others, last, rfl⟩
    · obtain ⟨rfl, hlast⟩ := List.append_inj' hsplit rfl
      cases hlast
      exact .inl hopens
    · rw [List.concat_eq_append, ← List.cons_append, ← List.append_assoc] at hsplit
      obtain ⟨hlines, hlast⟩ := List.append_inj' hsplit rfl
      cases hlast
      rw [List.concat_eq_append, List.forall_mem_append, List.forall_mem_singleton] at hbetween
      exact .inr ⟨hbetween.2, front, opening, others, hlines, hopens, hbetween.1⟩
  · rintro (hopens | ⟨hline, front, opening, between, rfl, hopens, hbetween⟩)
    · exact ⟨lines, line, [], rfl, hopens, List.forall_mem_nil _⟩
    · refine ⟨front, opening, between ++ [line], by simp, hopens, ?_⟩
      rw [List.forall_mem_append, List.forall_mem_singleton]
      exact ⟨hbetween, hline⟩

/-- What some lines give, one after the other. What a line gives may depend on the lines before
it. -/
inductive GivenBy (gives : List Line → Line → α → Prop) : List Line → List α → Prop
  | nil : GivenBy gives [] []
  | given {front line all a} : GivenBy gives front all → gives front line a →
      GivenBy gives (front ++ [line]) (all ++ [a])
  | other {front line all} : GivenBy gives front all → (∀ a, ¬gives front line a) →
      GivenBy gives (front ++ [line]) all

/-- What one more line gives. -/
theorem GivenBy.concat {gives : List Line → Line → α → Prop} {all all' : List α}
    (h : GivenBy gives lines all)
    (hline : (∃ a, gives lines line a ∧ all' = all ++ [a]) ∨
      (∀ a, ¬gives lines line a) ∧ all' = all) : GivenBy gives (lines ++ [line]) all' := by
  rcases hline with ⟨a, ha, rfl⟩ | ⟨hnone, rfl⟩
  · exact h.given ha
  · exact h.other hnone

end Scopes

/-! ### Lines of the equation section -/

/-- A line that marks the start of a section. -/
def IsSectionMark (line : Line) : Prop :=
  Form.startsWith line.text "EQSP" = true

/-- The form that a line has in the equation section. Section marks and lines that are passed over
have none. -/
def equationsForm? (line : Line) : Option EquationsLine :=
  if Form.startsWith line.text "EQSP" || LevelsReader.isSkipped line.text then none
  else some (.ofText line.text)

/-- A line that opens an equation set. -/
def OpensEqnSet (line : Line) (num : Nat) : Prop :=
  ∃ digits description, equationsForm? line = some (.eqnset digits description) ∧
    readSetNum digits = .ok num

/-- A line that opens a level set. -/
def OpensLevelSet (line : Line) (num : Nat) : Prop :=
  ∃ digits description, equationsForm? line = some (.levelSet digits description) ∧
    readSetNum digits = .ok num

/-- After some lines the equation section is open. -/
def AtEquations : List Line → Prop :=
  OpenAfter (fun _ line ↦ Form.section? "LEV" line.text.toList = some "EQN") IsSectionMark

/-- After some lines an equation set is open: it was opened in the equation section, and neither a
section nor another equation set has started since. -/
def AtEqnSet (num : Nat) : List Line → Prop :=
  OpenAfter (fun front line ↦ AtEquations front ∧ OpensEqnSet line num)
    fun line ↦ IsSectionMark line ∨ ∃ other, OpensEqnSet line other

/-- After some lines a level set is open: it was opened in its equation set, and neither a section
nor another equation set nor another level set has started since. -/
def AtLevelSet (eqnset num : Nat) : List Line → Prop :=
  OpenAfter (fun front line ↦ AtEqnSet eqnset front ∧ OpensLevelSet line num)
    fun line ↦ IsSectionMark line ∨ (∃ other, OpensEqnSet line other) ∨
      ∃ other, OpensLevelSet line other

section Forms

variable {line : Line} {num other : Nat}

theorem equationsForm?_of_placed (hmark : Form.startsWith line.text "EQSP" = false)
    (hskipped : LevelsReader.isSkipped line.text = false) :
    equationsForm? line = some (.ofText line.text) := by
  rw [equationsForm?, hmark, hskipped]
  rfl

theorem equationsForm?_of_skipped (h : LevelsReader.isSkipped line.text = true) :
    equationsForm? line = none := by
  rw [equationsForm?, h, Bool.or_true]
  rfl

theorem IsSectionMark.equationsForm?_eq_none (h : IsSectionMark line) :
    equationsForm? line = none := by
  unfold IsSectionMark at h
  rw [equationsForm?, h]
  rfl

theorem isSectionMark_of_section? {language name : String}
    (h : Form.section? language line.text.toList = some name) : IsSectionMark line :=
  Form.startsWith_of_section? h

theorem not_opensEqnSet_of_none (h : equationsForm? line = none) : ¬OpensEqnSet line num := by
  rintro ⟨digits, description, hform, -⟩
  rw [h] at hform
  cases hform

theorem not_opensLevelSet_of_none (h : equationsForm? line = none) : ¬OpensLevelSet line num := by
  rintro ⟨digits, description, hform, -⟩
  rw [h] at hform
  cases hform

theorem opensEqnSet_iff {digits description : String}
    (h : equationsForm? line = some (.eqnset digits description))
    (hnum : readSetNum digits = .ok num) : OpensEqnSet line other ↔ num = other := by
  constructor
  · rintro ⟨digits', description', hform, hother⟩
    rw [h] at hform
    cases hform
    rw [hnum] at hother
    exact Except.ok.inj hother
  · rintro rfl
    exact ⟨digits, description, h, hnum⟩

theorem opensLevelSet_iff {digits description : String}
    (h : equationsForm? line = some (.levelSet digits description))
    (hnum : readSetNum digits = .ok num) : OpensLevelSet line other ↔ num = other := by
  constructor
  · rintro ⟨digits', description', hform, hother⟩
    rw [h] at hform
    cases hform
    rw [hnum] at hother
    exact Except.ok.inj hother
  · rintro rfl
    exact ⟨digits, description, h, hnum⟩

end Forms

/-! ### What a line does to the equation set that is open -/

/-- A line that sets something in the block that is open, with what it sets. -/
inductive SettingLine : EquationsLine → String → Setting → Prop
  | term (value : String) : SettingLine (.term value) "term" (.literal value)
  | protect : SettingLine .protect "protect" (.flag true)
  | assignment (name expression : String) :
      SettingLine (.assignment name expression) name (.classify name expression)

/-- What a line makes of the equation set that is open, and the level set that is open after it. -/
inductive PlacedIn (e : LevelsEqnSet) (levelset : Option Nat) :
    EquationsLine → LevelsEqnSet → Option Nat → Prop
  | dpsPins (pins : List String) :
      PlacedIn e levelset (.dpsPins pins)
        { e with setups := ⟨e.setups.levelsets, e.setups.dpsblocks ++ [.ofPins pins]⟩ } levelset
  | levelSet {digits description num levelsets} (hnum : readSetNum digits = .ok num)
      (hadd : e.setups.levelsets.add (.ofNum num (unquote description)) = .ok levelsets) :
      PlacedIn e levelset (.levelSet digits description)
        { e with setups := ⟨levelsets, e.setups.dpsblocks⟩ } (some num)
  | pins {num s} (pins : List String) (hopen : levelset = some num)
      (hget : e.setups.levelsets.get? num = some s) :
      PlacedIn e levelset (.pins pins)
        { e with setups :=
            ⟨e.setups.levelsets.replace { s with pinblocks := s.pinblocks ++ [.ofPins pins] },
              e.setups.dpsblocks⟩ }
        levelset
  | pinSetting {form name value num s front b b'} (hline : SettingLine form name value)
      (hname : isPinSetting name = true) (hdps : isDpsSetting name = false)
      (hopen : levelset = some num) (hget : e.setups.levelsets.get? num = some s)
      (hblocks : s.pinblocks = front ++ [b]) (hset : b.set name value = .ok b') :
      PlacedIn e levelset form
        { e with setups :=
            ⟨e.setups.levelsets.replace { s with pinblocks := front ++ [b'] },
              e.setups.dpsblocks⟩ }
        levelset
  | dpsSetting {form name value front b b'} (hline : SettingLine form name value)
      (hname : isDpsSetting name = true) (hblocks : e.setups.dpsblocks = front ++ [b])
      (hset : b.set name value = .ok b') :
      PlacedIn e levelset form
        { e with setups := ⟨e.setups.levelsets, front ++ [b']⟩ } levelset
  | equation {name expression e'} (hdps : isDpsSetting name = false)
      (hpin : isPinSetting name = false) (haccepts : e.acceptsEquations = true)
      (hadd : e.addEquation name expression = .ok e') :
      PlacedIn e levelset (.assignment name expression) e' levelset
  | declaration (name unit : String) :
      PlacedIn e levelset (.declaration name unit) (e.declareSpec name unit) levelset

namespace LevelsReader

variable {r r' : LevelsReader} {line : String}

theorem inEqnSet_eq_ok {f : LevelsEqnSet → LineResult LevelsEqnSet}
    (h : r.inEqnSet line f = .ok r') :
    ∃ num e e', r.eqnset = some num ∧ r.levels.eqnsets.get? num = some e ∧ f e = .ok e' ∧
      r' = { r with levels := { r.levels with eqnsets := r.levels.eqnsets.replace e' } } := by
  unfold inEqnSet at h
  split at h
  · cases h
  · rename_i num hnum
    obtain ⟨e, he, h⟩ := except_bind_eq_ok_iff.mp h
    obtain ⟨e', he', h⟩ := except_bind_eq_ok_iff.mp h
    cases h
    exact ⟨num, e, e', hnum, Container.get?_of_require (except_mapError_eq_ok_iff.mp he), he', rfl⟩

theorem inLevelSet_eq_ok {f : LevelSet → LineResult LevelSet} {e e' : LevelsEqnSet}
    (h : r.inLevelSet line f e = .ok e') :
    ∃ num s s', r.levelset = some num ∧ e.setups.levelsets.get? num = some s ∧ f s = .ok s' ∧
      e' = { e with setups := { e.setups with levelsets := e.setups.levelsets.replace s' } } := by
  unfold inLevelSet at h
  split at h
  · cases h
  · rename_i num hnum
    obtain ⟨s, hs, h⟩ := except_bind_eq_ok_iff.mp h
    obtain ⟨s', hs', h⟩ := except_bind_eq_ok_iff.mp h
    cases h
    exact ⟨num, s, s', hnum, Container.get?_of_require (except_mapError_eq_ok_iff.mp hs), hs', rfl⟩

/-- A setting line for pins changes the last block of the level set that is open. -/
theorem placedIn_of_inPinBlock {form : EquationsLine} {name : String} {value : Setting}
    {e e' : LevelsEqnSet} (hline : SettingLine form name value) (hname : isPinSetting name = true)
    (hdps : isDpsSetting name = false)
    (h : r.inPinBlock line (fun b ↦ ofModel (b.set name value)) e = .ok e') :
    PlacedIn e r.levelset form e' r.levelset := by
  obtain ⟨num, s, s', hopen, hget, hs, rfl⟩ := inLevelSet_eq_ok h
  obtain ⟨blocks, hblocks, hs⟩ := except_bind_eq_ok_iff.mp hs
  cases hs
  obtain ⟨front, b, b', hfront, hset, rfl⟩ := updateLast_eq_ok hblocks
  exact .pinSetting hline hname hdps hopen hget hfront (except_mapError_eq_ok_iff.mp hset)

/-- A setting line for supplies changes the last supply block. -/
theorem placedIn_of_inDpsBlock {form : EquationsLine} {missing : Complaint} {name : String}
    {value : Setting} {levelset : Option Nat} {e e' : LevelsEqnSet}
    (hline : SettingLine form name value) (hname : isDpsSetting name = true)
    (h : inDpsBlock line missing (fun b ↦ ofModel (b.set name value)) e = .ok e') :
    PlacedIn e levelset form e' levelset := by
  obtain ⟨blocks, hblocks, h⟩ := except_bind_eq_ok_iff.mp h
  cases h
  obtain ⟨front, b, b', hfront, hset, rfl⟩ := updateLast_eq_ok hblocks
  exact .dpsSetting hline hname hfront (except_mapError_eq_ok_iff.mp hset)

theorem placedIn_of_assign {name expression : String} {e e' : LevelsEqnSet}
    (h : r.assign line name expression e = .ok e') :
    PlacedIn e r.levelset (.assignment name expression) e' r.levelset := by
  unfold assign at h
  dsimp only at h
  by_cases hdps : isDpsSetting name = true
  · rw [if_pos hdps] at h
    exact placedIn_of_inDpsBlock (.assignment name expression) hdps h
  · rw [if_neg hdps] at h
    have hdps' := Bool.eq_false_iff.mpr hdps
    by_cases hpin : isPinSetting name = true
    · rw [if_pos hpin] at h
      exact placedIn_of_inPinBlock (.assignment name expression) hpin hdps' h
    · rw [if_neg hpin] at h
      split at h
      · rename_i haccepts
        exact .equation hdps' (Bool.eq_false_iff.mpr hpin) haccepts (except_mapError_eq_ok_iff.mp h)
      · cases h

/-- A line of the equation section is a heading, adds an equation set and opens it, or changes the
equation set that is open. -/
theorem placeEquations_cases {form : EquationsLine} (h : r.placeEquations line form = .ok r') :
    (form = .heading ∧ r' = r) ∨
    (∃ digits description num eqnsets, form = .eqnset digits description ∧
      readSetNum digits = .ok num ∧
      r.levels.eqnsets.add (.ofNum num (unquote description)) = .ok eqnsets ∧
      r' = { r with eqnset := some num, levelset := none, levels := { r.levels with eqnsets } }) ∨
    ∃ num e e' levelset, r.eqnset = some num ∧ r.levels.eqnsets.get? num = some e ∧
      PlacedIn e r.levelset form e' levelset ∧
      r' = { r with levelset,
                    levels := { r.levels with eqnsets := r.levels.eqnsets.replace e' } } := by
  cases form with
  | eqnset digits description =>
    obtain ⟨num, hnum, h⟩ := except_bind_eq_ok_iff.mp h
    obtain ⟨eqnsets, hadd, h⟩ := except_bind_eq_ok_iff.mp h
    cases h
    exact .inr (.inl ⟨digits, description, num, eqnsets, rfl, except_mapError_eq_ok_iff.mp hnum,
      except_mapError_eq_ok_iff.mp hadd, rfl⟩)
  | heading =>
    cases h
    exact .inl ⟨rfl, rfl⟩
  | dpsPins pins =>
    obtain ⟨num, e, e', hopen, hget, he, rfl⟩ := inEqnSet_eq_ok h
    cases he
    exact .inr (.inr ⟨num, e, _, r.levelset, hopen, hget, .dpsPins pins, rfl⟩)
  | levelSet digits description =>
    unfold placeEquations at h
    dsimp only at h
    split at h
    · cases h
    · obtain ⟨set, hset, h⟩ := except_bind_eq_ok_iff.mp h
      obtain ⟨opened, hopened, h⟩ := except_bind_eq_ok_iff.mp h
      cases h
      obtain ⟨num, e, e', hopen, hget, he, rfl⟩ := inEqnSet_eq_ok hopened
      obtain ⟨levelsets, hadd, he⟩ := except_bind_eq_ok_iff.mp he
      cases he
      exact .inr (.inr ⟨num, e, _, some set, hopen, hget,
        .levelSet (except_mapError_eq_ok_iff.mp hset) (except_mapError_eq_ok_iff.mp hadd), rfl⟩)
  | pins pins =>
    obtain ⟨num, e, e', hopen, hget, he, rfl⟩ := inEqnSet_eq_ok h
    obtain ⟨set, s, s', hset, hs, hs', rfl⟩ := inLevelSet_eq_ok he
    cases hs'
    exact .inr (.inr ⟨num, e, _, r.levelset, hopen, hget, .pins pins hset hs, rfl⟩)
  | term value =>
    obtain ⟨num, e, e', hopen, hget, he, rfl⟩ := inEqnSet_eq_ok h
    exact .inr (.inr ⟨num, e, e', r.levelset, hopen, hget,
      placedIn_of_inPinBlock (.term value) (by decide) (by decide) he, rfl⟩)
  | unsupportedTerm =>
    obtain ⟨_, _, _, _, _, he, _⟩ := inEqnSet_eq_ok h
    cases he
  | protect =>
    obtain ⟨num, e, e', hopen, hget, he, rfl⟩ := inEqnSet_eq_ok h
    exact .inr (.inr ⟨num, e, e', r.levelset, hopen, hget,
      placedIn_of_inDpsBlock .protect (by decide) he, rfl⟩)
  | assignment name expression =>
    obtain ⟨num, e, e', hopen, hget, he, rfl⟩ := inEqnSet_eq_ok h
    exact .inr (.inr ⟨num, e, e', r.levelset, hopen, hget, placedIn_of_assign he, rfl⟩)
  | declaration name unit =>
    obtain ⟨num, e, e', hopen, hget, he, rfl⟩ := inEqnSet_eq_ok h
    cases he
    exact .inr (.inr ⟨num, e, _, r.levelset, hopen, hget, .declaration name unit, rfl⟩)
  | unplaced =>
    obtain ⟨_, _, _, _, _, he, _⟩ := inEqnSet_eq_ok h
    cases he

/-- The equation section leaves the spec sets as they are. -/
theorem specsets_placeEquations {form : EquationsLine} (h : r.placeEquations line form = .ok r') :
    r'.levels.specsets = r.levels.specsets := by
  rcases placeEquations_cases h with ⟨-, rfl⟩ | ⟨_, _, _, _, -, -, -, rfl⟩ |
    ⟨_, _, _, _, -, -, -, rfl⟩
  all_goals rfl

end LevelsReader

/-! ### The reader follows the text -/

section Concat

variable {lines : List Line} {line : Line} {num set : Nat}

theorem atEquations_concat_iff (hmark : ¬IsSectionMark line) :
    AtEquations (lines ++ [line]) ↔ AtEquations lines := by
  have hsection : Form.section? "LEV" line.text.toList ≠ some "EQN" :=
    fun h ↦ hmark (isSectionMark_of_section? h)
  rw [AtEquations, openAfter_concat_iff, or_iff_right hsection, and_iff_right hmark]

theorem atEqnSet_concat_iff (hmark : ¬IsSectionMark line) :
    AtEqnSet num (lines ++ [line]) ↔ AtEquations lines ∧ OpensEqnSet line num ∨
      (∀ other, ¬OpensEqnSet line other) ∧ AtEqnSet num lines := by
  rw [AtEqnSet, openAfter_concat_iff, or_iff_right hmark, not_exists]

theorem atLevelSet_concat_iff (hmark : ¬IsSectionMark line) :
    AtLevelSet num set (lines ++ [line]) ↔ AtEqnSet num lines ∧ OpensLevelSet line set ∨
      ((∀ other, ¬OpensEqnSet line other) ∧ ∀ other, ¬OpensLevelSet line other) ∧
        AtLevelSet num set lines := by
  rw [AtLevelSet, openAfter_concat_iff, or_iff_right hmark, not_or, not_exists, not_exists]

end Concat

section Placed

variable {e e' : LevelsEqnSet} {levelset levelset' : Option Nat} {form : EquationsLine}

theorem PlacedIn.ne_eqnset (h : PlacedIn e levelset form e' levelset')
    (digits description : String) : form ≠ .eqnset digits description := by
  rintro rfl
  cases h with
  | pinSetting hline => cases hline
  | dpsSetting hline => cases hline

theorem PlacedIn.num_eq (h : PlacedIn e levelset form e' levelset') : e'.num = e.num := by
  cases h with
  | equation hdps hpin haccepts hadd =>
    obtain ⟨-, rfl⟩ := EqnSet.of_addEquation hadd
    rfl
  | dpsPins => rfl
  | levelSet => rfl
  | pins => rfl
  | pinSetting => rfl
  | dpsSetting => rfl
  | declaration => rfl

/-- A level set is opened by the line that adds it alone. -/
theorem PlacedIn.levelset_cases (h : PlacedIn e levelset form e' levelset') :
    (∃ digits description num, form = .levelSet digits description ∧
      readSetNum digits = .ok num ∧ levelset' = some num) ∨
    (∀ digits description, form ≠ .levelSet digits description) ∧ levelset' = levelset := by
  cases h with
  | levelSet hnum => exact .inl ⟨_, _, _, rfl, hnum, rfl⟩
  | pinSetting hline =>
    refine .inr ⟨?_, rfl⟩
    rintro digits description rfl
    cases hline
  | dpsSetting hline =>
    refine .inr ⟨?_, rfl⟩
    rintro digits description rfl
    cases hline
  | dpsPins => exact .inr ⟨nofun, rfl⟩
  | pins => exact .inr ⟨nofun, rfl⟩
  | equation => exact .inr ⟨nofun, rfl⟩
  | declaration => exact .inr ⟨nofun, rfl⟩

end Placed

namespace LevelsReader

variable {r r' : LevelsReader} {line : Line} {lines : List Line}

/-- What a reader keeps open is what is open after the lines that it has read. -/
structure Follows (r : LevelsReader) (lines : List Line) : Prop where
  atEquations : AtEquations lines ↔ r.part = .equations
  atEqnSet : ∀ num, AtEqnSet num lines ↔ r.part = .equations ∧ r.eqnset = some num
  atLevelSet : ∀ num set, AtLevelSet num set lines ↔
    r.part = .equations ∧ r.eqnset = some num ∧ r.levelset = some set

theorem follows_start : start.Follows [] where
  atEquations := iff_of_false not_openAfter_nil nofun
  atEqnSet _ := iff_of_false not_openAfter_nil nofun
  atLevelSet _ _ := iff_of_false not_openAfter_nil nofun

/-- A line that opens nothing and marks no section leaves open what is open. -/
theorem Follows.of_opens_none (hr : r.Follows lines) (hmark : ¬IsSectionMark line)
    (heqnset : ∀ num, ¬OpensEqnSet line num) (hlevelset : ∀ num, ¬OpensLevelSet line num)
    (levels : Levels) : { r with levels }.Follows (lines ++ [line]) where
  atEquations := (atEquations_concat_iff hmark).trans hr.atEquations
  atEqnSet num := by
    rw [atEqnSet_concat_iff hmark, or_iff_right fun h ↦ heqnset num h.2, and_iff_right heqnset]
    exact hr.atEqnSet num
  atLevelSet num set := by
    rw [atLevelSet_concat_iff hmark, or_iff_right fun h ↦ hlevelset set h.2,
      and_iff_right ⟨heqnset, hlevelset⟩]
    exact hr.atLevelSet num set

theorem read_of_isSectionMark (hmark : IsSectionMark line) (h : r.read line = .ok r') :
    r.openSection line.text = .ok r' := by
  unfold IsSectionMark at hmark
  unfold read at h
  dsimp only at h
  split at h
  · cases h
  · rwa [if_pos hmark] at h

theorem openSection_cases {text : String} (h : r.openSection text = .ok r') :
    r'.eqnset = none ∧ r'.levelset = none ∧
      (Form.section? "LEV" text.toList = some "EQN" ↔ r'.part = .equations) := by
  unfold openSection at h
  dsimp only at h
  split at h
  · cases h
  · rename_i hsection
    cases h
    exact ⟨rfl, rfl, iff_of_true hsection rfl⟩
  · rename_i hsection
    cases h
    refine ⟨rfl, rfl, iff_of_false ?_ nofun⟩
    rw [hsection]
    decide
  · cases h

/-- A section mark closes what was open. -/
theorem follows_openSection (hmark : IsSectionMark line) (h : r.openSection line.text = .ok r') :
    r'.Follows (lines ++ [line]) := by
  obtain ⟨heqnset, hlevelset, hpart⟩ := openSection_cases h
  have hform := hmark.equationsForm?_eq_none
  constructor
  · rw [AtEquations, openAfter_concat_iff, or_iff_left fun h ↦ h.1 hmark]
    exact hpart
  · intro num
    rw [heqnset, AtEqnSet, openAfter_concat_iff]
    refine iff_of_false ?_ nofun
    rintro (⟨-, hopens⟩ | ⟨hkept, -⟩)
    · exact not_opensEqnSet_of_none hform hopens
    · exact hkept (.inl hmark)
  · intro num set
    rw [heqnset, AtLevelSet, openAfter_concat_iff]
    refine iff_of_false ?_ nofun
    rintro (⟨-, hopens⟩ | ⟨hkept, -⟩)
    · exact not_opensLevelSet_of_none hform hopens
    · exact hkept (.inl hmark)

/-- A line of the equation section opens what the reader keeps open after it. -/
theorem follows_placeEquations {form : EquationsLine} (hr : r.Follows lines)
    (hmark : ¬IsSectionMark line) (hform : equationsForm? line = some form)
    (hpart : r.part = .equations) (h : r.placeEquations line.text form = .ok r') :
    r'.Follows (lines ++ [line]) := by
  have hin : AtEquations lines := hr.atEquations.mpr hpart
  rcases placeEquations_cases h with ⟨rfl, rfl⟩ |
    ⟨digits, description, num, eqnsets, rfl, hnum, -, rfl⟩ |
    ⟨num, e, e', levelset', hopen, -, hplaced, rfl⟩
  · refine hr.of_opens_none hmark ?_ ?_ _
    · rintro num ⟨digits, description, hother, -⟩
      rw [hform] at hother
      cases hother
    · rintro num ⟨digits, description, hother, -⟩
      rw [hform] at hother
      cases hother
  · have hopens : OpensEqnSet line num := ⟨digits, description, hform, hnum⟩
    constructor
    · exact (atEquations_concat_iff hmark).trans hr.atEquations
    · intro other
      rw [atEqnSet_concat_iff hmark, opensEqnSet_iff hform hnum, or_iff_left fun h ↦ h.1 num hopens,
        Option.some_inj]
      exact and_congr_left' hr.atEquations
    · intro other set
      rw [atLevelSet_concat_iff hmark]
      refine iff_of_false ?_ nofun
      rintro (⟨-, _, _, hother, -⟩ | ⟨⟨hnone, -⟩, -⟩)
      · rw [hform] at hother
        cases hother
      · exact hnone num hopens
  · have heqnset : ∀ other, ¬OpensEqnSet line other := by
      rintro other ⟨digits, description, hother, -⟩
      rw [hform] at hother
      exact hplaced.ne_eqnset _ _ (Option.some.inj hother)
    rcases hplaced.levelset_cases with ⟨digits, description, set, rfl, hset, rfl⟩ | ⟨hnone, rfl⟩
    · have hopens : OpensLevelSet line set := ⟨digits, description, hform, hset⟩
      constructor
      · exact (atEquations_concat_iff hmark).trans hr.atEquations
      · intro other
        rw [atEqnSet_concat_iff hmark, or_iff_right fun h ↦ heqnset other h.2,
          and_iff_right heqnset]
        exact hr.atEqnSet other
      · intro other set'
        rw [atLevelSet_concat_iff hmark, opensLevelSet_iff hform hset,
          or_iff_left fun h ↦ h.1.2 set hopens, Option.some_inj, hr.atEqnSet other, and_assoc]
    · refine hr.of_opens_none hmark heqnset ?_ _
      rintro set ⟨digits, description, hother, -⟩
      rw [hform] at hother
      exact hnone _ _ (Option.some.inj hother)

theorem part_placeValues {text : String} {form : ValuesLine}
    (h : r.placeValues text form = .ok r') : r'.part = r.part := by
  cases form with
  | eqnset num =>
    obtain ⟨num, -, h⟩ := except_bind_eq_ok_iff.mp h
    cases h
    rfl
  | specSet num description =>
    unfold placeValues at h
    dsimp only at h
    split at h
    · cases h
    · obtain ⟨num, -, h⟩ := except_bind_eq_ok_iff.mp h
      obtain ⟨specsets, -, h⟩ := except_bind_eq_ok_iff.mp h
      cases h
      rfl
  | value value =>
    obtain ⟨spec, -, h⟩ := except_bind_eq_ok_iff.mp h
    split at h
    · cases h
    · obtain ⟨specs, -, h⟩ := except_bind_eq_ok_iff.mp h
      cases h
      rfl
  | unplaced => cases h

/-- In the section of values no line is part of an equation set. -/
theorem follows_placeValues {form : ValuesLine} (hr : r.Follows lines)
    (hmark : ¬IsSectionMark line) (hpart : r.part = .values)
    (h : r.placeValues line.text form = .ok r') : r'.Follows (lines ++ [line]) := by
  have hout : r.part ≠ .equations := by
    rw [hpart]
    decide
  have hout' : r'.part ≠ .equations := by
    rw [part_placeValues h]
    exact hout
  constructor
  · rw [atEquations_concat_iff hmark, hr.atEquations]
    exact iff_of_false hout hout'
  · intro num
    rw [atEqnSet_concat_iff hmark, hr.atEquations, hr.atEqnSet]
    refine iff_of_false ?_ fun h ↦ hout' h.1
    rintro (h | h)
    · exact hout h.1
    · exact hout h.2.1
  · intro num set
    rw [atLevelSet_concat_iff hmark, hr.atEqnSet, hr.atLevelSet]
    refine iff_of_false ?_ fun h ↦ hout' h.1
    rintro (h | h)
    · exact hout h.1.1
    · exact hout h.2.1

theorem follows_read (hr : r.Follows lines) (h : r.read line = .ok r') :
    r'.Follows (lines ++ [line]) := by
  by_cases hmark : IsSectionMark line
  · exact follows_openSection hmark (read_of_isSectionMark hmark h)
  · rcases read_cases h with ⟨hmark', -⟩ | ⟨hskipped, rfl⟩ | ⟨hmark', hskipped, hpart, h⟩ |
      ⟨-, -, hpart, h⟩
    · exact absurd hmark' hmark
    · have hnone := equationsForm?_of_skipped hskipped
      exact hr.of_opens_none hmark (fun _ ↦ not_opensEqnSet_of_none hnone)
        (fun _ ↦ not_opensLevelSet_of_none hnone) _
    · exact follows_placeEquations hr hmark (equationsForm?_of_placed hmark' hskipped) hpart h
    · exact follows_placeValues hr hmark hpart h

theorem follows_readLines {origin : String} (h : readLines origin read start lines = .ok r) :
    r.Follows lines := by
  have hfollows := readLines_induction_front (P := fun front r ↦ r.Follows front) h follows_start
    fun _ _ _ _ _ hr hread ↦ follows_read hr hread
  rwa [List.nil_append] at hfollows

end LevelsReader

end TesterSetup
