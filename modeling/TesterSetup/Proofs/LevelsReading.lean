import TesterSetup.Proofs.GrowingModels
import TesterSetup.Proofs.LineForms
import TesterSetup.Reader.Levels

/-!
# How levels files are read

What one line of a levels file does to the reader: the setup only grows (`LevelsReader.grows_read`),
the section changes at section markers alone, and a line that defines something under a name of its
own is either dropped, when the name starts like a firmware command, or entered at the place that
is open (`LevelsReader.entered_of_read`).
-/

set_option autoImplicit false

namespace TesterSetup

open TesterSetup.Text

/-- The words that the lines of a levels file start with. -/
def Levels.keywords : List String :=
  ["EQSP", "EQNSET", "SPECS", "EQUATIONS", "DPSPINS", "LEVELSET", "PINS", "term", "protect",
   "SPECSET", "NOOP"] ++ LevelsReader.firmwareCommands

theorem Levels.isWord_of_mem_keywords :
    ∀ keyword ∈ keywords, keyword.toList.all isWord = true := by
  decide

section Forms

variable {line : String} {d : LineDefinition}

theorem EquationsLine.ofText_of_defines (h : Defines line d) (hname : d.name ∉ Levels.keywords) :
    EquationsLine.ofText line =
      match d with
      | .declaration name unit =>
        if isReservedWord name then .unplaced else .declaration name (trimmed (unit.getD ""))
      | .assignment name expression => .assignment name (trimmed expression)
      | .value _ => .unplaced := by
  have hnone := h.afterKeyword?_of_notMem Levels.isWord_of_mem_keywords hname
  have hne : ∀ keyword ∈ Levels.keywords, d.name ≠ keyword :=
    fun _ hmem ↦ (ne_of_mem_of_not_mem hmem hname).symm
  have hheading : ¬(line = "SPECS" ∨ line = "EQUATIONS") :=
    not_or.mpr ⟨h.ne_keyword (by decide) (hne "SPECS" (by decide)),
      h.ne_keyword (by decide) (hne "EQUATIONS" (by decide))⟩
  have hprotect : line ≠ "protect" := h.ne_keyword (by decide) (hne "protect" (by decide))
  have hterm : Form.startsWith line "term " = false :=
    h.startsWith_eq_false "term" (by decide) (hne "term" (by decide))
  unfold ofText
  dsimp only
  rw [Form.numbered?_eq_none (hnone "EQNSET" (by decide)),
    Form.numbered?_eq_none (hnone "LEVELSET" (by decide)),
    Form.argument?_eq_none (hnone "DPSPINS" (by decide)),
    Form.argument?_eq_none (hnone "PINS" (by decide)),
    Form.word?_eq_none (hnone "term" (by decide)), h.assignment?_eq, h.declaration?_eq]
  dsimp only
  rw [if_neg hheading, hterm, if_neg Bool.false_ne_true, if_neg hprotect]
  cases d <;> rfl

theorem ValuesLine.ofText_of_defines (h : Defines line d) (hname : d.name ∉ Levels.keywords) :
    ValuesLine.ofText line =
      match d with
      | .value v => .value v
      | _ => .unplaced := by
  have hnone := h.afterKeyword?_of_notMem Levels.isWord_of_mem_keywords hname
  unfold ofText
  dsimp only
  rw [Form.numbered?_eq_none (hnone "EQNSET" (by decide)),
    Form.numbered?_eq_none (hnone "SPECSET" (by decide)), h.specValue?_eq]
  cases d <;> rfl

/-- A name that starts like a firmware command. -/
def Levels.isDropped (name : String) : Bool :=
  LevelsReader.firmwareCommands.any (Form.startsWith name)

/-- A line starts like a firmware command when its front word does. -/
theorem Levels.isDropped_eq_of_frontWord (line : String) :
    isDropped line = isDropped (String.ofList (Form.frontWord line.toList)) := by
  unfold isDropped
  rw [Bool.eq_iff_iff, List.any_eq_true, List.any_eq_true]
  refine exists_congr fun command ↦ and_congr_right fun hmem ↦ ?_
  rw [Form.startsWith_eq_of_frontWord line
    (isWord_of_mem_keywords command (List.mem_append_right _ hmem))]

/-- Whether a line is passed over depends on its front word, if that is not `NOOP`. -/
theorem LevelsReader.isSkipped_of_frontWord (hne : Form.frontWord line.toList ≠ [])
    (hnoop : Form.frontWord line.toList ≠ "NOOP".toList) :
    isSkipped line = Levels.isDropped (String.ofList (Form.frontWord line.toList)) := by
  have hat : line ≠ "@" := by
    rintro rfl
    exact hne (by decide)
  have hword : line ≠ "NOOP" := Form.ne_of_frontWord (by decide) hnoop
  have hspace : Form.startsWith line "NOOP " = false :=
    @Form.startsWith_eq_false_of_frontWord "NOOP" line (by decide) hnoop
  rw [isSkipped, beq_eq_false_iff_ne.mpr hat, beq_eq_false_iff_ne.mpr hword, hspace, Bool.false_or,
    Bool.false_or, Bool.false_or]
  exact Levels.isDropped_eq_of_frontWord line

theorem LevelsReader.isSkipped_of_defines (h : Defines line d)
    (hname : d.name ∉ Levels.keywords) : isSkipped line = Levels.isDropped d.name := by
  have hnoop : d.name ≠ "NOOP" := fun heq ↦ hname (heq ▸ by decide)
  rw [isSkipped_of_frontWord h.frontWord_ne_nil (h.frontWord_ne hnoop), h.name_eq]

end Forms

/-! ### What a line changes -/

namespace LevelsReader

variable {r r' : LevelsReader} {line : String}

/-- A change of the open equation set lets the setup grow when it lets the equation set grow. -/
theorem of_inEqnSet {f : LevelsEqnSet → LineResult LevelsEqnSet}
    (h : r.inEqnSet line f = .ok r')
    (hf : ∀ e e', f e = .ok e' → e.Grows LevelSetups.Grows e') :
    r.levels.Grows r'.levels ∧
      ∃ num e e', r.eqnset = some num ∧ r.levels.eqnsets.get? num = some e ∧ f e = .ok e' ∧
        r'.levels.eqnsets.get? num = some e' := by
  unfold inEqnSet at h
  split at h
  · cases h
  · rename_i num hnum
    obtain ⟨e, e', hget, he, rfl, hkeeps, hchanged⟩ :=
      Container.changed_of_require h (fun _ _ hgrows ↦ hgrows.num_eq) hf
    exact ⟨⟨hkeeps, .refl _⟩, num, e, e', hnum, hget, he, hchanged⟩

/-- A change of the open level set lets the equation set grow when it lets the level set grow. -/
theorem of_inLevelSet {f : LevelSet → LineResult LevelSet} {e e' : LevelsEqnSet}
    (h : r.inLevelSet line f e = .ok e') (hf : ∀ s s', f s = .ok s' → s.Grows s') :
    e.Grows LevelSetups.Grows e' ∧
      ∃ num s s', r.levelset = some num ∧ e.setups.levelsets.get? num = some s ∧ f s = .ok s' ∧
        e'.setups.levelsets.get? num = some s' := by
  unfold inLevelSet at h
  split at h
  · cases h
  · rename_i num hnum
    obtain ⟨s, s', hget, hs, rfl, hkeeps, hchanged⟩ :=
      Container.changed_of_require h (fun _ _ hgrows ↦ hgrows.num_eq) hf
    exact ⟨EqnSet.grows_setups ⟨hkeeps, .refl _⟩, num, s, s', hnum, hget, hs, hchanged⟩

/-- A change of the open block of a list. -/
theorem grows_updateLast {blocks blocks' : List SettingBlock} {missing : LineError} {name : String}
    {value : Setting}
    (h : updateLast blocks missing (fun b ↦ ofModel (b.set name value)) = .ok blocks') :
    ListKeeps SettingBlock.Grows blocks blocks' ∧
      ∃ b, blocks'[blocks.length - 1]? = some b ∧ b.settings.get? name = some value := by
  obtain ⟨hkeeps, b, b', hb, hlast⟩ := listKeeps_updateLast h fun b b' hb ↦
    (SettingBlock.grows_set (except_mapError_eq_ok_iff.mp hb)).1
  exact ⟨hkeeps, b', hlast, (SettingBlock.grows_set (except_mapError_eq_ok_iff.mp hb)).2⟩

theorem of_inDpsBlock {missing : Complaint} {name : String} {value : Setting} {e e' : LevelsEqnSet}
    (h : inDpsBlock line missing (fun b ↦ ofModel (b.set name value)) e = .ok e') :
    e.Grows LevelSetups.Grows e' ∧
      ∃ b, e'.setups.dpsblocks[e.setups.dpsblocks.length - 1]? = some b ∧
        b.settings.get? name = some value := by
  unfold inDpsBlock at h
  obtain ⟨blocks, hblocks, h⟩ := except_bind_eq_ok_iff.mp h
  cases h
  obtain ⟨hgrows, hlast⟩ := grows_updateLast hblocks
  exact ⟨EqnSet.grows_setups ⟨.refl _, hgrows⟩, hlast⟩

theorem of_inPinBlock {name : String} {value : Setting} {e e' : LevelsEqnSet}
    (h : r.inPinBlock line (fun b ↦ ofModel (b.set name value)) e = .ok e') :
    e.Grows LevelSetups.Grows e' ∧
      ∃ num s s', r.levelset = some num ∧ e.setups.levelsets.get? num = some s ∧
        e'.setups.levelsets.get? num = some s' ∧
        ∃ b, s'.pinblocks[s.pinblocks.length - 1]? = some b ∧
          b.settings.get? name = some value := by
  obtain ⟨hgrows, num, s, s', hnum, hget, hs, hget'⟩ := of_inLevelSet h fun s s' hs ↦ by
    obtain ⟨blocks, hblocks, hs⟩ := except_bind_eq_ok_iff.mp hs
    cases hs
    exact ⟨rfl, (grows_updateLast hblocks).1⟩
  obtain ⟨blocks, hblocks, hs⟩ := except_bind_eq_ok_iff.mp hs
  cases hs
  exact ⟨hgrows, num, s, _, hnum, hget, hget', (grows_updateLast hblocks).2⟩

end LevelsReader

/-! ### Where definitions are entered -/

/-- A definition at its place in a levels setup. -/
inductive LevelsEntry where
  | spec (eqnset : Nat) (name : String)
  | equation (eqnset : Nat) (name expression : String)
  | supplies (eqnset block : Nat) (name : String) (setting : Setting)
  | pins (eqnset levelset block : Nat) (name : String) (setting : Setting)
  | value (specset : SpecSetId) (spec : Spec)

/-- A levels setup holds an entry. -/
def Levels.Holds (levels : Levels) : LevelsEntry → Prop
  | .spec eqnset name =>
    ∃ e, levels.eqnsets.get? eqnset = some e ∧ e.declares name = true
  | .equation eqnset name expression =>
    ∃ e, levels.eqnsets.get? eqnset = some e ∧ e.equations.get? name = some expression
  | .supplies eqnset block name setting =>
    ∃ e b, levels.eqnsets.get? eqnset = some e ∧ e.setups.dpsblocks[block]? = some b ∧
      b.settings.get? name = some setting
  | .pins eqnset levelset block name setting =>
    ∃ e s b, levels.eqnsets.get? eqnset = some e ∧ e.setups.levelsets.get? levelset = some s ∧
      s.pinblocks[block]? = some b ∧ b.settings.get? name = some setting
  | .value specset spec =>
    ∃ s, levels.specsets.get? specset = some s ∧ s.specs.get? spec.name = some spec

/-- A setup that grows holds what it held. -/
theorem Levels.Grows.holds {l l' : Levels} {entry : LevelsEntry} (hgrows : l.Grows l')
    (h : l.Holds entry) : l'.Holds entry := by
  cases entry with
  | spec eqnset name =>
    obtain ⟨e, he, hname⟩ := h
    obtain ⟨e', he', hkeeps⟩ := hgrows.eqnsets _ _ he
    exact ⟨e', he', hkeeps.specs name hname⟩
  | equation eqnset name expression =>
    obtain ⟨e, he, hname⟩ := h
    obtain ⟨e', he', hkeeps⟩ := hgrows.eqnsets _ _ he
    exact ⟨e', he', hkeeps.equations.of_eq hname⟩
  | supplies eqnset block name setting =>
    obtain ⟨e, b, he, hb, hname⟩ := h
    obtain ⟨e', he', hkeeps⟩ := hgrows.eqnsets _ _ he
    obtain ⟨b', hb', hblock⟩ := hkeeps.setups.dpsblocks _ _ hb
    exact ⟨e', b', he', hb', hblock.of_eq hname⟩
  | pins eqnset levelset block name setting =>
    obtain ⟨e, s, b, he, hs, hb, hname⟩ := h
    obtain ⟨e', he', hkeeps⟩ := hgrows.eqnsets _ _ he
    obtain ⟨s', hs', hset⟩ := hkeeps.setups.levelsets _ _ hs
    obtain ⟨b', hb', hblock⟩ := hset.pinblocks _ _ hb
    exact ⟨e', s', b', he', hs', hb', hblock.of_eq hname⟩
  | value specset spec =>
    obtain ⟨s, hs, hspec⟩ := h
    obtain ⟨s', hs', hkeeps⟩ := hgrows.specsets _ _ hs
    exact ⟨s', hs', hkeeps.specs.of_eq hspec⟩

namespace LevelsReader

variable {r r' : LevelsReader} {line : String}

/-- The entry for an assignment in an equation set: a setting of the supply block or the pin block
that is open, or an equation. -/
def assignmentEntry (r : LevelsReader) (eqnset : Nat) (e : LevelsEqnSet) (name text : String) :
    Option LevelsEntry :=
  if isDpsSetting name then
    some (.supplies eqnset (e.setups.dpsblocks.length - 1) name (.classify name text))
  else if isPinSetting name then do
    let levelset ← r.levelset
    let s ← e.setups.levelsets.get? levelset
    return .pins eqnset levelset (s.pinblocks.length - 1) name (.classify name text)
  else some (.equation eqnset name text)

/-- The entry for a definition: under the equation set that is open, or in the last spec set. -/
def entryOf (r : LevelsReader) : LineDefinition → Option LevelsEntry
  | .declaration name _ => do return .spec (← r.eqnset) name
  | .assignment name expression => do
    let eqnset ← r.eqnset
    r.assignmentEntry eqnset (← r.levels.eqnsets.get? eqnset) name (trimmed expression)
  | .value v => do
    let s ← r.levels.specsets.last?
    return .value s.id (← v.spec.toOption)

theorem of_assign {name text : String} {e e' : LevelsEqnSet} (num : Nat)
    (h : r.assign line name text e = .ok e') :
    e.Grows LevelSetups.Grows e' ∧ ∃ entry, r.assignmentEntry num e name text = some entry ∧
      ∀ levels : Levels, levels.eqnsets.get? num = some e' → levels.Holds entry := by
  unfold assign at h
  unfold assignmentEntry
  dsimp only at h
  by_cases hdps : isDpsSetting name = true
  · rw [if_pos hdps] at h
    obtain ⟨hgrows, b, hb, hvalue⟩ := of_inDpsBlock h
    rw [if_pos hdps]
    exact ⟨hgrows, _, rfl, fun _ hget ↦ ⟨e', b, hget, hb, hvalue⟩⟩
  · rw [if_neg hdps] at h ⊢
    by_cases hpin : isPinSetting name = true
    · rw [if_pos hpin] at h
      obtain ⟨hgrows, set, s, s', hset, hs, hs', b, hb, hvalue⟩ := of_inPinBlock h
      rw [if_pos hpin, hset, Option.bind_eq_bind, Option.bind_some, hs]
      exact ⟨hgrows, _, rfl, fun _ hget ↦ ⟨e', s', b, hget, hs', hb, hvalue⟩⟩
    · rw [if_neg hpin] at h ⊢
      split at h
      · obtain ⟨hgrows, hequation⟩ := EqnSet.grows_addEquation (R := LevelSetups.Grows)
          (except_mapError_eq_ok_iff.mp h)
        exact ⟨hgrows, _, rfl, fun _ hget ↦ ⟨e', hget, hequation⟩⟩
      · cases h

/-! ### One line -/

/-- Every line of the equation section lets the setup grow. -/
theorem grows_placeEquations {form : EquationsLine} (h : r.placeEquations line form = .ok r') :
    r.levels.Grows r'.levels := by
  cases form with
  | eqnset num description =>
    obtain ⟨num, -, h⟩ := except_bind_eq_ok_iff.mp h
    obtain ⟨eqnsets, hadd, h⟩ := except_bind_eq_ok_iff.mp h
    cases h
    exact ⟨Container.keeps_add (except_mapError_eq_ok_iff.mp hadd), .refl _⟩
  | heading =>
    cases h
    exact Std.Refl.refl _
  | dpsPins pins =>
    refine (of_inEqnSet h fun e e' he ↦ ?_).1
    cases he
    exact EqnSet.grows_setups ⟨.refl _, listKeeps_append _ _⟩
  | levelSet num description =>
    unfold placeEquations at h
    dsimp only at h
    split at h
    · cases h
    · obtain ⟨num, -, h⟩ := except_bind_eq_ok_iff.mp h
      obtain ⟨opened, hopened, h⟩ := except_bind_eq_ok_iff.mp h
      cases h
      refine (of_inEqnSet hopened fun e e' he ↦ ?_).1
      obtain ⟨levelsets, hadd, he⟩ := except_bind_eq_ok_iff.mp he
      cases he
      exact EqnSet.grows_setups
        ⟨Container.keeps_add (except_mapError_eq_ok_iff.mp hadd), .refl _⟩
  | pins pins =>
    refine (of_inEqnSet h fun e e' he ↦ (of_inLevelSet he fun s s' hs ↦ ?_).1).1
    cases hs
    exact ⟨rfl, listKeeps_append _ _⟩
  | term value => exact (of_inEqnSet h fun e e' he ↦ (of_inPinBlock he).1).1
  | unsupportedTerm => exact (of_inEqnSet h fun e e' he ↦ nomatch he).1
  | protect => exact (of_inEqnSet h fun e e' he ↦ (of_inDpsBlock he).1).1
  | assignment name expression => exact (of_inEqnSet h fun e e' he ↦ (of_assign 0 he).1).1
  | declaration name unit =>
    refine (of_inEqnSet h fun e e' he ↦ ?_).1
    cases he
    exact EqnSet.grows_declareSpec unit
  | unplaced => exact (of_inEqnSet h fun e e' he ↦ nomatch he).1

/-- Every line of the spec set section lets the setup grow. -/
theorem grows_placeValues {form : ValuesLine} (h : r.placeValues line form = .ok r') :
    r.levels.Grows r'.levels := by
  cases form with
  | eqnset num =>
    obtain ⟨num, -, h⟩ := except_bind_eq_ok_iff.mp h
    cases h
    exact Std.Refl.refl _
  | specSet num description =>
    unfold placeValues at h
    dsimp only at h
    split at h
    · cases h
    · obtain ⟨num, -, h⟩ := except_bind_eq_ok_iff.mp h
      obtain ⟨specsets, hadd, h⟩ := except_bind_eq_ok_iff.mp h
      cases h
      exact ⟨.refl _, Container.keeps_add (except_mapError_eq_ok_iff.mp hadd)⟩
  | value value =>
    obtain ⟨spec, -, h⟩ := except_bind_eq_ok_iff.mp h
    split at h
    · cases h
    · rename_i s hlast
      obtain ⟨specs, hadd, h⟩ := except_bind_eq_ok_iff.mp h
      cases h
      exact ⟨.refl _, (keeps_addValue hlast (except_mapError_eq_ok_iff.mp hadd)).1⟩
  | unplaced => cases h

/-- A definition in the equation section is entered. -/
theorem entered_of_placeEquations {d : LineDefinition} (hd : Defines line d)
    (hname : d.name ∉ Levels.keywords) (h : r.placeEquations line (.ofText line) = .ok r') :
    ∃ entry, r.entryOf d = some entry ∧ r'.levels.Holds entry := by
  rw [EquationsLine.ofText_of_defines hd hname] at h
  cases d with
  | declaration name unit =>
    dsimp only at h
    split at h
    · obtain ⟨-, _, _, _, -, -, he, -⟩ := of_inEqnSet h fun e e' he ↦ nomatch he
      cases he
    · obtain ⟨-, num, e, e', hnum, -, he, hget⟩ := of_inEqnSet h fun e e' he ↦ by
        cases he
        exact EqnSet.grows_declareSpec _
      cases he
      refine ⟨.spec num name, ?_, _, hget, EqnSet.declares_declareSpec _⟩
      rw [entryOf, hnum]
      rfl
  | assignment name expression =>
    obtain ⟨-, num, e, e', hnum, hopen, he, hget⟩ :=
      of_inEqnSet h fun e e' he ↦ (of_assign 0 he).1
    obtain ⟨-, entry, hentry, hholds⟩ := of_assign num he
    refine ⟨entry, ?_, hholds _ hget⟩
    rw [entryOf, hnum, Option.bind_eq_bind, Option.bind_some, hopen]
    exact hentry
  | value v =>
    obtain ⟨-, _, _, _, -, -, he, -⟩ := of_inEqnSet h fun e e' he ↦ nomatch he
    cases he

/-- A definition in the spec set section is entered. -/
theorem entered_of_placeValues {d : LineDefinition} (hd : Defines line d)
    (hname : d.name ∉ Levels.keywords) (h : r.placeValues line (.ofText line) = .ok r') :
    ∃ entry, r.entryOf d = some entry ∧ r'.levels.Holds entry := by
  rw [ValuesLine.ofText_of_defines hd hname] at h
  cases d with
  | declaration name unit => cases h
  | assignment name expression => cases h
  | value v =>
    obtain ⟨spec, hspec, h⟩ := except_bind_eq_ok_iff.mp h
    split at h
    · cases h
    · rename_i s hlast
      obtain ⟨specs, hadd, h⟩ := except_bind_eq_ok_iff.mp h
      cases h
      obtain ⟨-, hget, hvalue⟩ := keeps_addValue hlast (except_mapError_eq_ok_iff.mp hadd)
      refine ⟨.value s.id spec, ?_, _, hget, hvalue⟩
      rw [entryOf, hlast, except_mapError_eq_ok_iff.mp hspec]
      rfl

/-- What a line that is read can be: a section marker, a line that is passed over, or a line of the
section that is open. -/
theorem read_cases {line : Line} (h : r.read line = .ok r') :
    (Form.startsWith line.text "EQSP" = true ∧ r.openSection line.text = .ok r') ∨
    (isSkipped line.text = true ∧ r' = r) ∨
    (Form.startsWith line.text "EQSP" = false ∧ isSkipped line.text = false ∧ r.part = .equations ∧
      r.placeEquations line.text (.ofText line.text) = .ok r') ∨
    (Form.startsWith line.text "EQSP" = false ∧ isSkipped line.text = false ∧ r.part = .values ∧
      r.placeValues line.text (.ofText line.text) = .ok r') := by
  unfold read at h
  dsimp only at h
  split at h
  · cases h
  · split at h
    · rename_i heqsp
      exact .inl ⟨heqsp, h⟩
    · rename_i heqsp
      have hplaced := Bool.eq_false_iff.mpr heqsp
      split at h
      · rename_i hskipped
        cases h
        exact .inr (.inl ⟨hskipped, rfl⟩)
      · rename_i hskipped
        have hkept := Bool.eq_false_iff.mpr hskipped
        split at h
        · cases h
        · rename_i hpart
          exact .inr (.inr (.inl ⟨hplaced, hkept, hpart, h⟩))
        · rename_i hpart
          exact .inr (.inr (.inr ⟨hplaced, hkept, hpart, h⟩))

theorem of_openSection (h : r.openSection line = .ok r') :
    (Form.section? "LEV" line.toList).isSome = true ∧ r'.levels = r.levels := by
  unfold openSection at h
  dsimp only at h
  split at h
  · cases h
  · rename_i hsection
    cases h
    rw [hsection]
    exact ⟨rfl, rfl⟩
  · rename_i hsection
    cases h
    rw [hsection]
    exact ⟨rfl, rfl⟩
  · cases h

/-- Reading lets the setup grow. -/
theorem grows_read {line : Line} (h : r.read line = .ok r') : r.levels.Grows r'.levels := by
  rcases read_cases h with ⟨-, h⟩ | ⟨-, rfl⟩ | ⟨-, -, -, h⟩ | ⟨-, -, -, h⟩
  · rw [(of_openSection h).2]
    exact Std.Refl.refl _
  · exact Std.Refl.refl _
  · exact grows_placeEquations h
  · exact grows_placeValues h

/-- A definition is dropped when its name starts like a firmware command, else it is entered. -/
theorem entered_of_read {line : Line} {d : LineDefinition} (hd : Defines line.text d)
    (hname : d.name ∉ Levels.keywords) (h : r.read line = .ok r') :
    (Levels.isDropped d.name = true → r' = r) ∧
      (Levels.isDropped d.name = false →
        ∃ entry, r.entryOf d = some entry ∧ r'.levels.Holds entry) := by
  have hskipped := isSkipped_of_defines hd hname
  rcases read_cases h with ⟨-, h⟩ | ⟨hskip, hr⟩ | ⟨-, hskip, -, h⟩ | ⟨-, hskip, -, h⟩
  · -- only a section marker opens a section, and its front word is a keyword
    have hnone := hd.afterKeyword?_of_notMem Levels.isWord_of_mem_keywords hname "EQSP" (by decide)
    have hsection := Form.noSection_of_noKeyword "LEV" hnone
    rw [Option.isNone_iff_eq_none] at hsection
    have hsome := (of_openSection h).1
    rw [hsection] at hsome
    cases hsome
  · rw [← hskipped, hskip]
    exact ⟨fun _ ↦ hr, fun hkept ↦ absurd hkept.symm Bool.false_ne_true⟩
  · rw [← hskipped, hskip]
    exact ⟨fun hdropped ↦ absurd hdropped Bool.false_ne_true,
      fun _ ↦ entered_of_placeEquations hd hname h⟩
  · rw [← hskipped, hskip]
    exact ⟨fun hdropped ↦ absurd hdropped Bool.false_ne_true,
      fun _ ↦ entered_of_placeValues hd hname h⟩

end LevelsReader

/-! ### Texts -/

/-- A text is read by its lines behind the header. -/
theorem Levels.parse_of_lines {text origin : String} {first : Line} {lines : List Line}
    (hlines : significantLines text = first :: lines) :
    parse text origin =
      if isHeader first.text language then
        (readLines origin LevelsReader.read .start lines).map LevelsReader.levels
      else .error (.header origin header first.text) := by
  unfold parse
  rw [hlines, afterHeader]
  split
  · change (readLines origin LevelsReader.read .start lines >>= _) = _
    cases readLines origin LevelsReader.read .start lines <;> rfl
  · rfl

/-- The lines of an accepted text behind the header are a run. -/
theorem Levels.run_of_parse {text origin : String} {levels : Levels} {first : Line}
    {lines : List Line} (hparse : parse text origin = .ok levels)
    (hlines : significantLines text = first :: lines) :
    ∃ r, readLines origin LevelsReader.read .start lines = .ok r ∧ r.levels = levels := by
  rw [parse_of_lines hlines] at hparse
  split at hparse
  · exact except_map_eq_ok_iff.mp hparse
  · cases hparse

/-- A line of an accepted text is read by the reader that the lines between the header and it
leave. What the setup holds after the line, it holds in the end. -/
theorem Levels.of_parse {text origin : String} {levels : Levels} {header line : Line}
    {before after : List Line} (hparse : parse text origin = .ok levels)
    (hlines : significantLines text = header :: before ++ line :: after) :
    ∃ r r', readLines origin LevelsReader.read .start before = .ok r ∧ r.read line = .ok r' ∧
      ∀ entry, r'.levels.Holds entry → levels.Holds entry := by
  obtain ⟨last, hrun, rfl⟩ := run_of_parse hparse hlines
  obtain ⟨r, hr, hrest⟩ := readLines_append_eq_ok_iff.mp hrun
  obtain ⟨r', hr', hafter⟩ := readLines_cons_eq_ok_iff.mp hrest
  refine ⟨r, r', hr, hr', fun entry hentry ↦ ?_⟩
  exact readLines_induction (P := fun s ↦ s.levels.Holds entry) hafter hentry
    fun s t line _ hs hread ↦ (LevelsReader.grows_read hread).holds hs

end TesterSetup
