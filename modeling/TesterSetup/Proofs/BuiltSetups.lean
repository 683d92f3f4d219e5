import TesterSetup.Model.LevelsChange
import TesterSetup.Model.TimingChange
import TesterSetup.Proofs.BuildingSteps

/-!
# Setups built step by step

Levels and timing setups with all their parts are built by lawful steps: containers grow by parts
with new keys, equation sets by specs and equations, blocks by settings and edges, and a part is
changed where it stands. So what `BuildingLaws` says holds of both from the setup without parts on
(`built_setups`).

The functions that build setups give a new setup or an error. What they give is what a step leaves
(`Takes`): one function for each container, equation set and block, and from there the changes that
`Levels.apply` and `Timing.apply` make, which reach into a setup along its lenses
(`takes_updatePart`, `Levels.takes_apply`, `Timing.takes_apply`). `AgreeInPlace` collects them.
-/

set_option autoImplicit false

namespace TesterSetup

open Building

/-! ### Parts of setups -/

instance : Building Spec := leaf Spec

instance : Lawful Spec := lawful_leaf Spec

instance : KeepsKey Spec := ⟨nofun⟩

def SpecSet.specsLens : Lens SpecSet (Container Spec) where
  read := specs
  write s specs := { s with specs }

instance : Building SpecSet := ofLens SpecSet.specsLens

instance : Lawful SpecSet := lawful_ofLens SpecSet.specsLens

instance : KeepsKey SpecSet := ⟨fun _ _ ↦ rfl⟩

instance : Building SettingBlock := ofEntries SettingBlock.settingsLens SettingBlock.taken

instance : Lawful SettingBlock := lawful_ofEntries SettingBlock.settingsLens SettingBlock.taken

instance : Building EdgeBlock := ofEntries EdgeBlock.edgesLens EdgeBlock.taken

instance : Lawful EdgeBlock := lawful_ofEntries EdgeBlock.edgesLens EdgeBlock.taken

def LevelSet.pinblocksLens : Lens LevelSet (List SettingBlock) where
  read := pinblocks
  write s pinblocks := { s with pinblocks }

instance : Building LevelSet := ofLens LevelSet.pinblocksLens

instance : Lawful LevelSet := lawful_ofLens LevelSet.pinblocksLens

instance : KeepsKey LevelSet := ⟨fun _ _ ↦ rfl⟩

def LevelSetups.parts : Lens LevelSetups (Container LevelSet × List SettingBlock) where
  read s := (s.levelsets, s.dpsblocks)
  write _ parts := ⟨parts.1, parts.2⟩

abbrev LevelSetups.levelsetsLens : Lens LevelSetups (Container LevelSet) :=
  parts.comp .fst

abbrev LevelSetups.dpsblocksLens : Lens LevelSetups (List SettingBlock) :=
  parts.comp .snd

instance : Building LevelSetups := ofLens LevelSetups.parts

instance : Lawful LevelSetups := lawful_ofLens LevelSetups.parts

def TimingSet.edgeblocksLens : Lens TimingSet (List EdgeBlock) where
  read := edgeblocks
  write s edgeblocks := { s with edgeblocks }

instance : Building TimingSet := ofLens TimingSet.edgeblocksLens

instance : Lawful TimingSet := lawful_ofLens TimingSet.edgeblocksLens

instance : KeepsKey TimingSet := ⟨fun _ _ ↦ rfl⟩

def TimingSetups.timingsetsLens : Lens TimingSetups (Container TimingSet) where
  read := timingsets
  write s timingsets := { s with timingsets }

instance : Building TimingSetups := ofLens TimingSetups.timingsetsLens

instance : Lawful TimingSetups := lawful_ofLens TimingSetups.timingsetsLens

def PortSet.specsLens : Lens PortSet (Container Spec) where
  read := specs
  write p specs := { p with specs }

instance : Building PortSet := ofLens PortSet.specsLens

instance : Lawful PortSet := lawful_ofLens PortSet.specsLens

instance : KeepsKey PortSet := ⟨fun _ _ ↦ rfl⟩

def Specification.parts : Lens Specification (Container Spec × Container PortSet) where
  read s := (s.specs, s.portsets)
  write s parts := { s with specs := parts.1, portsets := parts.2 }

abbrev Specification.specsLens : Lens Specification (Container Spec) :=
  parts.comp .fst

abbrev Specification.portsetsLens : Lens Specification (Container PortSet) :=
  parts.comp .snd

instance : Building Specification := ofLens Specification.parts

instance : Lawful Specification := lawful_ofLens Specification.parts

instance : KeepsKey Specification := ⟨fun _ _ ↦ rfl⟩

instance : Building Waveform := leaf Waveform

instance : Lawful Waveform := lawful_leaf Waveform

instance : KeepsKey Waveform := ⟨nofun⟩

def WaveformBlock.waveformsLens : Lens WaveformBlock (Container Waveform) where
  read := waveforms
  write b waveforms := { b with waveforms }

instance : Building WaveformBlock := ofLens WaveformBlock.waveformsLens

instance : Lawful WaveformBlock := lawful_ofLens WaveformBlock.waveformsLens

def WaveTable.blocksLens : Lens WaveTable (List WaveformBlock) where
  read := blocks
  write w blocks := { w with blocks }

instance : Building WaveTable := ofLens WaveTable.blocksLens

instance : Lawful WaveTable := lawful_ofLens WaveTable.blocksLens

instance : KeepsKey WaveTable := ⟨fun _ _ ↦ rfl⟩

/-! ### Equation sets -/

/-- A step of building an equation set. -/
inductive EqnSetStep (σ : Type) where
  | declareSpec (name unit : String)
  | addEquation (name expression : String)
  | setups (s : σ)

/-- A collection that an equation set holds. -/
inductive EqnSetSlot (π : Type) where
  | specs
  | equations
  | setups (slot : π)

section EqnSets

variable {Setups : Type} [Building Setups]

/-- Takes a step of building an equation set. -/
def takeEqnSet : EqnSetStep (Step Setups) → InPlace (EqnSet Setups) Unit
  | .declareSpec name unit => modify fun e ↦ e.declareSpec name unit
  | .addEquation name expression => EqnSet.addEquationInPlace name expression
  | .setups s => EqnSet.setupsLens.change (take s)

instance : Building (EqnSet Setups) where
  Step := EqnSetStep (Step Setups)
  take := takeEqnSet
  Slot := EqnSetSlot (Slot Setups)
  Key
    | .specs => String
    | .equations => String
    | .setups p => Key p
  Value
    | .specs => String
    | .equations => String
    | .setups p => Value p
  keyEq
    | .specs => inferInstanceAs (DecidableEq String)
    | .equations => inferInstanceAs (DecidableEq String)
    | .setups p => inferInstanceAs (DecidableEq (Key p))
  content
    | .specs, e => e.specs
    | .equations, e => e.equations
    | .setups p, e => content p e.setups
  writes
    | .specs, .declareSpec name unit, _ => [.add name unit]
    | .equations, .addEquation name expression, _ => [.add name expression]
    | .setups p, .setups s, e => writes p s e.setups
    | _, _, _ => []

omit [Building Setups] in
theorem EqnSet.outcome_addEquation_of_ok {e : EqnSet Setups} {name expression : String}
    (h : (outcome (addEquationInPlace name expression) e).1 = .ok ()) :
    (outcome (addEquationInPlace name expression) e).2 =
      { e with equations := e.equations.insert name expression } :=
  (EqnSet.of_addEquation (eq_ok_of_outcome (outcome_addEquationInPlace e name expression) h)).2

instance [Lawful Setups] : Lawful (EqnSet Setups) where
  take_error
    | .declareSpec _ _, _, _, h => nomatch h
    | .addEquation name expression, e, _, h =>
      snd_eq_of_outcome (EqnSet.outcome_addEquationInPlace e name expression) h
    | .setups s, e, cause, h =>
      congrArg (fun setups ↦ { e with setups }) (Lawful.take_error s _ cause h)
  content_take
    | .specs, .declareSpec _ _, _, _ => rfl
    | .specs, .addEquation _ _, _, h =>
      (congrArg EqnSet.specs (EqnSet.outcome_addEquation_of_ok h)).trans rfl
    | .specs, .setups _, _, _ => rfl
    | .equations, .declareSpec _ _, _, _ => rfl
    | .equations, .addEquation _ _, _, h =>
      (congrArg EqnSet.equations (EqnSet.outcome_addEquation_of_ok h)).trans rfl
    | .equations, .setups _, _, _ => rfl
    | .setups _, .declareSpec _ _, _, _ => rfl
    | .setups p, .addEquation _ _, _, h =>
      (congrArg (fun e ↦ content p e.setups) (EqnSet.outcome_addEquation_of_ok h)).trans rfl
    | .setups p, .setups s, e, h => Lawful.content_take p s e.setups h

instance : KeepsKey (EqnSet Setups) where
  key_take
    | .declareSpec _ _, _ => rfl
    | .addEquation name expression, e => by
      change (outcome (EqnSet.addEquationInPlace name expression) e).2.num = e.num
      rw [EqnSet.outcome_addEquationInPlace]
      cases h : e.addEquation name expression with
      | ok e' =>
        rw [(EqnSet.of_addEquation h).2]
        rfl
      | error cause => rfl
    | .setups _, _ => rfl

end EqnSets

/-! ### Setups -/

def Levels.parts : Lens Levels (Container LevelsEqnSet × Container SpecSet) where
  read l := (l.eqnsets, l.specsets)
  write _ parts := ⟨parts.1, parts.2⟩

abbrev Levels.eqnsetsLens : Lens Levels (Container LevelsEqnSet) :=
  parts.comp .fst

abbrev Levels.specsetsLens : Lens Levels (Container SpecSet) :=
  parts.comp .snd

instance : Building Levels := ofLens Levels.parts

instance : Lawful Levels := lawful_ofLens Levels.parts

def Timing.parts : Lens Timing (Container TimingEqnSet × Container SpecSet ×
    Container Specification × Container WaveTable) where
  read t := (t.eqnsets, t.specsets, t.specifications, t.wavetables)
  write _ parts := ⟨parts.1, parts.2.1, parts.2.2.1, parts.2.2.2⟩

abbrev Timing.eqnsetsLens : Lens Timing (Container TimingEqnSet) :=
  parts.comp .fst

abbrev Timing.specsetsLens : Lens Timing (Container SpecSet) :=
  parts.comp (.comp .snd .fst)

abbrev Timing.specificationsLens : Lens Timing (Container Specification) :=
  parts.comp (.comp .snd (.comp .snd .fst))

abbrev Timing.wavetablesLens : Lens Timing (Container WaveTable) :=
  parts.comp (.comp .snd (.comp .snd .snd))

instance : Building Timing := ofLens Timing.parts

instance : Lawful Timing := lawful_ofLens Timing.parts

theorem Container.content_empty {α κ : Type} [Keyed α κ] [DecidableEq κ] [Building α]
    (p : Slot (Container α)) : content p (Container.empty : Container α) = .empty := by
  cases p <;> rfl

theorem Levels.content_empty (p : Slot Levels) : content p Levels.empty = .empty := by
  rcases p with p | p <;> exact Container.content_empty p

theorem Timing.content_empty (p : Slot Timing) : content p Timing.empty = .empty := by
  rcases p with p | p | p | p <;> exact Container.content_empty p

/-! ### Functions that do what steps do -/

/-- A step leaves what a function on values gives, or its error and the thing as it was. -/
def Takes {α : Type} [Building α] (a : α) (result : Except ModelError α) : Prop :=
  ∃ s : Step α, outcome (take s) a = allOrNothing a result

/-- The steps of a part are steps of the whole. -/
class Lens.IsBuilt {α β : Type} [Building α] [Building β] (lens : Lens α β) : Prop where
  exists_take : ∀ s : Step β, ∃ t : Step α, take t = lens.change (take s)

section Takes

variable {α β γ κ : Type} [Building α] [Building β] [Building γ]

omit [Building α] in
/-- A record is built by the steps of its parts. -/
theorem isBuilt_ofLens (parts : Lens α β) : @Lens.IsBuilt α β (ofLens parts) _ parts :=
  @Lens.IsBuilt.mk α β (ofLens parts) _ parts fun s ↦ ⟨s, rfl⟩

instance : (Lens.fst : Lens (β × γ) β).IsBuilt := ⟨fun s ↦ ⟨.inl s, rfl⟩⟩

instance : (Lens.snd : Lens (β × γ) γ).IsBuilt := ⟨fun s ↦ ⟨.inr s, rfl⟩⟩

instance (outer : Lens α β) (inner : Lens β γ) [houter : outer.IsBuilt]
    [hinner : inner.IsBuilt] : (outer.comp inner).IsBuilt where
  exists_take s := by
    obtain ⟨t, ht⟩ := hinner.exists_take s
    obtain ⟨u, hu⟩ := houter.exists_take t
    exact ⟨u, by rw [hu, ht, Lens.change_comp]⟩

/-- A function on a part is a function on the whole. -/
theorem takes_part (lens : Lens α β) [hlens : lens.IsBuilt] {a : α} {result : Except ModelError β}
    (h : Takes (lens.read a) result) : Takes a (do return lens.write a (← result)) := by
  obtain ⟨s, hs⟩ := h
  obtain ⟨t, ht⟩ := hlens.exists_take s
  refine ⟨t, ?_⟩
  rw [ht, Lens.outcome_change, hs]
  cases result with
  | ok b => rfl
  | error e => exact congrArg (Prod.mk _) (lens.write_read a)

theorem takes_push (l : List β) (b : β) : Takes l (.ok (l ++ [b])) :=
  ⟨.push b, rfl⟩

theorem takes_giveUp (l : List β) (e : ModelError) : Takes l (.error e) :=
  ⟨.giveUp e, rfl⟩

theorem takes_changeLast (kind : String) (l : List β) {f : β → Except ModelError β}
    (hf : ∀ b, Takes b (f b)) : Takes l (changeLast kind l f) := by
  unfold changeLast
  cases hlast : l.getLast? with
  | none => exact takes_giveUp l _
  | some b =>
    obtain ⟨front, rfl⟩ := List.getLast?_eq_some_iff.mp hlast
    obtain ⟨s, hs⟩ := hf b
    have hset : ∀ b', (front ++ [b]).set front.length b' = front ++ [b'] := by simp
    have hstep : outcome (take (.change front.length s : Step (List β))) (front ++ [b]) =
        ((outcome (take s) b).1, front ++ [(outcome (take s) b).2]) :=
      (outcome_change_of_getElem? List.getElem?_concat_length).trans
        (congrArg (Prod.mk _) (hset _))
    refine ⟨.change front.length s, ?_⟩
    rw [hstep, hs, List.dropLast_concat]
    change _ = allOrNothing (front ++ [b]) (f b >>= fun b' ↦ pure (front ++ [b']))
    cases f b <;> rfl

variable [Keyed β κ] [DecidableEq κ]

theorem takes_add (c : Container β) (b : β) : Takes c (c.add b) :=
  ⟨.add b, Container.outcome_addInPlace c b⟩

theorem takes_update (c : Container β) (k : κ) {f : β → Except ModelError β}
    (hf : ∀ b, Takes b (f b)) : Takes c (c.update k f) := by
  unfold Container.update
  cases hrequire : c.require k with
  | error e =>
    -- nothing is changed, whatever the change would be
    have hreach : c.reach (.require k) = .error e := by
      rw [Container.reach, hrequire]
      rfl
    exact ⟨.change (.require k) (.rewrite id fun _ ↦ rfl), outcome_change_of_error hreach⟩
  | ok b =>
    obtain ⟨s, hs⟩ := hf b
    have hreach : c.reach (.require k) = .ok (some b) := by
      rw [Container.reach, hrequire]
      rfl
    have hstep : outcome (take (.change (.require k) (.step s) : Step (Container β))) c =
        ((outcome (take s) b).1, c.replace (outcome (take s) b).2) :=
      outcome_change_of_reach hreach
    refine ⟨.change (.require k) (.step s), ?_⟩
    rw [hstep, hs]
    change _ = allOrNothing c (f b >>= fun b' ↦ pure (c.replace b'))
    cases f b with
    | ok b' => rfl
    | error e =>
      exact congrArg (Prod.mk _) (Container.replace_self (Container.get?_of_reach hreach))

/-- A part of a container in a thing is changed in its place. -/
theorem takes_updatePart (lens : Lens α (Container β)) [lens.IsBuilt] (a : α) (k : κ)
    {f : β → Except ModelError β} (hf : ∀ b, Takes b (f b)) :
    Takes a (do return lens.write a (← (lens.read a).update k f)) :=
  takes_part lens (takes_update (lens.read a) k hf)

end Takes

/-! ### The changes of setups -/

theorem EqnSet.takes_declareSpec {Setups : Type} [Building Setups] (e : EqnSet Setups)
    (name unit : String) : Takes e (.ok (e.declareSpec name unit)) :=
  ⟨.declareSpec name unit, rfl⟩

theorem EqnSet.takes_addEquation {Setups : Type} [Building Setups] (e : EqnSet Setups)
    (name expression : String) : Takes e (e.addEquation name expression) :=
  ⟨.addEquation name expression, EqnSet.outcome_addEquationInPlace e name expression⟩

instance {Setups : Type} [Building Setups] :
    (EqnSet.setupsLens : Lens (EqnSet Setups) Setups).IsBuilt :=
  ⟨fun s ↦ ⟨.setups s, rfl⟩⟩

theorem SettingBlock.takes_set (b : SettingBlock) (name : String) (value : Setting) :
    Takes b (b.set name value) :=
  ⟨(name, value), SettingBlock.outcome_setInPlace b name value⟩

theorem EdgeBlock.takes_set (b : EdgeBlock) (edge : EdgeId) (expression : String) :
    Takes b (b.set edge expression) :=
  ⟨(edge, expression), EdgeBlock.outcome_setInPlace b edge expression⟩

instance : SpecSet.specsLens.IsBuilt := isBuilt_ofLens _

instance : LevelSet.pinblocksLens.IsBuilt := isBuilt_ofLens _

instance : LevelSetups.parts.IsBuilt := isBuilt_ofLens _

instance : TimingSet.edgeblocksLens.IsBuilt := isBuilt_ofLens _

instance : TimingSetups.timingsetsLens.IsBuilt := isBuilt_ofLens _

instance : PortSet.specsLens.IsBuilt := isBuilt_ofLens _

instance : Specification.parts.IsBuilt := isBuilt_ofLens _

instance : Levels.parts.IsBuilt := isBuilt_ofLens _

instance : Timing.parts.IsBuilt := isBuilt_ofLens _

theorem takes_addValueTo (specsets : Container SpecSet) (id : SpecSetId) (spec : Spec) :
    Takes specsets (addValueTo specsets id spec) :=
  takes_update specsets id fun s ↦ takes_part SpecSet.specsLens (takes_add s.specs spec)

namespace Levels

variable (l : Levels)

theorem takes_changeDpsBlocks (num : Nat)
    {f : List SettingBlock → Except ModelError (List SettingBlock)} (hf : ∀ b, Takes b (f b)) :
    Takes l (l.changeDpsBlocks num f) :=
  takes_updatePart eqnsetsLens l num fun e ↦
    takes_part (EqnSet.setupsLens.comp LevelSetups.dpsblocksLens) (hf e.setups.dpsblocks)

theorem takes_changeLevelSets (num : Nat)
    {f : Container LevelSet → Except ModelError (Container LevelSet)} (hf : ∀ s, Takes s (f s)) :
    Takes l (l.changeLevelSets num f) :=
  takes_updatePart eqnsetsLens l num fun e ↦
    takes_part (EqnSet.setupsLens.comp LevelSetups.levelsetsLens) (hf e.setups.levelsets)

theorem takes_changePinBlocks (eqnset levelset : Nat)
    {f : List SettingBlock → Except ModelError (List SettingBlock)} (hf : ∀ b, Takes b (f b)) :
    Takes l (l.changePinBlocks eqnset levelset f) :=
  takes_changeLevelSets l eqnset fun sets ↦ takes_update sets levelset fun s ↦
    takes_part LevelSet.pinblocksLens (hf s.pinblocks)

/-- A change of a levels setup is a step. -/
theorem takes_apply (change : LevelsChange) : Takes l (l.apply change) := by
  rw [apply.eq_def]
  cases change with
  | addEqnSet num description => exact takes_part eqnsetsLens (takes_add l.eqnsets _)
  | declareSpec eqnset name unit =>
    exact takes_updatePart eqnsetsLens l eqnset fun e ↦ e.takes_declareSpec name unit
  | addEquation eqnset name expression =>
    exact takes_updatePart eqnsetsLens l eqnset fun e ↦ e.takes_addEquation name expression
  | addDpsBlock eqnset supplies =>
    exact takes_changeDpsBlocks l eqnset fun blocks ↦ takes_push blocks _
  | setSupplies eqnset name value =>
    exact takes_changeDpsBlocks l eqnset fun blocks ↦
      takes_changeLast _ blocks fun b ↦ b.takes_set name value
  | addLevelSet eqnset num description =>
    exact takes_changeLevelSets l eqnset fun sets ↦ takes_add sets _
  | addPinBlock eqnset levelset pins =>
    exact takes_changePinBlocks l eqnset levelset fun blocks ↦ takes_push blocks _
  | setPins eqnset levelset name value =>
    exact takes_changePinBlocks l eqnset levelset fun blocks ↦
      takes_changeLast _ blocks fun b ↦ b.takes_set name value
  | addSpecSet eqnset num description =>
    exact takes_part specsetsLens (takes_add l.specsets _)
  | addValue specset spec =>
    exact takes_part specsetsLens (takes_addValueTo l.specsets specset spec)

end Levels

namespace Timing

variable (t : Timing)

theorem takes_changeTimingSets (num : Nat)
    {f : Container TimingSet → Except ModelError (Container TimingSet)} (hf : ∀ s, Takes s (f s)) :
    Takes t (t.changeTimingSets num f) :=
  takes_updatePart eqnsetsLens t num fun e ↦
    takes_part (EqnSet.setupsLens.comp TimingSetups.timingsetsLens) (hf e.setups.timingsets)

theorem takes_changeEdgeBlocks (eqnset timingset : Nat)
    {f : List EdgeBlock → Except ModelError (List EdgeBlock)} (hf : ∀ b, Takes b (f b)) :
    Takes t (t.changeEdgeBlocks eqnset timingset f) :=
  takes_changeTimingSets t eqnset fun sets ↦ takes_update sets timingset fun s ↦
    takes_part TimingSet.edgeblocksLens (hf s.edgeblocks)

theorem takes_changeSpecification (name : String)
    {f : Specification → Except ModelError Specification} (hf : ∀ s, Takes s (f s)) :
    Takes t (t.changeSpecification name f) :=
  takes_updatePart specificationsLens t name hf

/-- A change of a timing setup is a step. -/
theorem takes_apply (change : TimingChange) : Takes t (t.apply change) := by
  rw [apply.eq_def]
  cases change with
  | addEqnSet num description => exact takes_part eqnsetsLens (takes_add t.eqnsets _)
  | declareSpec eqnset name unit =>
    exact takes_updatePart eqnsetsLens t eqnset fun e ↦ e.takes_declareSpec name unit
  | addEquation eqnset name expression =>
    exact takes_updatePart eqnsetsLens t eqnset fun e ↦ e.takes_addEquation name expression
  | addTimingSet eqnset num period =>
    exact takes_changeTimingSets t eqnset fun sets ↦ takes_add sets _
  | addPinBlock eqnset timingset pins =>
    exact takes_changeEdgeBlocks t eqnset timingset fun blocks ↦ takes_push blocks _
  | setEdge eqnset timingset edge expression =>
    refine takes_changeEdgeBlocks t eqnset timingset fun blocks ↦ ?_
    cases EdgeId.ofText edge with
    | error e => exact takes_giveUp blocks e
    | ok edge => exact takes_changeLast _ blocks fun b ↦ b.takes_set edge expression
  | addSpecSet eqnset num description =>
    exact takes_part specsetsLens (takes_add t.specsets _)
  | addValue specset spec =>
    exact takes_part specsetsLens (takes_addValueTo t.specsets specset spec)
  | addSpecification name =>
    exact takes_part specificationsLens (takes_add t.specifications _)
  | addGlobal specification spec =>
    exact takes_changeSpecification t specification fun s ↦
      takes_part Specification.specsLens (takes_add s.specs spec)
  | addPortSet specification eqnset port wavetable =>
    exact takes_changeSpecification t specification fun s ↦
      takes_part Specification.portsetsLens (takes_add s.portsets _)
  | addLocal specification port spec =>
    exact takes_changeSpecification t specification fun s ↦
      takes_updatePart Specification.portsetsLens s port fun p ↦
        takes_part PortSet.specsLens (takes_add p.specs spec)
  | addWaveTable name =>
    exact takes_part wavetablesLens (takes_add t.wavetables _)

end Timing

/-! ### What holds of all that is built -/

/-- What holds of everything that is built from a start without parts. A step that fails leaves all
as it was. After any steps each collection is what the writes of the successful steps make of it;
its keys are distinct and stand in the order in which they were first added. -/
structure BuildingLaws (α : Type) [Building α] (start : α) : Prop where
  unchanged : ∀ (s : Step α) (a : α) (e : ModelError),
    (outcome (take s) a).1 = .error e → (outcome (take s) a).2 = a
  replayed : ∀ (p : Slot α) (steps : List (Step α)),
    content p (run start steps) = replay .empty (history p start steps)
  ordered : ∀ (p : Slot α) (steps : List (Step α)),
    (content p (run start steps)).keys = (addedKeys [] (history p start steps)).eraseDups
  distinct : ∀ (p : Slot α) (steps : List (Step α)), (content p (run start steps)).keys.Nodup

theorem buildingLaws_of_empty {α : Type} [Building α] [Lawful α] {start : α}
    (hstart : ∀ p : Slot α, content p start = .empty) : BuildingLaws α start := by
  have hreplayed : ∀ (p : Slot α) (steps : List (Step α)),
      content p (run start steps) = replay .empty (history p start steps) := fun p steps ↦ by
    rw [content_run, hstart]
  refine ⟨Lawful.take_error, hreplayed, fun p steps ↦ ?_, fun p steps ↦ OrderedMap.keys_nodup _⟩
  rw [hreplayed]
  exact keys_replay rfl _

/-- Every part of a container is stored under its own key and found there, and the part that was
added last, under a key that was new, is the last one. -/
structure Container.StoresByKey {α κ : Type} [Keyed α κ] [DecidableEq κ] (c : Container α) :
    Prop where
  entries : c.asMap.entries = c.items.map fun a ↦ (Keyed.key a, a)
  get?_eq_some_iff : ∀ k a, c.get? k = some a ↔ a ∈ c.items ∧ Keyed.key a = k
  last?_eq : c.last? = c.asMap.entries.getLast?.map Prod.snd
  last?_add : ∀ a d, c.add a = .ok d → Keyed.key a ∉ c.keys ∧ d.last? = some a

theorem Container.storesByKey {α κ : Type} [Keyed α κ] [DecidableEq κ] (c : Container α) :
    c.StoresByKey where
  entries := rfl
  get?_eq_some_iff _ _ := Container.get?_eq_some_iff
  last?_eq := by
    rw [last?, asMap, List.getLast?_map, Option.map_map]
    exact Option.map_id'.symm
  last?_add a d h := by
    refine ⟨key_notMem_of_add h, ?_⟩
    rw [last?, items_add h, List.getLast?_concat]

/-- The operations of setups leave in place what the functions on values give, or their errors and
the thing as it was. -/
structure AgreeInPlace : Prop where
  add : ∀ (α κ : Type) [Keyed α κ] [DecidableEq κ] (c : Container α) (a : α),
    outcome (Container.addInPlace a) c = allOrNothing c (c.add a)
  addEquation : ∀ (Setups : Type) (e : EqnSet Setups) (name expression : String),
    outcome (EqnSet.addEquationInPlace name expression) e =
      allOrNothing e (e.addEquation name expression)
  setSetting : ∀ (b : SettingBlock) (name : String) (value : Setting),
    outcome (SettingBlock.setInPlace name value) b = allOrNothing b (b.set name value)
  setEdge : ∀ (b : EdgeBlock) (edge : EdgeId) (expression : String),
    outcome (EdgeBlock.setInPlace edge expression) b = allOrNothing b (b.set edge expression)
  changeLevels : ∀ (l : Levels) (change : LevelsChange), Takes l (l.apply change)
  changeTiming : ∀ (t : Timing) (change : TimingChange), Takes t (t.apply change)

theorem agreeInPlace : AgreeInPlace where
  add _ _ := Container.outcome_addInPlace
  addEquation _ := EqnSet.outcome_addEquationInPlace
  setSetting := SettingBlock.outcome_setInPlace
  setEdge := EdgeBlock.outcome_setInPlace
  changeLevels := Levels.takes_apply
  changeTiming := Timing.takes_apply

/-- Levels and timing setups that are built from nothing, by whatever steps in place. What
`Levels.apply` and `Timing.apply` give is what such steps leave. A spec that is declared again keeps
its place and takes the new unit. -/
theorem built_setups :
    BuildingLaws Levels .empty ∧ BuildingLaws Timing .empty ∧ AgreeInPlace ∧
      (∀ (α κ : Type) [Keyed α κ] [DecidableEq κ] (c : Container α), c.StoresByKey) ∧
      ∀ (Setups : Type) (e : EqnSet Setups) (name unit : String),
        (e.declareSpec name unit).specs.get? name = some unit ∧
          (e.declares name = true → (e.declareSpec name unit).specs.keys = e.specs.keys) := by
  refine ⟨buildingLaws_of_empty Levels.content_empty, buildingLaws_of_empty Timing.content_empty,
    agreeInPlace, fun _ _ _ _ ↦ Container.storesByKey,
    fun Setups e name unit ↦ ⟨OrderedMap.get?_insert_self _ _ _, ?_⟩⟩
  intro hdeclared
  exact (OrderedMap.keys_insert _ _ _).trans (if_pos (OrderedMap.contains_iff.mp hdeclared))

/-- Steps that add two equation sets, add one of them again, which fails, declare a spec twice, and
add an equation. -/
def redeclaringSteps : List (Step Levels) :=
  [.inl (.add (.ofNum 2 "")), .inl (.add (.ofNum 1 "")), .inl (.add (.ofNum 2 "again")),
    .inl (.change (.require 2) (.step (.declareSpec "A" "V"))),
    .inl (.change .last (.step (.declareSpec "C" "V"))),
    .inl (.change (.get 2) (.step (.declareSpec "B" "V"))),
    .inl (.change (.require 2) (.step (.declareSpec "A" "mV"))),
    .inl (.change (.require 2) (.step (.addEquation "E" "A")))]

/-- A step that adds an equation a second time, with another expression. -/
def repeatingStep : Step Levels :=
  .inl (.change (.require 2) (.step (.addEquation "E" "B")))

/-- The specs of an equation set of a levels setup. -/
def Levels.specsOf (eqnset : Nat) : Slot Levels :=
  .inl (.within eqnset .specs)

theorem built_setups_redeclaring :
    (run Levels.empty redeclaringSteps).eqnsets.keys = [2, 1] ∧
      content (Levels.specsOf 2) (run Levels.empty redeclaringSteps) =
        .ofList [("A", "mV"), ("B", "V")] ∧
      (outcome (take repeatingStep) (run Levels.empty redeclaringSteps)).1 =
        .error (.duplicate "EQUATION" "E") ∧
      (outcome (take repeatingStep) (run Levels.empty redeclaringSteps)).2 =
        run Levels.empty redeclaringSteps := by
  refine ⟨?_, ?_, rfl, ?_⟩
  · rw [← Container.keys_asMap]
    exact (built_setups.1.ordered (.inl .parts) redeclaringSteps).trans rfl
  · exact (built_setups.1.replayed (Levels.specsOf 2) redeclaringSteps).trans rfl
  · exact built_setups.1.unchanged repeatingStep _ (.duplicate "EQUATION" "E") rfl

end TesterSetup
