import TesterSetup.Model.LevelsChange
import TesterSetup.Model.Timing

/-!
# Building timing setups

A `TimingChange` is one step of building a timing setup by hand. `Timing.apply` takes it or fails
and leaves the setup as it was. An edge is given by its name, which is read after the timing set
was found.
-/

set_option autoImplicit false

namespace TesterSetup

/-- A step of building a timing setup. Blocks are changed while they are the last ones. -/
inductive TimingChange where
  | addEqnSet (num : Nat) (description : String)
  | declareSpec (eqnset : Nat) (name unit : String)
  | addEquation (eqnset : Nat) (name expression : String)
  | addTimingSet (eqnset num : Nat) (period : Option String)
  | addPinBlock (eqnset timingset : Nat) (pins : List String)
  | setEdge (eqnset timingset : Nat) (edge expression : String)
  | addSpecSet (eqnset num : Nat) (description : String)
  | addValue (specset : SpecSetId) (spec : Spec)
  | addSpecification (name : String)
  | addGlobal (specification : String) (spec : Spec)
  | addPortSet (specification : String) (eqnset : Nat) (port wavetable : String)
  | addLocal (specification port : String) (spec : Spec)
  | addWaveTable (name : String)

namespace Timing

/-- Changes an equation set. -/
def changeEqnSet (t : Timing) (num : Nat) (f : TimingEqnSet → Except ModelError TimingEqnSet) :
    Except ModelError Timing := do
  return { t with eqnsets := ← t.eqnsets.update num f }

/-- Changes the timing sets of an equation set. -/
def changeTimingSets (t : Timing) (eqnset : Nat)
    (f : Container TimingSet → Except ModelError (Container TimingSet)) :
    Except ModelError Timing :=
  t.changeEqnSet eqnset fun e => do
    return { e with setups := { e.setups with timingsets := ← f e.setups.timingsets } }

/-- Changes the edge blocks of a timing set. -/
def changeEdgeBlocks (t : Timing) (eqnset timingset : Nat)
    (f : List EdgeBlock → Except ModelError (List EdgeBlock)) : Except ModelError Timing :=
  t.changeTimingSets eqnset fun sets => sets.update timingset fun s => do
    return { s with edgeblocks := ← f s.edgeblocks }

/-- Changes a specification. -/
def changeSpecification (t : Timing) (name : String)
    (f : Specification → Except ModelError Specification) : Except ModelError Timing := do
  return { t with specifications := ← t.specifications.update name f }

/-- Takes a step of building. -/
def apply (t : Timing) : TimingChange → Except ModelError Timing
  | .addEqnSet num description => do
    return { t with eqnsets := ← t.eqnsets.add (.ofNum num description) }
  | .declareSpec eqnset name unit => t.changeEqnSet eqnset fun e => .ok (e.declareSpec name unit)
  | .addEquation eqnset name expression =>
    t.changeEqnSet eqnset fun e => e.addEquation name expression
  | .addTimingSet eqnset num period =>
    t.changeTimingSets eqnset fun sets => sets.add { TimingSet.ofNum num "" with period }
  | .addPinBlock eqnset timingset pins =>
    t.changeEdgeBlocks eqnset timingset fun blocks => .ok (blocks ++ [.ofPins pins])
  | .setEdge eqnset timingset edge expression =>
    t.changeEdgeBlocks eqnset timingset fun blocks => do
      let edge ← EdgeId.ofText edge
      changeLast "PINS" blocks fun b => b.set edge expression
  | .addSpecSet eqnset num description => do
    return { t with specsets := ← t.specsets.add (.ofNum eqnset num description) }
  | .addValue specset spec => do
    return { t with specsets := ← addValueTo t.specsets specset spec }
  | .addSpecification name => do
    return { t with specifications := ← t.specifications.add (.ofName name) }
  | .addGlobal specification spec =>
    t.changeSpecification specification fun s => do
      return { s with specs := ← s.specs.add spec }
  | .addPortSet specification eqnset port wavetable =>
    t.changeSpecification specification fun s => do
      let p := { PortSet.ofEqnSet eqnset with port, wavetable }
      return { s with portsets := ← s.portsets.add p }
  | .addLocal specification port spec =>
    t.changeSpecification specification fun s => do
      let portsets ← s.portsets.update port fun p => do
        return { p with specs := ← p.specs.add spec }
      return { s with portsets }
  | .addWaveTable name => do
    return { t with wavetables := ← t.wavetables.add (.ofName name) }

end Timing

end TesterSetup
