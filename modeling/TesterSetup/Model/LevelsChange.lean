import TesterSetup.Model.Levels

/-!
# Building levels setups

A `LevelsChange` is one step of building a levels setup by hand. `Levels.apply` takes it or fails
and leaves the setup as it was: a part is added under a key that is free, and what is changed has
to be there.
-/

set_option autoImplicit false

namespace TesterSetup

/-- Changes the last member of a list, if there is one. -/
def changeLast {α : Type} (kind : String) (l : List α) (f : α → Except ModelError α) :
    Except ModelError (List α) :=
  match l.getLast? with
  | none => .error (.notFound kind "")
  | some a => do return l.dropLast ++ [← f a]

/-- Changes the specs of a spec set. -/
def addValueTo (specsets : Container SpecSet) (id : SpecSetId) (spec : Spec) :
    Except ModelError (Container SpecSet) :=
  specsets.update id fun s => do return { s with specs := ← s.specs.add spec }

/-- A step of building a levels setup. Blocks are changed while they are the last ones. -/
inductive LevelsChange where
  | addEqnSet (num : Nat) (description : String)
  | declareSpec (eqnset : Nat) (name unit : String)
  | addEquation (eqnset : Nat) (name expression : String)
  | addDpsBlock (eqnset : Nat) (supplies : List String)
  | setSupplies (eqnset : Nat) (name : String) (value : Setting)
  | addLevelSet (eqnset num : Nat) (description : String)
  | addPinBlock (eqnset levelset : Nat) (pins : List String)
  | setPins (eqnset levelset : Nat) (name : String) (value : Setting)
  | addSpecSet (eqnset num : Nat) (description : String)
  | addValue (specset : SpecSetId) (spec : Spec)

namespace Levels

/-- Changes an equation set. -/
def changeEqnSet (l : Levels) (num : Nat) (f : LevelsEqnSet → Except ModelError LevelsEqnSet) :
    Except ModelError Levels := do
  return { l with eqnsets := ← l.eqnsets.update num f }

/-- Changes the supply blocks of an equation set. -/
def changeDpsBlocks (l : Levels) (eqnset : Nat)
    (f : List SettingBlock → Except ModelError (List SettingBlock)) : Except ModelError Levels :=
  l.changeEqnSet eqnset fun e => do
    return { e with setups := { e.setups with dpsblocks := ← f e.setups.dpsblocks } }

/-- Changes the level sets of an equation set. -/
def changeLevelSets (l : Levels) (eqnset : Nat)
    (f : Container LevelSet → Except ModelError (Container LevelSet)) :
    Except ModelError Levels :=
  l.changeEqnSet eqnset fun e => do
    return { e with setups := { e.setups with levelsets := ← f e.setups.levelsets } }

/-- Changes the pin blocks of a level set. -/
def changePinBlocks (l : Levels) (eqnset levelset : Nat)
    (f : List SettingBlock → Except ModelError (List SettingBlock)) : Except ModelError Levels :=
  l.changeLevelSets eqnset fun sets => sets.update levelset fun s => do
    return { s with pinblocks := ← f s.pinblocks }

/-- Takes a step of building. -/
def apply (l : Levels) : LevelsChange → Except ModelError Levels
  | .addEqnSet num description => do
    return { l with eqnsets := ← l.eqnsets.add (.ofNum num description) }
  | .declareSpec eqnset name unit => l.changeEqnSet eqnset fun e => .ok (e.declareSpec name unit)
  | .addEquation eqnset name expression =>
    l.changeEqnSet eqnset fun e => e.addEquation name expression
  | .addDpsBlock eqnset supplies =>
    l.changeDpsBlocks eqnset fun blocks => .ok (blocks ++ [.ofPins supplies])
  | .setSupplies eqnset name value =>
    l.changeDpsBlocks eqnset fun blocks => changeLast "DPSPINS" blocks fun b => b.set name value
  | .addLevelSet eqnset num description =>
    l.changeLevelSets eqnset fun sets => sets.add (.ofNum num description)
  | .addPinBlock eqnset levelset pins =>
    l.changePinBlocks eqnset levelset fun blocks => .ok (blocks ++ [.ofPins pins])
  | .setPins eqnset levelset name value =>
    l.changePinBlocks eqnset levelset fun blocks => changeLast "PINS" blocks fun b =>
      b.set name value
  | .addSpecSet eqnset num description => do
    return { l with specsets := ← l.specsets.add (.ofNum eqnset num description) }
  | .addValue specset spec => do
    return { l with specsets := ← addValueTo l.specsets specset spec }

end Levels

end TesterSetup
