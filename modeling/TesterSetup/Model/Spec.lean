import TesterSetup.Container

/-!
# Spec values

A `Spec` gives one named quantity its actual value and the bounds, unit and comment that document
it. A `SpecSet` values the specs that an equation set declares; it is known by its equation set
and its number there, so two equation sets may each have a spec set 1.
-/

set_option autoImplicit false

namespace TesterSetup

/-- One spec value: `name actual [minimum] [maximum] [unit] # comment`. -/
structure Spec where
  name : String
  /-- The value that equations see. -/
  actual : Float
  minimum : Option Float
  maximum : Option Float
  unit : String
  comment : String
  deriving Inhabited, Repr

/-- A spec with nothing but a name and a value. -/
def Spec.ofActual (name : String) (actual : Float) : Spec :=
  ⟨name, actual, none, none, "", ""⟩

instance : Keyed Spec String := ⟨Spec.name, "SPEC", id⟩

/-- The greatest number of a spec set in an equation set. -/
def maxSpecSetNum : Nat := 99

/-- The key of a spec set. -/
structure SpecSetId where
  eqnset : Nat
  num : Nat
  deriving DecidableEq, Inhabited, Repr

/-- The tester's number for a spec set: the equation set's number followed by two digits. A number
that does not fit two digits stands behind a colon. -/
def SpecSetId.text (id : SpecSetId) : String :=
  if maxSpecSetNum < id.num then toString id.eqnset ++ ":" ++ toString id.num
  else toString (id.eqnset * 100 + id.num)

/-- Values for the specs of one equation set. -/
structure SpecSet where
  eqnset : Nat
  num : Nat
  description : String
  /-- The wave table of a single-port timing spec set. -/
  wavetable : Option String
  /-- The check mode of a single-port timing spec set. -/
  check : Option String
  specs : Container Spec
  deriving Inhabited

/-- A spec set without values. -/
def SpecSet.ofNum (eqnset num : Nat) (description : String) : SpecSet :=
  ⟨eqnset, num, description, none, none, .empty⟩

/-- The key of a spec set. -/
def SpecSet.id (s : SpecSet) : SpecSetId :=
  ⟨s.eqnset, s.num⟩

instance : Keyed SpecSet SpecSetId := ⟨SpecSet.id, "SPECSET", SpecSetId.text⟩

end TesterSetup
