import TesterSetup.Container
import TesterSetup.OrderedMap

/-!
# Equation sets

An equation set declares specs with their units and derives further variables from them by
equations. What else belongs to it differs between levels and timing and is its `setups`.
-/

set_option autoImplicit false

namespace TesterSetup

/-- A numbered bundle of declared specs and equations. -/
structure EqnSet (Setups : Type) where
  num : Nat
  description : String
  /-- The declared specs with their units. -/
  specs : OrderedMap String String
  /-- The equations: names with their expressions. -/
  equations : OrderedMap String String
  setups : Setups
  /-- The file the equation set was read from. -/
  source : Option String

namespace EqnSet

variable {Setups : Type}

instance [Inhabited Setups] : Inhabited (EqnSet Setups) := ⟨⟨0, "", .empty, .empty, default, none⟩⟩

/-- An equation set without declarations. -/
def ofNum [Inhabited Setups] (num : Nat) (description : String) : EqnSet Setups :=
  ⟨num, description, .empty, .empty, default, none⟩

/-- Declares a spec. One that is declared again keeps its place and takes the new unit. -/
def declareSpec (e : EqnSet Setups) (name unit : String) : EqnSet Setups :=
  { e with specs := e.specs.insert name unit }

/-- Adds an equation, unless there is one of that name. -/
def addEquation (e : EqnSet Setups) (name expression : String) :
    Except ModelError (EqnSet Setups) :=
  if e.equations.contains name then .error (.duplicate "EQUATION" name)
  else .ok { e with equations := e.equations.insert name expression }

/-- Whether a spec is declared. -/
def declares (e : EqnSet Setups) (spec : String) : Bool :=
  e.specs.contains spec

end EqnSet

instance {Setups : Type} : Keyed (EqnSet Setups) Nat := ⟨EqnSet.num, "EQNSET", toString⟩

end TesterSetup
