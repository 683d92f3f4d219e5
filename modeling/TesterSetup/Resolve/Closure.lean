import TesterSetup.Model.EqnSet
import TesterSetup.Model.Spec
import TesterSetup.Resolve.Traced

/-!
# Closures

The variables of a setup: first the declared specs of its equation set with their values, then the
equations, each evaluated over what stands before it. An equation with the name of a spec replaces
its value in place.
-/

set_option autoImplicit false

namespace TesterSetup

/-- The closure with a value for every declared spec, or the first spec without one. -/
def seedClosure {ε : Type} (specs : List String) (value? : String → Option Float)
    (missing : String → ε) : Except ε Variables :=
  specs.foldlM
    (fun closure name =>
      match value? name with
      | some value => .ok (closure.insert name value)
      | none => .error (missing name))
    .empty

/-- The declared specs of an equation set with the values of a spec set. -/
def EqnSet.seed {Setups : Type} (e : EqnSet Setups) (s : SpecSet) :
    Except ResolveError Variables :=
  seedClosure e.specs.keys (fun name => (s.specs.get? name).map Spec.actual) fun name =>
    .missingSpec name e.num s.num

/-- Evaluates equations one after the other into a closure. -/
def applyEquations (evaluate : Evaluator) (eqnset : Nat) :
    List (String × String) → Variables → Traced Variables
  | [], closure => pure closure
  | (name, expression) :: rest, closure => do
    let value ← Traced.valueOf evaluate (.equation name eqnset) expression closure
    applyEquations evaluate eqnset rest (closure.insert name value)

/-- The closure of an equation set over seeded variables. -/
def EqnSet.close {Setups : Type} (e : EqnSet Setups) (evaluate : Evaluator)
    (closure : Variables) : Traced Variables :=
  applyEquations evaluate e.num e.equations.entries closure

/-- The values of several pins by name. -/
abbrev PinTable (κ ν : Type) := OrderedMap String (OrderedMap κ ν)

/-- Writes one value for each pin of a list. -/
def PinTable.writeAll {κ ν : Type} [DecidableEq κ] (t : PinTable κ ν) (pins : List String)
    (name : κ) (value : ν) : PinTable κ ν :=
  pins.foldl (fun t pin => t.insert pin (((t.get? pin).getD .empty).insert name value)) t

end TesterSetup
