import TesterSetup.Resolve.Timing

/-!
# Resolving specifications

Every port of a multi-port specification gets a closure of its own: the specs that its equation set
declares take the port's value, or else the value for all ports. A value for the port alone has to
be declared; one for all ports need not.
-/

set_option autoImplicit false

namespace TesterSetup

/-- The resolved timing of one port. -/
structure PortResolution where
  eqnset : Nat
  timingset : Nat
  wavetable : String
  closure : Variables
  pinEdges : PinEdges
  deriving Inhabited

/-- The resolved timing of all ports of a specification. -/
structure MultiportResolution where
  specification : String
  ports : OrderedMap String PortResolution
  deriving Inhabited

/-- The timing set of each port: one for all of them, or one for each. -/
def Specification.timingSets (s : Specification) : List Nat → Except ResolveError (List Nat)
  | [one] => .ok (List.replicate s.portsets.size one)
  | all =>
    if all.length = s.portsets.size then .ok all
    else .error (.timingSetCount s.name s.portsets.size all.length)

/-- The values of a container by name. -/
def actuals (specs : Container Spec) (name : String) : Option Float :=
  (specs.get? name).map Spec.actual

/-- The declared specs of an equation set with the values for a port. -/
def PortSet.seed (p : PortSet) (specification : String) (globals : Container Spec)
    (e : TimingEqnSet) : Except ResolveError Variables := do
  match p.specs.items.find? fun spec => !e.declares spec.name with
  | some undeclared => .error (.undeclaredLocalSpec undeclared.name p.port e.num)
  | none =>
    seedClosure e.specs.keys
      (fun name => (actuals p.specs name).or (actuals globals name)) fun name =>
        .unresolvedGlobalSpec name p.port specification

/-- Resolves the timing of one port. -/
def PortSet.resolve (evaluate : Evaluator) (timing : Timing) (specification : String)
    (globals : Container Spec) (p : PortSet) (timingset : Nat) : Traced PortResolution := do
  let e ← Traced.ofModel (timing.eqnsets.require p.eqnset)
  let closure ← e.close evaluate (← Traced.lift (p.seed specification globals e))
  let t ← Traced.ofModel (e.setups.timingsets.require timingset)
  return ⟨e.num, timingset, p.wavetable, closure, ← t.resolve evaluate e.num closure⟩

/-- Resolves ports one after the other. -/
def resolvePorts (evaluate : Evaluator) (timing : Timing) (specification : String)
    (globals : Container Spec) : List (PortSet × Nat) → OrderedMap String PortResolution →
      Traced (OrderedMap String PortResolution)
  | [], ports => pure ports
  | (p, timingset) :: rest, ports => do
    let port ← p.resolve evaluate timing specification globals timingset
    resolvePorts evaluate timing specification globals rest (ports.insert p.port port)

/-- Resolves all ports of a specification with the timing set or sets given for them. -/
def Timing.resolveSpecification (evaluate : Evaluator) (timing : Timing) (specification : String)
    (timingsets : List Nat) : Traced MultiportResolution := do
  let s ← Traced.ofModel (timing.specifications.require specification)
  let timingsets ← Traced.lift (s.timingSets timingsets)
  let ports ← resolvePorts evaluate timing s.name s.specs (s.portsets.items.zip timingsets) .empty
  return ⟨specification, ports⟩

end TesterSetup
