import TesterSetup.Model.Topology
import TesterSetup.Sequencer.Cost

/-!
# Costs of bursts and pins

Every port of a burst calls MAIN labels one after the other and costs what they cost together. The
cost of a called label is looked up by a function that may have effects (it may read files); it is
asked port by port, call by call. The rows of a report give each pin the cost of the port that
owns it.
-/

set_option autoImplicit false

namespace TesterSetup

/-- What a port of a burst has cost. -/
structure PortCost where
  vectors : Nat
  cycles : Nat
  labels : Nat
  deriving DecidableEq, Inhabited, Repr

namespace PortCost

/-- The cost of a port that has called nothing. -/
def zero : PortCost := ⟨0, 0, 0⟩

/-- Counts one called label for a burst, one counter after the other. A sum that leaves the range
ends it; the counters before it keep their sums. -/
def addLabel (burst : String) (total : PortCost) (cost : Cost) : PortCost × Option LabelError :=
  match fits? (total.vectors + cost.vectors) with
  | none => (total, some (.countOverflow burst))
  | some vectors =>
    match fits? (total.cycles + cost.cycles) with
    | none => ({ total with vectors }, some (.countOverflow burst))
    | some cycles =>
      match fits? (total.labels + 1) with
      | none => ({ total with vectors, cycles }, some (.countOverflow burst))
      | some labels => (⟨vectors, cycles, labels⟩, none)

end PortCost

/-- The labels that instructions call before the first `BEND`. -/
def callTargets : List Instruction → List String
  | [] => []
  | i :: rest =>
    if i.opcode = .bend then []
    else
      match i.callTarget with
      | some target => target :: callTargets rest
      | none => callTargets rest

variable {m : Type → Type} [Monad m]

/-- Adds the costs of called labels to what a port has cost. -/
def sumCalls (burst : String) (labelCost : String → ExceptT LabelError m Cost)
    (total : PortCost) : List String → ExceptT LabelError m PortCost
  | [] => pure total
  | target :: rest => do
    let cost ← labelCost target
    match total.addLabel burst cost with
    | (_, some e) => throw e
    | (total, none) => sumCalls burst labelCost total rest

/-- Adds the costs of ports to those of the ports before them. -/
def costPorts (burst : String) (labelCost : String → ExceptT LabelError m Cost)
    (costs : OrderedMap String PortCost) :
    List BurstPort → ExceptT LabelError m (OrderedMap String PortCost)
  | [] => pure costs
  | p :: rest => do
    let cost ← sumCalls burst labelCost .zero (callTargets p.program.commands.values)
    costPorts burst labelCost (costs.insert p.name cost) rest

/-- The cost of every port of a burst. -/
def BurstLabel.portCosts (b : BurstLabel) (labelCost : String → ExceptT LabelError m Cost) :
    ExceptT LabelError m (OrderedMap String PortCost) :=
  costPorts b.name labelCost .empty b.ports.items

/-! ### Pins -/

/-- Gives pins to a port, unless one of them has an owner. -/
def assignPins (port : String) (owners : OrderedMap String String) :
    List String → Except LabelError (OrderedMap String String)
  | [] => .ok owners
  | pin :: rest =>
    match owners.get? pin with
    | some first => .error (.duplicatePin pin first port)
    | none => assignPins port (owners.insert pin port) rest

/-- The owners of the pins of ports, added to those before them. -/
def ownersFrom (topology : PinTopology) (owners : OrderedMap String String) :
    List String → Except LabelError (OrderedMap String String)
  | [] => .ok owners
  | port :: rest =>
    match topology.portPins port with
    | none => .error (.unknownPort port)
    | some pins => do
      let owners ← assignPins port owners pins
      ownersFrom topology owners rest

/-- The port that owns each pin of a list of ports. -/
def PinTopology.pinOwners (topology : PinTopology) (ports : List String) :
    Except LabelError (OrderedMap String String) :=
  ownersFrom topology .empty ports

/-- What a pin has cost. -/
structure PinRow where
  port : String
  cost : PortCost
  deriving DecidableEq, Inhabited, Repr

/-- The rows of pins from their owners and the costs of these. -/
def pinRows (owners : OrderedMap String String) (costs : OrderedMap String PortCost) :
    OrderedMap String PinRow :=
  owners.map fun port => ⟨port, (costs.get? port).getD .zero⟩

/-- What a MAIN label costs on its port. -/
def MainLabel.portCost (l : MainLabel) : PortCost :=
  ⟨l.program.vectors, l.program.cycles, 1⟩

/-- The rows of a MAIN label: every pin of its port ran it once. -/
def MainLabel.rows (l : MainLabel) (topology : PinTopology) :
    Except LabelError (OrderedMap String PinRow) := do
  let owners ← topology.pinOwners [l.port]
  return owners.map fun port => ⟨port, l.portCost⟩

/-- The rows of a burst. Owners are settled before any label is costed. -/
def BurstLabel.rows (b : BurstLabel) (topology : PinTopology)
    (labelCost : String → ExceptT LabelError m Cost) :
    ExceptT LabelError m (OrderedMap String PinRow) := do
  let owners ← ExceptT.mk (pure (topology.pinOwners b.ports.keys))
  return pinRows owners (← b.portCosts labelCost)

end TesterSetup
