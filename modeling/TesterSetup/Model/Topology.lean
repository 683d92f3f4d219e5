import TesterSetup.Model.Error
import TesterSetup.OrderedMap

/-!
# Pin topology

Which pins and supplies a device has and how pins are grouped into ports. The port `@` is always
there and holds every pin.
-/

set_option autoImplicit false

namespace TesterSetup

/-- The names of a list, each where it stands first. -/
def distinct (names : List String) : List String :=
  (OrderedMap.ofList (names.map fun n => (n, ()))).keys

/-- The port that holds every pin. -/
def everyPinPort : String := "@"

/-- The pins, supplies and ports of a device. -/
structure PinTopology where
  pins : List String
  supplies : List String
  ports : OrderedMap String (List String)
  deriving Inhabited

namespace PinTopology

/-- A topology without ports. Repeated names count once. -/
def ofPins (pins supplies : List String) : PinTopology :=
  ⟨distinct pins, distinct supplies, .empty⟩

/-- Whether a pin exists. -/
def isPin (t : PinTopology) (name : String) : Bool :=
  t.pins.contains name

/-- Whether a supply exists. -/
def isSupply (t : PinTopology) (name : String) : Bool :=
  t.supplies.contains name

/-- Defines a port of known pins under a name that is free. -/
def addPort (t : PinTopology) (name : String) (members : List String) :
    Except ModelError PinTopology :=
  if name = everyPinPort ∨ t.ports.contains name = true then .error (.duplicate "port" name)
  else
    match members.find? fun pin => !t.isPin pin with
    | some pin => .error (.notFound "pin" (pin ++ " (port " ++ name ++ ")"))
    | none => .ok { t with ports := t.ports.insert name (distinct members) }

/-- The names of the defined ports, which do not include `@`. -/
def portNames (t : PinTopology) : List String :=
  t.ports.keys

/-- The pins of a port. -/
def portPins (t : PinTopology) (port : String) : Option (List String) :=
  if port = everyPinPort then some t.pins else t.ports.get? port

end PinTopology

end TesterSetup
