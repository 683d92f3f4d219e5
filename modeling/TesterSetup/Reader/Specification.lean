import TesterSetup.Model.Timing
import TesterSetup.Reader.Shared

/-!
# Specification blocks

A multi-port specification is a block in braces. Before its first `EQNSET` line stand the values
and the check mode that hold for all ports; each `EQNSET` line opens the part of one port. A
`SpecificationBlock` is a block that has not been closed yet, with the count of its open braces.
-/

set_option autoImplicit false

namespace TesterSetup

open TesterSetup.Text

namespace Form

/-- `SPECIFICATION name` with or without an opening brace: the name as it is written and whether
there is a brace. A name of nothing but blanks takes two of them. -/
def specification? (s : List Char) : Option (String × Bool) := do
  let after ← strip? "SPECIFICATION".toList s
  let text := dropBlanks after
  let blanks := after.length - text.length
  let brace := text.getLast? == some '\x7b'
  let name := dropBlanksRight (if brace then text.dropLast else text)
  if blanks = 0 ∨ '\x7b' ∈ name then none
  else if name = [] ∧ blanks < 2 then none
  else some (String.ofList name, brace)

/-- A closing brace, with or without a comment. -/
def isClosing (s : List Char) : Bool :=
  match s with
  | '\x7d' :: rest =>
    match dropBlanks rest with
    | [] => true
    | c :: _ => c == '#'
  | _ => false

/-- `SYNC` with or without an opening brace: whether there is a brace. -/
def sync? (s : List Char) : Option Bool :=
  if s = "SYNC".toList then some false
  else if afterKeyword? "SYNC" s = some ['\x7b'] then some true
  else none

end Form

/-- The lines of a specification block. -/
inductive SpecificationLine where
  | opening
  | textAfterBrace
  | closing
  | check (mode : String)
  | eqnset (num : String)
  | sync (brace : Bool)
  | value (value : Form.SpecValue)
  | wavetable (name : String)
  | port (name : String)
  | phase
  | sequence (group : String)
  | clock (name : String)
  | unplaced

/-- The form of a line of a specification block. -/
def SpecificationLine.ofText (line : String) : SpecificationLine :=
  let s := line.toList
  if s = ['\x7b'] then .opening
  else if s.head? = some '\x7b' then .textAfterBrace
  else if Form.isClosing s then .closing
  else if let some mode := Form.firstArgument? "CHECK" s then .check mode
  else if let some (num, _) := Form.numbered? "EQNSET" s then .eqnset num
  else if let some brace := Form.sync? s then .sync brace
  else if let some v := Form.specValue? s then .value v
  else if let some name := Form.argument? "WAVETBL" s then .wavetable (unquote name)
  else if let some name := Form.word? "PORT" s then .port name
  else if line = "PHASE" ∨ Form.startsWith line "PHASE " then .phase
  else if let some group := Form.quotedWord? "SEQUENCE" s then .sequence group
  else if let some name := Form.quotedWord? "CLOCK" s then .clock name
  else .unplaced

/-- A specification that has not been closed yet. -/
structure SpecificationBlock where
  specification : Specification
  /-- The parts of the ports, which are added when the block is closed. -/
  portsets : List PortSet
  /-- The number of open braces. -/
  depth : Nat

namespace SpecificationBlock

/-- Changes the part of the port that was opened last. -/
def inPortSet (b : SpecificationBlock) (line : String) (f : PortSet → PortSet) :
    LineResult SpecificationBlock := do
  let portsets ← updateLast b.portsets (.misfit line .portSettingBeforeEqnSet) fun p => .ok (f p)
  return { b with portsets }

/-- Adds a value for the port that was opened last, or for all ports before the first. -/
def addValue (b : SpecificationBlock) (spec : Spec) : LineResult SpecificationBlock :=
  match b.portsets.getLast? with
  | none => do
    let specs ← ofModel (b.specification.specs.add spec)
    return { b with specification := { b.specification with specs } }
  | some p => do
    let specs ← ofModel (p.specs.add spec)
    return { b with portsets := b.portsets.dropLast ++ [{ p with specs }] }

/-- Sets the check mode of the port that was opened last, or of the specification before the
first. -/
def setCheck (b : SpecificationBlock) (mode : String) : SpecificationBlock :=
  match b.portsets.getLast? with
  | none => { b with specification := { b.specification with check := mode } }
  | some p => { b with portsets := b.portsets.dropLast ++ [{ p with check := some mode }] }

/-- Places a line. The block is complete when a closing brace leaves none open. -/
def place (b : SpecificationBlock) (line : String) :
    SpecificationLine → LineResult SpecificationBlock
  | .opening => .ok { b with depth := b.depth + 1 }
  | .textAfterBrace => Complaint.textAfterBrace.about line
  | .closing =>
    if b.depth = 0 then Complaint.unbalancedBrace.about line
    else .ok { b with depth := b.depth - 1 }
  | .check mode => .ok (b.setCheck mode)
  | .eqnset num => do
    let num ← ofLine line (readSetNum num)
    return { b with portsets := b.portsets ++ [.ofEqnSet num] }
  | .sync brace => .ok { b with depth := if brace then b.depth + 1 else b.depth }
  | .value value => do
    let spec ← ofLine line value.spec
    b.addValue spec
  | .wavetable name => b.inPortSet line fun p => { p with wavetable := name }
  | .port name => b.inPortSet line fun p => { p with port := name }
  | .phase => b.inPortSet line fun p => { p with phase := true }
  | .sequence group => b.inPortSet line fun p => { p with sequence := some group }
  | .clock name => b.inPortSet line fun p => { p with clock := some name }
  | .unplaced => b.inPortSet line id >>= fun _ => Complaint.noPlacementInSpecification.about line

/-- The specification of a closed block: its ports, each of which has to have a name of its
own. -/
def complete (b : SpecificationBlock) (line : String) : LineResult Specification :=
  b.portsets.foldlM
    (fun s p =>
      if p.port = "" then (Complaint.portSetWithoutPort p.eqnset s.name).about line
      else do
        let portsets ← ofModel (s.portsets.add p)
        return { s with portsets })
    b.specification

end SpecificationBlock

end TesterSetup
