import TesterSetup.Sequencer.Error
import TesterSetup.Text.Blank
import TesterSetup.Text.Numeral

/-!
# Costs of programs

`GENV n` emits `n` vectors in `n` cycles, `RPTV n,r` emits `n` vectors in `n * r` cycles; every
other instruction costs nothing. Counters hold numbers below `2 ^ 64`, and a sum that does not fit
is an error. `Program.build` records the instructions of a range up to the one that ends the
program, with what they cost.
-/

set_option autoImplicit false

namespace TesterSetup

/-- Counters hold numbers below this bound. -/
def counterBound : Nat := Text.widthBound 64

/-- A count that fits a counter. -/
def fits? (n : Nat) : Option Nat :=
  if n < counterBound then some n else none

/-- Vectors and cycles. -/
structure Cost where
  vectors : Nat
  cycles : Nat
  deriving DecidableEq, Inhabited, Repr

namespace Cost

/-- The cost of nothing. -/
def zero : Cost := ⟨0, 0⟩

/-- The sum of two costs, if it fits the counters. -/
def add? (a b : Cost) : Option Cost := do
  return ⟨← fits? (a.vectors + b.vectors), ← fits? (a.cycles + b.cycles)⟩

/-- The sum of two costs for a label. -/
def add (label : String) (a b : Cost) : Except LabelError Cost :=
  match a.add? b with
  | some sum => .ok sum
  | none => .error (.countOverflow label)

end Cost

/-- The cost of a program. -/
def Program.cost (p : Program) : Cost :=
  ⟨p.vectors, p.cycles⟩

namespace Instruction

/-- The count that an operand gives. -/
def count (label : String) (i : Instruction) (operand : String) : Except LabelError Nat :=
  match Text.readNat? counterBound (Text.trimmed operand) with
  | some n => .ok n
  | none => .error (.invalidOperand label i.cmdNo i.opcode operand)

/-- The cost of an instruction. -/
def cost (label : String) (i : Instruction) : Except LabelError Cost :=
  match i.opcode with
  | .genv => do
    let n ← i.count label i.operand1
    return ⟨n, n⟩
  | .rptv => do
    let n ← i.count label i.operand1
    let repeats ← i.count label i.operand2
    match fits? (n * repeats) with
    | some cycles => return ⟨n, cycles⟩
    | none => throw (.countOverflow label)
  | _ => .ok .zero

end Instruction

/-- The cost of instructions up to the first `STOP`, added to what was counted before. -/
def costUpToStop (label : String) (counted : Cost) : List Instruction → Except LabelError Cost
  | [] => .ok counted
  | i :: rest =>
    if i.opcode = .stop then .ok counted
    else do
      let cost ← i.cost label
      let counted ← counted.add label cost
      costUpToStop label counted rest

/-- The cost of a MAIN label's instructions. -/
def interpretMain (label : String) (instructions : List Instruction) : Except LabelError Cost :=
  costUpToStop label .zero instructions

namespace Program

/-- Records an instruction with its cost. -/
def record (p : Program) (i : Instruction) : Except LabelError Program := do
  let cost ← i.cost p.label
  let total ← p.cost.add p.label cost
  return { p with
    commands := p.commands.insert i.cmdNo i
    vectors := total.vectors
    cycles := total.cycles }

/-- Records the instructions with numbers from `start` to `stop`, up to the one that ends the
program. -/
def extend (start stop : Nat) (p : Program) : List Instruction → Except LabelError Program
  | [] => .error (.missingTerminal p.label p.port)
  | i :: rest =>
    if start ≤ i.cmdNo ∧ i.cmdNo ≤ stop then
      if i.port = p.port then do
        let p ← p.record i
        if i.opcode.isTerminal then return p else p.extend start stop rest
      else .error (.portMismatch p.label p.port i.port)
    else p.extend start stop rest

/-- The program of a label on a port. -/
def build (label port : String) (instructions : List Instruction) (start stop : Nat) :
    Except LabelError Program :=
  (empty label port).extend start stop instructions

end Program

end TesterSetup
