import TesterSetup.Sequencer.Cost

/-!
# Assembling labels

A vector file holds one MAIN label or the records of one burst, one for each port. `assemble`
checks that its records belong together and builds the programs.
-/

set_option autoImplicit false

namespace TesterSetup

/-- A record's label is malformed. -/
def LabelRecord.malformed {α : Type} (r : LabelRecord) (complaint : LabelComplaint) :
    Except LabelError α :=
  .error (.malformed r.name complaint)

/-- The number of commands from a record's start to its stop, in 32 bits. -/
def LabelRecord.span (r : LabelRecord) : Nat :=
  (r.stop - r.start + 1) % Text.widthBound 32

namespace VectorFile

/-- What a file is called when it has no label. -/
def displayName (f : VectorFile) : String :=
  f.path.getD "<vector text>"

/-- The port that all records of a MAIN label's sequencer memory have. -/
def sequencerPort (f : VectorFile) (r : LabelRecord) : Except LabelError String :=
  match f.memories.filter fun m => m.area != .mtst with
  | [] => r.malformed .noSequencerMemory
  | first :: rest =>
    match rest.find? fun m => m.port != first.port with
    | some other => .error (.portMismatch r.name first.port other.port)
    | none =>
      if r.port = first.port then .ok first.port
      else .error (.portMismatch r.name first.port r.port)

/-- The MAIN label of a record. -/
def assembleMain (f : VectorFile) (r : LabelRecord) : Except LabelError MainLabel := do
  if f.memories.length < 2 ∨ 3 < f.memories.length then
    r.malformed (.memoryRecordCount f.memories.length)
  else if f.labels.length ≠ 1 then r.malformed (.labelRecordCount f.labels.length)
  else
    let port ← f.sequencerPort r
    if f.instructions.length ≠ r.span then
      r.malformed (.commandCount r.span f.instructions.length)
    else
      let program ← Program.build r.name port f.instructions r.start r.stop
      return ⟨r.name, f.path, port, r.start, r.stop, r.wavetableOrSync, program⟩

/-- The part of a burst that a record describes. -/
def assemblePort (f : VectorFile) (r : LabelRecord) : Except LabelError BurstPort :=
  match f.memories.find? fun m => m.port == r.port with
  | none => r.malformed (.portWithoutMemory r.port)
  | some m => do
    let own := f.instructions.filter fun i => i.port == r.port
    let program ← Program.build r.name r.port own r.start r.stop
    match program.commands.values.find? fun i => i.opcode != .call && i.opcode != .bend with
    | some other => throw (.unexpectedInstruction r.name r.port other.cmdNo other.opcode)
    | none => return ⟨r.port, m.memory, m.size, r.wavetableOrSync, program⟩

/-- The ports of a burst's records, added to those before them. -/
def assemblePorts (f : VectorFile) (first : LabelRecord) (ports : Container BurstPort) :
    List LabelRecord → Except LabelError (Container BurstPort)
  | [] => .ok ports
  | r :: rest =>
    if r.name ≠ first.name then first.malformed (.secondName r.name)
    else do
      let port ← f.assemblePort r
      match ports.add port with
      | .ok ports => f.assemblePorts first ports rest
      | .error cause => r.malformed (.repeatedPort cause)

/-- The burst of a file's records. -/
def assembleBurst (f : VectorFile) (first : LabelRecord) : Except LabelError BurstLabel :=
  if f.memories.length ≠ f.labels.length then
    first.malformed (.burstRecordCounts f.memories.length f.labels.length)
  else do
    let ports ← f.assemblePorts first .empty f.labels
    return ⟨first.name, f.path, ports⟩

/-- The label of a vector file. -/
def assemble (f : VectorFile) : Except LabelError Label :=
  match f.labels with
  | [] => .error (.malformed f.displayName .noRecord)
  | first :: _ =>
    if f.labels.any fun r => r.kind != first.kind then first.malformed .mixedKinds
    else
      match first.kind with
      | .main => Label.main <$> f.assembleMain first
      | .burst => Label.burst <$> f.assembleBurst first

end VectorFile

end TesterSetup
