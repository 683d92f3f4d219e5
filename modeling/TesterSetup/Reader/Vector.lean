import TesterSetup.Model.Topology
import TesterSetup.Model.Vectors
import TesterSetup.Reader.Shared

/-!
# Vector files

The sequencer records of a vector file, one a line: memory areas (`DMAS`), labels (`SQLB`) and
instructions (`SQPG`). Vector data follows them and is not read: the records end at the first
empty line, and in a file with a MAIN label at its `STOP` instruction.
-/

set_option autoImplicit false

namespace TesterSetup

open TesterSetup.Text

namespace Form

/-- One or more characters of a kind up to a comma, and what follows the comma. -/
def field? (p : Char → Bool) (s : List Char) : Option (String × List Char) :=
  match s.takeWhile p, s.dropWhile p with
  | c :: field, ',' :: rest => some (String.ofList (c :: field), rest)
  | _, _ => none

/-- All up to a comma, and what follows the comma. -/
def anyField? (s : List Char) : Option (String × List Char) :=
  match s.dropWhile (· != ',') with
  | ',' :: rest => some (String.ofList (s.takeWhile (· != ',')), rest)
  | _ => none

/-- A quoted text and a comma, and what follows the comma. -/
def quotedField? (s : List Char) : Option (String × List Char) := do
  match ← quoted? s with
  | (text, ',' :: rest) => some (String.ofList text, rest)
  | _ => none

/-- A port in parentheses up to the end. -/
def port? : List Char → Option String
  | '(' :: s =>
    let isPort := fun c => isWord c || c == '@'
    match s.takeWhile isPort, s.dropWhile isPort with
    | c :: port, [')'] => some (String.ofList (c :: port))
    | _, _ => none
  | _ => none

end Form

/-- The forms of a record, with numbers and names as they are written. -/
inductive RecordLine where
  | memory (area memory size port : String)
  | label (name kind start stop wavetableOrSync port : String)
  | instruction (cmdNo opcode operand1 operand2 memory port : String)
  deriving DecidableEq, Repr

/-- `DMAS area,memory,size,(port)`. -/
def RecordLine.memory? (s : List Char) : Option RecordLine := do
  let s ← Form.afterKeyword? "DMAS" s
  let (area, s) ← Form.field? isWord s
  let (mem, s) ← Form.field? isWord s
  let (size, s) ← Form.field? isDigit s
  let port ← Form.port? s
  return .memory area mem size port

/-- `SQLB "name",kind,start,stop,"wavetable or sync group"` with or without `,(port)`. -/
def RecordLine.label? (s : List Char) : Option RecordLine := do
  let s ← Form.afterKeyword? "SQLB" s
  let (name, s) ← Form.quotedField? s
  let (kind, s) ← Form.field? isWord s
  let (start, s) ← Form.field? isDigit s
  let (stop, s) ← Form.field? isDigit s
  let (text, s) ← Form.quoted? s
  let port ←
    match s with
    | [] => some everyPinPort
    | ',' :: s => Form.port? s
    | _ => none
  if name = "" then none else some (.label name kind start stop (String.ofList text) port)

/-- `SQPG number,instruction,operand,operand,memory,(port)`. -/
def RecordLine.instruction? (s : List Char) : Option RecordLine := do
  let s ← Form.afterKeyword? "SQPG" s
  let (cmdNo, s) ← Form.field? isDigit s
  let (opcode, s) ← Form.field? isWord s
  let (operand1, s) ← Form.anyField? s
  let (operand2, s) ← Form.anyField? s
  let (mem, s) ← Form.anyField? s
  let port ← Form.port? s
  return .instruction cmdNo opcode operand1 operand2 mem port

/-- The form of a record. -/
def RecordLine.ofText? (line : String) : Option RecordLine :=
  let s := line.toList
  (memory? s).orElse fun _ => (label? s).orElse fun _ => instruction? s

/-- A record of a vector file. -/
inductive VectorRecord where
  | memory (r : MemoryRecord)
  | label (r : LabelRecord)
  | instruction (i : Instruction)
  deriving DecidableEq, Repr

namespace VectorRecord

/-- Reads a number below a bound. -/
def readBounded (bound : Nat) (text : String) : Except Complaint Nat :=
  match readNat? bound text with
  | some n => .ok n
  | none => .error (.invalidNumber text)

/-- The record that a line writes. -/
def ofForm (line : String) : RecordLine → LineResult VectorRecord
  | .memory area mem size port => do
    let area ← ofModel (MemoryArea.ofText area)
    let size ← ofLine line (readBounded (widthBound 64) size)
    return .memory ⟨area, mem, size, port⟩
  | .label name kind start stop wavetableOrSync port => do
    let kind ← ofModel (LabelKind.ofText kind)
    let start ← ofLine line (readBounded (widthBound 32) start)
    let stop ← ofLine line (readBounded (widthBound 32) stop)
    return .label ⟨name, kind, start, stop, wavetableOrSync, port⟩
  | .instruction cmdNo opcode operand1 operand2 mem port => do
    let opcode ← ofModel (Opcode.ofText opcode)
    let cmdNo ← ofLine line (readBounded (widthBound 32) cmdNo)
    return .instruction ⟨cmdNo, opcode, operand1, operand2, mem, port⟩

/-- The record of a line. -/
def ofText (line : String) : LineResult VectorRecord :=
  match RecordLine.ofText? line with
  | some form => ofForm line form
  | none => Complaint.noPlacement.about line

/-- Whether a record defines a MAIN label. -/
def isMain : VectorRecord → Bool
  | .label r => r.kind == .main
  | _ => false

/-- Whether a record is a `STOP` instruction. -/
def isStop : VectorRecord → Bool
  | .instruction i => i.opcode == .stop
  | _ => false

/-- What lines of records start with that carry nothing about sequences. -/
def skippedRecords : List String :=
  ["STML", "SQLA"]

/-- The records of lines up to the first empty one, or up to `STOP` once a MAIN label was
defined. -/
def readAll (origin : String) (mainSeen : Bool) : List Line → Except ReadError (List VectorRecord)
  | [] => .ok []
  | line :: rest =>
    if line.text = "" then .ok []
    else if skippedRecords.any (Form.startsWith line.text) then readAll origin mainSeen rest
    else
      match ofText line.text with
      | .error e => .error (.line ⟨origin, line.number⟩ e)
      | .ok record =>
        let mainSeen := mainSeen || record.isMain
        if record.isStop && mainSeen then .ok [record]
        else do return record :: (← readAll origin mainSeen rest)

end VectorRecord

namespace VectorFile

/-- The vector file of a list of records. -/
def ofRecords (records : List VectorRecord) : VectorFile where
  path := none
  memories := records.filterMap fun
    | .memory r => some r
    | _ => none
  labels := records.filterMap fun
    | .label r => some r
    | _ => none
  instructions := records.filterMap fun
    | .instruction i => some i
    | _ => none

/-- The name of the language in a header. -/
def language : String := "vector"

/-- The header of a vector file. -/
def header : String := "hp93000,vector,0.1"

/-- Reads the sequencer records of a vector file. The origin names the text in errors. -/
def parse (text origin : String) : Except ReadError VectorFile := do
  let lines ← afterHeader origin header (isHeader · language) (numberedLines text)
  return ofRecords (← VectorRecord.readAll origin false lines)

end VectorFile

end TesterSetup
