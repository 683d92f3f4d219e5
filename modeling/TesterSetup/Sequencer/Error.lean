import TesterSetup.Model.Vectors
import TesterSetup.Reader.Error

/-!
# Label errors

Why a label cannot be assembled, costed or found. A label that cannot be found, is found twice or
cannot be read may be passed over; all other errors mean that the records are inconsistent.
-/

set_option autoImplicit false

namespace TesterSetup

/-- Why the records of a vector file do not form a label. -/
inductive LabelComplaint where
  | noRecord
  | mixedKinds
  | memoryRecordCount (found : Nat)
  | labelRecordCount (found : Nat)
  | noSequencerMemory
  | commandCount (expected found : Nat)
  | burstRecordCounts (memories labels : Nat)
  | secondName (name : String)
  | portWithoutMemory (port : String)
  /-- Two records for one port. -/
  | repeatedPort (cause : ModelError)
  deriving DecidableEq, Repr

/-- The text of a complaint about a label. -/
def LabelComplaint.message : LabelComplaint → String
  | .noRecord => "no SQLB record"
  | .mixedKinds => "mixes MAIN and MPBU records"
  | .memoryRecordCount found => s!"expected 2 or 3 DMAS records, found {found}"
  | .labelRecordCount found => s!"expected one SQLB record, found {found}"
  | .noSequencerMemory => "no SQPG or PARA DMAS record"
  | .commandCount expected found =>
    s!"SQLB spans {expected} commands but {found} SQPG records were read"
  | .burstRecordCounts memories labels =>
    s!"{memories} DMAS records for {labels} SQLB records"
  | .secondName name => s!"burst records name two labels ('{name}')"
  | .portWithoutMemory port => s!"port '{port}' has no DMAS record"
  | .repeatedPort cause => cause.message

/-- Why a label has no program, no cost or no file. -/
inductive LabelError where
  /-- Two ports share a pin. -/
  | duplicatePin (pin first second : String)
  /-- Several files may hold the label. -/
  | ambiguous (label : String) (candidates : List String)
  | missing (label : String)
  /-- A burst was called. -/
  | notMain (label : String)
  | portMismatch (label expected found : String)
  | unknownPort (port : String)
  | malformed (label : String) (complaint : LabelComplaint)
  /-- A program without `STOP` or `BEND`. -/
  | missingTerminal (label port : String)
  /-- An instruction that has no place in a burst. -/
  | unexpectedInstruction (label port : String) (cmdNo : Nat) (opcode : Opcode)
  | invalidOperand (label : String) (cmdNo : Nat) (opcode : Opcode) (operand : String)
  /-- A count that leaves the range of counters. -/
  | countOverflow (label : String)
  /-- The file of a label cannot be read. -/
  | unreadable (label : String) (cause : ReadError)
  deriving DecidableEq, Repr

namespace LabelError

/-- The text of a label error, without that of the reading error behind it. -/
def message : LabelError → String
  | .duplicatePin pin first second =>
    s!"pin '{pin}' is claimed by ports '{first}' and '{second}'"
  | .ambiguous label candidates => s!"label '{label}' found in {candidates.length} files"
  | .missing label => s!"label '{label}' not found"
  | .notMain label => s!"label '{label}' is not a MAIN label"
  | .portMismatch label expected found =>
    s!"port mismatch in label '{label}': expected '{expected}', found '{found}'"
  | .unknownPort port => s!"port '{port}' is not defined in the pin topology"
  | .malformed label complaint => s!"malformed label '{label}': {complaint.message}"
  | .missingTerminal label port =>
    s!"program of label '{label}' on port '{port}' has no terminating instruction"
  | .unexpectedInstruction label port cmdNo opcode =>
    s!"unexpected {opcode.mnemonic} at command {cmdNo} of label '{label}' on port '{port}'"
  | .invalidOperand label cmdNo opcode operand =>
    s!"invalid operand '{operand}' for {opcode.mnemonic} at command {cmdNo} of label '{label}'"
  | .countOverflow label => s!"vector or cycle count of label '{label}' overflows"
  | .unreadable label _ => s!"cannot load label '{label}'"

/-- Whether other labels may still be used. -/
def isRecoverable : LabelError → Bool
  | .ambiguous .. => true
  | .missing _ => true
  | .unreadable .. => true
  | _ => false

end LabelError

end TesterSetup
