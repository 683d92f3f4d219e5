import TesterSetup.Container
import TesterSetup.OrderedMap

/-!
# Vector files and labels

A vector file lists memory areas, label definitions and sequencer instructions. A `Label` is what
these make together: a MAIN label is one program on one port, a burst (MPBU) one program on each
of several ports.
-/

set_option autoImplicit false

namespace TesterSetup

/-- A sequencer instruction's operation. -/
inductive Opcode where
  | bend | brkv | call | clev | cogo | ctim | flqu | genv | jmpe | jpps | jsub | jtin | lbgn | lend
  | lpbk | mact | mbgn | meas | mend | mjpe | mrpt | nop | prbs | retc | rgop | rptj | rptv | rsjp
  | rsub | srcv | ssrc | stop | stsa | stva | tmua | wait | wter | xact
  deriving DecidableEq, Inhabited, Repr

namespace Opcode

/-- All operations in the order of their mnemonics. -/
def all : List Opcode :=
  [bend, brkv, call, clev, cogo, ctim, flqu, genv, jmpe, jpps, jsub, jtin, lbgn, lend, lpbk, mact,
   mbgn, meas, mend, mjpe, mrpt, nop, prbs, retc, rgop, rptj, rptv, rsjp, rsub, srcv, ssrc, stop,
   stsa, stva, tmua, wait, wter, xact]

/-- The name of an operation. -/
def mnemonic : Opcode → String
  | bend => "BEND"
  | brkv => "BRKV"
  | call => "CALL"
  | clev => "CLEV"
  | cogo => "COGO"
  | ctim => "CTIM"
  | flqu => "FLQU"
  | genv => "GENV"
  | jmpe => "JMPE"
  | jpps => "JPPS"
  | jsub => "JSUB"
  | jtin => "JTIN"
  | lbgn => "LBGN"
  | lend => "LEND"
  | lpbk => "LPBK"
  | mact => "MACT"
  | mbgn => "MBGN"
  | meas => "MEAS"
  | mend => "MEND"
  | mjpe => "MJPE"
  | mrpt => "MRPT"
  | nop => "NOP"
  | prbs => "PRBS"
  | retc => "RETC"
  | rgop => "RGOP"
  | rptj => "RPTJ"
  | rptv => "RPTV"
  | rsjp => "RSJP"
  | rsub => "RSUB"
  | srcv => "SRCV"
  | ssrc => "SSRC"
  | stop => "STOP"
  | stsa => "STSA"
  | stva => "STVA"
  | tmua => "TMUA"
  | wait => "WAIT"
  | wter => "WTER"
  | xact => "XACT"

/-- The operation with a mnemonic. -/
def ofText (s : String) : Except ModelError Opcode :=
  match all.find? fun op => op.mnemonic == s with
  | some op => .ok op
  | none => .error (.inconsistent s!"unknown sequencer instruction '{s}'")

/-- Whether an operation ends a program. -/
def isTerminal (op : Opcode) : Bool :=
  op == stop || op == bend

end Opcode

/-- A sequencer instruction. -/
structure Instruction where
  /-- Its command number. -/
  cmdNo : Nat
  opcode : Opcode
  operand1 : String
  operand2 : String
  memory : String
  port : String
  deriving DecidableEq, Inhabited, Repr

/-- A text without the quotes on both sides. -/
def dropQuotes (s : String) : String :=
  let isQuote := fun c => c == '"'
  String.ofList ((s.toList.dropWhile isQuote).reverse.dropWhile isQuote).reverse

/-- The label that a call names. -/
def Instruction.callTarget (i : Instruction) : Option String :=
  match i.opcode with
  | .call => some (dropQuotes i.operand2)
  | _ => none

/-- A kind of pattern memory. -/
inductive MemoryArea where
  | mtst
  | para
  | sqpg
  deriving DecidableEq, Inhabited, Repr

/-- The memory area with a name. -/
def MemoryArea.ofText (s : String) : Except ModelError MemoryArea :=
  if s = "MTST" then .ok .mtst
  else if s = "PARA" then .ok .para
  else if s = "SQPG" then .ok .sqpg
  else .error (.inconsistent s!"unknown DMAS area '{s}'")

/-- A stretch of pattern memory. -/
structure MemoryRecord where
  area : MemoryArea
  memory : String
  size : Nat
  port : String
  deriving DecidableEq, Inhabited, Repr

/-- Whether a label definition is a pattern on one port or one port of a burst. -/
inductive LabelKind where
  | main
  | burst
  deriving DecidableEq, Inhabited, Repr

/-- The kind of label with a name. -/
def LabelKind.ofText (s : String) : Except ModelError LabelKind :=
  if s = "MAIN" then .ok .main
  else if s = "MPBU" then .ok .burst
  else .error (.inconsistent s!"unsupported label type '{s}'")

/-- A label definition: the commands from `start` to `stop` on a port. -/
structure LabelRecord where
  name : String
  kind : LabelKind
  start : Nat
  stop : Nat
  /-- The wave table of a MAIN label, the sync group of a burst's port. -/
  wavetableOrSync : String
  port : String
  deriving DecidableEq, Inhabited, Repr

/-- The records of a vector file. -/
structure VectorFile where
  path : Option String
  memories : List MemoryRecord
  labels : List LabelRecord
  instructions : List Instruction
  deriving DecidableEq, Inhabited, Repr

/-- Instructions in the order of execution with what running them costs. -/
structure Program where
  label : String
  port : String
  /-- The instructions by command number. -/
  commands : OrderedMap Nat Instruction
  vectors : Nat
  cycles : Nat
  deriving Inhabited

namespace Program

/-- A program without instructions. -/
def empty (label port : String) : Program :=
  ⟨label, port, .empty, 0, 0⟩

/-- The number of its first command. -/
def firstCmdNo? (p : Program) : Option Nat :=
  p.commands.keys.head?

/-- The number of its last command. -/
def lastCmdNo? (p : Program) : Option Nat :=
  p.commands.keys.getLast?

end Program

/-- A pattern on one port. -/
structure MainLabel where
  name : String
  path : Option String
  port : String
  start : Nat
  stop : Nat
  wavetable : String
  program : Program
  deriving Inhabited

/-- One port of a burst. -/
structure BurstPort where
  name : String
  memory : String
  seqSize : Nat
  syncGroup : String
  program : Program
  deriving Inhabited

instance : Keyed BurstPort String := ⟨BurstPort.name, "port", id⟩

/-- A pattern on several ports. -/
structure BurstLabel where
  name : String
  path : Option String
  ports : Container BurstPort
  deriving Inhabited

/-- A pattern. -/
inductive Label where
  | main (label : MainLabel)
  | burst (label : BurstLabel)
  deriving Inhabited

/-- The name of a pattern. -/
def Label.name : Label → String
  | .main l => l.name
  | .burst l => l.name

end TesterSetup
