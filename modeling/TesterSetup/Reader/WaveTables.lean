import TesterSetup.Model.Timing
import TesterSetup.Reader.Shared

/-!
# The wave table section

The lines of a timing file's wave table section: tables, the ports and pins they are for, waveforms
with their edges, and state maps. `WaveTableLine` is the form of a line.
-/

set_option autoImplicit false

namespace TesterSetup

open TesterSetup.Text

namespace Form

/-- An ASCII hexadecimal digit. -/
def isHexDigit (c : Char) : Bool :=
  isAsciiDigit c || ('a' ≤ c && c ≤ 'f') || ('A' ≤ c && c ≤ 'F')

/-- `index "edges" cycle`: a waveform. -/
def waveform? (s : List Char) : Option (String × String × String) := do
  let index := s.takeWhile isHexDigit
  match index, s.dropWhile isHexDigit with
  | _ :: _, c :: rest =>
    if isBlank c then do
      let (edges, after) ← quoted? (dropBlanks rest)
      let cycle := dropBlanks after
      if cycle.all fun c => isWord c || c == '.' then
        some (String.ofList index, String.ofList edges, String.ofList cycle)
      else none
    else none
  | _, _ => none

/-- `KEY "text"`: all between two quotes that end the line. -/
def quotedArgument? (keyword : String) (s : List Char) : Option String := do
  match ← quoted? (← afterKeyword? keyword s) with
  | (text, []) => some (String.ofList text)
  | _ => none

end Form

/-- The lines of the wave table section, those that follow the mark `HRPF` included. -/
inductive WaveTableLine where
  | statemap
  | table (name : String)
  | defines (ports : List String)
  | pins (pins : List String)
  /-- A mark, and what follows it. -/
  | hrpf (rest : String)
  | waveform (index edges cycle : String)
  | brk (edges : String)
  | unplaced
  deriving DecidableEq, Repr

/-- The form of a line that may follow a mark. -/
def WaveTableLine.ofRest (line : String) : WaveTableLine :=
  let s := line.toList
  if let some (i, e, c) := Form.waveform? s then .waveform i e c
  else if let some e := Form.quotedArgument? "brk" s then .brk e
  else .unplaced

/-- The form of a line of the wave table section. -/
def WaveTableLine.ofText (line : String) : WaveTableLine :=
  let s := line.toList
  if line = "STATEMAP" then .statemap
  else if let some n := Form.argument? "WAVETBL" s then .table (unquote n)
  else if let some names := Form.argument? "DEFINES" s then .defines (wordsOf names)
  else if let some names := Form.argument? "PINS" s then .pins (wordsOf names)
  else if let some rest := Form.strip? "HRPF".toList s then .hrpf (String.ofList (trim rest))
  else .ofRest line

/-- The text before the first colon and the text after it. -/
def splitAtColon? (s : List Char) : Option (List Char × List Char) :=
  match s.dropWhile (· != ':') with
  | ':' :: after => some (s.takeWhile (· != ':'), after)
  | _ => none

/-- The edges of a waveform: entries `edge:action`, with or without braces around groups of
them. -/
def readWaveEdges (line text : String) : LineResult (List WaveEdge) :=
  let flat := text.toList.map fun c => if c == '\x7b' || c == '\x7d' then ' ' else c
  (words flat).mapM fun entry =>
    match splitAtColon? entry with
    | none => (Complaint.edgeWithoutAction (String.ofList entry)).about line
    | some (edge, action) => do
      let edge ← ofModel (EdgeId.ofText (String.ofList edge))
      return ⟨edge, String.ofList (trim action)⟩

end TesterSetup
