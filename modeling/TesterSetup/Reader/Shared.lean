import TesterSetup.Reader.Form
import TesterSetup.Text.Lines

/-!
# What all setup files share

Every file starts with a header that names its language and a version. Numbers of sets are read
from numerals below `2 ^ 32`, names may stand in quotes, and a file is read by a fold over its
significant lines.
-/

set_option autoImplicit false

namespace TesterSetup

open TesterSetup.Text

/-- Whether a line is the header `hp93000,language,d.d` of a language, in any version. -/
def isHeader (line language : String) : Bool :=
  match Form.strip? ("hp93000," ++ language ++ ",").toList line.toList with
  | some [major, '.', minor] => isAsciiDigit major && isAsciiDigit minor
  | _ => false

/-- A text without blanks and quotes around it, and without blanks inside the quotes. -/
def unquote (text : String) : String :=
  let isQuote := fun c => c == '"'
  let inner := (((trim text.toList).dropWhile isQuote).reverse.dropWhile isQuote).reverse
  String.ofList (trim inner)

/-- The words that look like a spec declaration and never are one. -/
def reservedWords : List String :=
  ["EQSP", "SPECS", "EQUATIONS", "NOOP", "SYNC", "PHASE", "STATEMAP"]

/-- Whether a word is no name of a spec. -/
def isReservedWord (word : String) : Bool :=
  reservedWords.contains word

/-- Reads the number of a set. -/
def readSetNum (text : String) : Except Complaint Nat :=
  match readNat? (widthBound 32) text with
  | some n => .ok n
  | none => .error (.invalidNumber text)

/-- Reads the number of a spec set, which has two digits at most. -/
def readSpecSetNum (text : String) : Except Complaint Nat := do
  let num ← readSetNum text
  if maxSpecSetNum < num then .error (.specSetNumTooLarge num maxSpecSetNum) else .ok num

/-- The result of reading a line. -/
abbrev LineResult := Except LineError

/-- A complaint about a line. -/
def Complaint.about {α : Type} (line : String) (c : Complaint) : LineResult α :=
  .error (.misfit line c)

/-- A reading that fails by a complaint, as part of reading a line. -/
def ofLine {α : Type} (line : String) (r : Except Complaint α) : LineResult α :=
  r.mapError (.misfit line)

/-- A building step as part of reading a line. -/
def ofModel {α : Type} (r : Except ModelError α) : LineResult α :=
  r.mapError .model

/-- Replaces the last member of a list, which may not be empty. -/
def updateLast {α ε : Type} (l : List α) (missing : ε) (f : α → Except ε α) :
    Except ε (List α) :=
  match l.getLast? with
  | none => .error missing
  | some a => do return l.dropLast ++ [← f a]

/-- Reads lines one after the other from a state. -/
def readLines {σ : Type} (origin : String) (step : σ → Line → LineResult σ) (start : σ)
    (lines : List Line) : Except ReadError σ :=
  lines.foldlM
    (fun state line => (step state line).mapError (ReadError.line ⟨origin, line.number⟩)) start

/-- The lines after the header, which has to be the first line. -/
def afterHeader (origin expected : String) (accept : String → Bool) :
    List Line → Except ReadError (List Line)
  | [] => .error (.header origin expected "")
  | line :: rest =>
    if accept line.text then .ok rest else .error (.header origin expected line.text)

end TesterSetup
