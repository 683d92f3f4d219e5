import TesterSetup.Model.Error

/-!
# Reading errors

Why a file cannot be read: it cannot be opened, its header names another language, a line does not
fit (`LineError`), or a path in it leads nowhere. A `Complaint` is the reason why a line does not
fit the language at its place.
-/

set_option autoImplicit false

namespace TesterSetup

/-- Why a file's text cannot be had. -/
inductive FileError where
  | notFound
  | notADirectory
  | isADirectory
  | notText
  /-- A reason of the system's own. -/
  | other (text : String)
  deriving DecidableEq, Repr

/-- The text of a file error. -/
def FileError.message : FileError → String
  | .notFound => "No such file or directory (os error 2)"
  | .notADirectory => "Not a directory (os error 20)"
  | .isADirectory => "Is a directory (os error 21)"
  | .notText => "stream did not contain valid UTF-8"
  | .other text => text

/-- The numbers of a spec value line. -/
inductive ValueField where
  | actual
  | minimum
  | maximum
  deriving DecidableEq, Repr

/-- The name of a number of a spec value line. -/
def ValueField.name : ValueField → String
  | .actual => "act"
  | .minimum => "min"
  | .maximum => "max"

/-- Why a line does not fit. -/
inductive Complaint where
  | noPlacement
  | malformedSection
  | unknownSection
  | invalidNumber (text : String)
  | invalidValue (field : ValueField)
  | specSetNumTooLarge (num limit : Nat)
  | outsideEqnSet
  | specSetBeforeEqnSet
  | valueOutsideSpecSet
  | pinsOutsideLevelSet
  | pinSettingOutsideBlock
  | dpsSettingOutsideBlock
  | protectOutsideBlock
  | unsupportedTerm
  | equationsClosed (name : String)
  | outsideWaveTable
  | waveformOutsideBlock
  | edgeWithoutAction (entry : String)
  | outsideTimingSet
  | edgeOutsideBlock
  | secondPeriod
  | sectionInSpecification
  | unclosedSpecification (name : String)
  | portSetWithoutPort (eqnset : Nat) (specification : String)
  | portSettingBeforeEqnSet
  | textAfterBrace
  | unbalancedBrace
  | noPlacementInSpecification
  | unsupportedMasterLine
  | invalidEqnSetNumber (text : String)
  | fileBeforePath
  deriving DecidableEq, Repr

/-- The text of a complaint. -/
def Complaint.message : Complaint → String
  | .noPlacement => "no placement for line"
  | .malformedSection => "malformed EQSP section marker"
  | .unknownSection => "unknown EQSP section"
  | .invalidNumber text => s!"invalid number '{text}'"
  | .invalidValue field => s!"invalid {field.name} value"
  | .specSetNumTooLarge num limit => s!"SPECSET number {num} is above {limit}"
  | .outsideEqnSet => "line outside an EQNSET"
  | .specSetBeforeEqnSet => "SPECSET before EQNSET"
  | .valueOutsideSpecSet => "spec value outside a SPECSET"
  | .pinsOutsideLevelSet => "PINS outside a LEVELSET"
  | .pinSettingOutsideBlock => "pin setting outside a PINS block"
  | .dpsSettingOutsideBlock => "DPS setting outside a DPSPINS block"
  | .protectOutsideBlock => "'protect' without a DPSPINS block"
  | .unsupportedTerm => "term setting with unsupported value"
  | .equationsClosed name =>
    s!"'{name}' is neither a DPS nor a pin setting and equations are closed"
  | .outsideWaveTable => "line outside a WAVETBL"
  | .waveformOutsideBlock => "waveform outside a PINS block"
  | .edgeWithoutAction entry => s!"edge '{entry}' has no action"
  | .outsideTimingSet => "line outside a TIMINGSET"
  | .edgeOutsideBlock => "edge outside a PINS block"
  | .secondPeriod => "period defined twice"
  | .sectionInSpecification => "section starts inside a SPECIFICATION"
  | .unclosedSpecification name => s!"SPECIFICATION {name} is not closed"
  | .portSetWithoutPort eqnset specification =>
    s!"EQNSET {eqnset} in SPECIFICATION {specification} has no PORT"
  | .portSettingBeforeEqnSet => "port setting before EQNSET"
  | .textAfterBrace => "unexpected text after '\x7b'"
  | .unbalancedBrace => "unbalanced '\x7d'"
  | .noPlacementInSpecification => "no placement for line in SPECIFICATION"
  | .unsupportedMasterLine => "unsupported master file line"
  | .invalidEqnSetNumber text => s!"invalid EQNSET number '{text}'"
  | .fileBeforePath => "file listed before any path"

/-- What is wrong with a line. -/
inductive LineError where
  /-- The text does not fit the language at its place. -/
  | misfit (text : String) (complaint : Complaint)
  /-- The line uses something that is known and not supported. -/
  | unsupported (text construct : String)
  /-- The line contradicts the lines before it. -/
  | model (cause : ModelError)
  deriving DecidableEq, Repr

/-- What line of which file. -/
structure Location where
  origin : String
  line : Nat
  deriving DecidableEq, Repr

/-- A place as messages show it. -/
def Location.text (l : Location) : String :=
  l.origin ++ ":" ++ toString l.line

/-- Why a path in a master file leads nowhere. -/
inductive PathComplaint where
  /-- Not all of its steps up stand in front. -/
  | scatteredClimbs (climbs : Nat)
  | aboveRoot
  | noSuchFile (path : String)
  deriving DecidableEq, Repr

/-- The text of a complaint about a path. -/
def PathComplaint.message : PathComplaint → String
  | .scatteredClimbs climbs => s!"expected {climbs} leading '../'"
  | .aboveRoot => "climbs above the root directory"
  | .noSuchFile path => s!"no such file {path}"

/-- Why a file cannot be read. -/
inductive ReadError where
  | file (path : String) (cause : FileError)
  | header (origin expected found : String)
  | line (location : Location) (cause : LineError)
  | masterPath (base path : String) (cause : PathComplaint)
  deriving DecidableEq, Repr

/-- The text of a reading error. -/
def ReadError.message : ReadError → String
  | .file path cause => s!"I/O error reading {path}: {cause.message}"
  | .header origin expected found =>
    s!"{origin}: expected header '{expected}', found '{found}'"
  | .line location (.misfit text complaint) =>
    s!"{location.text}: {complaint.message}: {text}"
  | .line location (.unsupported text construct) =>
    s!"{location.text}: {construct} is not supported: {text}"
  | .line location (.model cause) => s!"{location.text}: {cause.message}"
  | .masterPath base path cause =>
    s!"cannot resolve '{path}' from {base}: {cause.message}"

end TesterSetup
