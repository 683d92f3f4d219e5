import TesterSetup.Manifest
import TesterSetup.Report.Label
import TesterSetup.Resolve.Error

/-!
# Command errors

Why a request fails. The text of an error goes from what was being done to what stopped it: it is
a trail of texts with colons between them, where each error is followed by the one behind it.
-/

set_option autoImplicit false

namespace TesterSetup

/-- A reading error and the error behind it. -/
def ReadError.trail (e : ReadError) : List String :=
  match e with
  | .file _ cause => [e.message, cause.message]
  | .line _ (.model cause) => [e.message, cause.message]
  | _ => [e.message]

/-- A resolution error and the error behind it. -/
def ResolveError.trail (e : ResolveError) : List String :=
  match e with
  | .eval _ cause => [e.message, cause.message]
  | _ => e.message :: (e.inconsistency?.map ModelError.message).toList

/-- A label error and the errors behind it. -/
def LabelError.trail (e : LabelError) : List String :=
  match e with
  | .unreadable _ cause => e.message :: cause.trail
  | _ => [e.message]

/-- The setup files that a manifest names. -/
inductive SetupFile where
  | levels
  | timing
  | patterns
  deriving DecidableEq, Repr

namespace SetupFile

/-- The key of a setup file in a manifest. -/
def key : SetupFile → String
  | levels => "levels"
  | timing => "timing"
  | patterns => "patterns"

/-- The path of a setup file in a manifest. -/
def entry? (manifest : Manifest) : SetupFile → Option String
  | levels => manifest.levels
  | timing => manifest.timing
  | patterns => manifest.patterns

/-- What is read from a setup file, with its path. -/
def loading (path : String) : SetupFile → String
  | patterns => s!"loading {path}"
  | file => s!"loading {file.key} from {path}"

end SetupFile

/-- A setup that is being resolved. -/
inductive Query where
  | levels (eqnset specset levelset : Nat)
  | timing (eqnset specset timingset : Nat)
  | specification (name : String)
  deriving DecidableEq, Repr

/-- What is done to a query. -/
def Query.resolving : Query → String
  | .levels e s l => s!"resolving EQNSET {e} SPECSET {s} LEVELSET {l}"
  | .timing e s t => s!"resolving EQNSET {e} SPECSET {s} TIMINGSET {t}"
  | .specification name => s!"resolving specification '{name}'"

/-- Why a request fails. -/
inductive CommandError where
  | manifest (cause : ManifestError)
  /-- A new manifest would replace something. -/
  | manifestThere (path : String)
  | writing (path : String) (cause : FileError)
  | noManifest
  | noTopology
  /-- A port of the manifest cannot be defined. -/
  | port (name : String) (cause : ModelError)
  | noFile (file : SetupFile)
  | unknownFormat (name : String)
  | loading (file : SetupFile) (path : String) (cause : ReadError)
  | resolving (query : Query) (cause : ResolveError)
  | report (label : String) (cause : ReportError)

namespace CommandError

/-- The texts of an error, from what was being done to what stopped it. -/
def trail : CommandError → List String
  | manifest cause => [cause.message]
  | manifestThere path => [s!"'{path}' already exists"]
  | writing path cause => [s!"writing {path}", cause.message]
  | noManifest => ["no " ++ Manifest.fileName ++ " found (run `st7 init` first)"]
  | noTopology => ["no [topology] section in " ++ Manifest.fileName]
  | port name cause => [s!"port '{name}' in {Manifest.fileName}", cause.message]
  | noFile file =>
    [s!"no {file.key} file given (use --file or set [setup] {file.key} in {Manifest.fileName})"]
  | unknownFormat name => [s!"unknown output format: '{name}'. Choose: human, json"]
  | loading file path cause => file.loading path :: cause.trail
  | resolving query cause => query.resolving :: cause.trail
  | report label cause => cause.stage.text label :: cause.cause.trail

/-- The text of a command error. -/
def message (e : CommandError) : String :=
  ": ".intercalate e.trail

end CommandError

end TesterSetup
