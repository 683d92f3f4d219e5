import TesterSetup.Command.Error
import TesterSetup.Command.Request
import TesterSetup.Expr.Eval
import TesterSetup.Files.Master
import TesterSetup.Report.Label
import TesterSetup.Resolve.Timing

/-!
# Running requests

`Disk.run` does what a list of arguments asks for, from a working directory, and gives what is to
be shown. A file that an argument names lies relative to the working directory, one that the
manifest names relative to the manifest. Nothing is shown of a request that fails but its error.
-/

set_option autoImplicit false

namespace TesterSetup

/-- What a run of the program shows and how it ends. -/
structure Outcome where
  status : Nat
  output : String
  errors : String
  deriving DecidableEq, Repr

/-- The format that an argument or else the manifest asks for. -/
def chooseFormat (given : Option String) (located : Option Located) :
    Except CommandError Format :=
  match given.or (located.bind fun l => l.manifest.format) with
  | none => .ok .human
  | some name =>
    match Format.ofText? name with
    | some format => .ok format
    | none => .error (.unknownFormat name)

/-- The path of a setup file. -/
def setupPath (cwd : String) (file : SetupFile) (given : Option String)
    (located : Option Located) : Except CommandError String :=
  match given, located.bind fun l => (file.entry? l.manifest).map (Path.join l.dir) with
  | some path, _ => .ok (Path.join cwd path)
  | none, some path => .ok path
  | none, none => .error (.noFile file)

/-- The pin topology of a manifest. -/
def manifestTopology (located : Option Located) : Except CommandError PinTopology :=
  match located with
  | none => .error .noManifest
  | some l =>
    match l.manifest.topology with
    | none => .error .noTopology
    | some s => s.build.mapError fun (port, cause) => .port port cause

/-- A result in a format. -/
def Format.show (text : String) (json : Json) : Format → String
  | .human => text
  | .json => String.ofList json.indented ++ "\n"

/-- The directory's own name, or else a name that fits any device. -/
def defaultDeviceName (cwd : String) : String :=
  (Path.fileName? cwd).getD "device"

/-- A resolution with the query that it answers. -/
def resolved {α : Type} (query : Query) (t : Traced α) : Except CommandError α :=
  t.result.mapError (.resolving query)

variable {m : Type → Type} [Monad m]

/-- A result that may be an error. -/
def liftResult {ε α : Type} (r : Except ε α) : ExceptT ε m α :=
  ExceptT.mk (pure r)

namespace Disk

/-- Writes the manifest of a device. -/
def init (disk : Disk m) (cwd name : String) : ExceptT CommandError m String := do
  let path := Path.join cwd Manifest.fileName
  if ← disk.isTaken path then throw (.manifestThere path)
  match ← disk.writeText path (Manifest.template name) with
  | .error cause => throw (.writing path cause)
  | .ok () =>
    return s!"Created {Manifest.fileName} for device '{name}'\n" ++
      "  edit [setup] to point at the levels, timing and pattern master files\n" ++
      "  list pins and ports under [topology] for per-pin label rows\n"

/-- The manifest in force, the file to read and the format to show results in. -/
def prepare (disk : Disk m) (cwd : String) (file : SetupFile) (given format : Option String) :
    ExceptT CommandError m (Option Located × String × Format) := do
  let located ← (disk.findManifest cwd).adapt .manifest
  let path ← liftResult (setupPath cwd file given located)
  let format ← liftResult (chooseFormat format located)
  return (located, path, format)

/-- Reads the levels setup of a request. -/
def loadLevels (disk : Disk m) (path : String) : ExceptT CommandError m Levels :=
  (disk.levels path).adapt (.loading .levels path)

/-- Reads the timing setup of a request. -/
def loadTiming (disk : Disk m) (path : String) : ExceptT CommandError m Timing :=
  (disk.timing path).adapt (.loading .timing path)

/-- The labels of a pattern master file. -/
def labelSource (disk : Disk m) (master : PatternMaster) (deviceDir : Option String) :
    LabelSource m where
  candidates name := master.lookup name deviceDir
  read path := (disk.vectorFile path).run

/-- Reports the cost of a label. -/
def label (disk : Disk m) (cwd name : String) (patterns : Option String) (perPin : Bool)
    (format : Option String) : ExceptT CommandError m String := do
  let (located, path, format) ← disk.prepare cwd .patterns patterns format
  let deviceDir := located.map fun l => l.manifest.directory l.dir
  let topology ← if perPin then some <$> liftResult (manifestTopology located) else pure none
  let master ← (disk.patternMaster path).adapt (.loading .patterns path)
  let source := disk.labelSource master deviceDir
  let (report, _) ← (source.report name topology).run.run .empty
  let report ← liftResult (report.mapError (.report name))
  return format.show report.text report.json

/-- Does what a request asks for. -/
def answer (disk : Disk m) (cwd : String) : Request → ExceptT CommandError m String
  | .init name => disk.init cwd (name.getD (defaultDeviceName cwd))
  | .levels eqnset specset levelset file format => do
    let (_, path, format) ← disk.prepare cwd .levels file format
    let levels ← disk.loadLevels path
    let r ← liftResult (resolved (.levels eqnset specset levelset)
      (levels.resolve compute eqnset specset levelset))
    return format.show (r.report eqnset specset levelset) r.json
  | .timing eqnset specset timingset file format => do
    let (_, path, format) ← disk.prepare cwd .timing file format
    let timing ← disk.loadTiming path
    let r ← liftResult (resolved (.timing eqnset specset timingset)
      (timing.resolve compute eqnset specset timingset))
    return format.show (r.report eqnset specset timingset) r.json
  | .multiport specification timingsets file format => do
    let (_, path, format) ← disk.prepare cwd .timing file format
    let timing ← disk.loadTiming path
    let r ← liftResult (resolved (.specification specification)
      (timing.resolveSpecification compute specification timingsets))
    return format.show r.report r.json
  | .label name patterns perPin format => disk.label cwd name patterns perPin format

/-- Runs the program with arguments. -/
def run (disk : Disk m) (cwd : String) (arguments : List String) : m Outcome := do
  match Invocation.ofList arguments with
  | .usage => return ⟨2, "", usageText⟩
  | .version => return ⟨0, "st7 0.1.0\n", ""⟩
  | .request r =>
    match ← (disk.answer cwd r).run with
    | .ok output => return ⟨0, output, ""⟩
    | .error e => return ⟨1, "", s!"error: {e.message}\n"⟩
where
  /-- What the program understands. -/
  usageText : String :=
    "usage: st7 [-v] init [NAME]\n" ++
    "       st7 [-v] levels --eqnset N --specset N --levelset N [--file PATH] [--format FORMAT]\n" ++
    "       st7 [-v] timing --eqnset N --specset N --timingset N [--file PATH] [--format FORMAT]\n" ++
    "       st7 [-v] multiport --specification NAME --timingset N... [--file PATH] " ++
    "[--format FORMAT]\n" ++
    "       st7 [-v] label NAME [--pmf PATH] [--per-pin] [--format FORMAT]\n"

end Disk

end TesterSetup
