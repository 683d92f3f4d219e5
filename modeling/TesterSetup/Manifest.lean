import TesterSetup.Files.Disk
import TesterSetup.Model.Topology
import TesterSetup.Path
import TesterSetup.Toml.Reader

/-!
# Manifests

The manifest of a device says what the device is called, where its setup files lie, which pins and
ports it has and how results are shown. It is a TOML document; what a manifest does not know is
passed over. The manifest of a directory is the one in it or in the nearest directory above.
-/

set_option autoImplicit false

namespace TesterSetup

/-- How results are shown. -/
inductive Format where
  | human
  | json
  deriving DecidableEq, Inhabited, Repr

/-- The format with a name. -/
def Format.ofText? (name : String) : Option Format :=
  if name = "human" then some .human else if name = "json" then some .json else none

/-- The pins, supplies and ports of a manifest. -/
structure TopologySection where
  pins : List String
  supplies : List String
  ports : List (String × List String)
  deriving DecidableEq, Inhabited, Repr

/-- The manifest of a device. -/
structure Manifest where
  name : String
  /-- The device directory, from where the manifest lies. -/
  deviceDir : Option String
  levels : Option String
  timing : Option String
  patterns : Option String
  topology : Option TopologySection
  /-- The name of the format in which results are shown. -/
  format : Option String
  deriving DecidableEq, Inhabited, Repr

namespace Manifest

/-- The name of the file that holds a manifest. -/
def fileName : String := "st7.toml"

/-! ### Reading -/

/-- A text. -/
def text? : Toml → Option String
  | .text s => some s
  | _ => none

/-- A list of texts. -/
def texts? : Toml → Option (List String)
  | .list items => items.mapM text?
  | _ => none

/-- A table of lists of texts. -/
def portLists? : Toml → Option (List (String × List String))
  | .table _ members => members.mapM fun m => return (m.1, ← texts? m.2)
  | _ => none

/-- A section: a table or a list of its values. -/
def section? : Toml → Option Toml
  | .table origin members => some (.table origin members)
  | .list items => some (.list items)
  | _ => none

/-- A value that may be missing and else has to be understood. -/
def optional? {α : Type} (read : Toml → Option α) : Option Toml → Option (Option α)
  | none => some none
  | some value => (read value).map some

/-- The pins, supplies and ports of a section. -/
def topology? (t : Toml) : Option TopologySection := do
  let t ← section? t
  let pins ← optional? texts? (t.field? 0 "pins")
  let supplies ← optional? texts? (t.field? 1 "supplies")
  let ports ← optional? portLists? (t.field? 2 "ports")
  return ⟨pins.getD [], supplies.getD [], ports.getD []⟩

/-- The manifest that a document is. -/
def ofToml? (document : Toml) : Option Manifest := do
  let device ← section? (← document.field? 0 "device")
  let setup := (← optional? section? (document.field? 1 "setup")).getD (.list [])
  let topology ← optional? topology? (document.field? 2 "topology")
  let output := (← optional? section? (document.field? 3 "output")).getD (.list [])
  return {
    name := ← text? (← device.field? 0 "name")
    deviceDir := ← optional? text? (device.field? 1 "dir")
    levels := ← optional? text? (setup.field? 0 "levels")
    timing := ← optional? text? (setup.field? 1 "timing")
    patterns := ← optional? text? (setup.field? 2 "patterns")
    topology
    format := ← optional? text? (output.field? 0 "format") }

/-- Reads a manifest. -/
def parse (text : String) : Option Manifest :=
  (Toml.parse text).bind ofToml?

/-! ### Writing -/

/-- The text of a new manifest in front of the device's name. -/
def templateHead : String :=
  "[device]\nname = \""

/-- The text of a new manifest behind the device's name. -/
def templateTail : String :=
  "\"\n\n" ++
  "[setup]\n" ++
  "levels = \"levels/levels.master\"\n" ++
  "timing = \"timing/timing.master\"\n" ++
  "patterns = \"vectors/all.pmf\"\n\n" ++
  "[topology]\npins = []\nsupplies = []\n\n[topology.ports]\n\n" ++
  "[output]\nformat = \"human\"\n"

/-- The text of a new manifest. The device's name is written as it stands. -/
def template (name : String) : String :=
  templateHead ++ name ++ templateTail

/-! ### Use -/

/-- The device directory of a manifest in a directory. -/
def directory (manifest : Manifest) (dir : String) : String :=
  match manifest.deviceDir with
  | some path => Path.join dir path
  | none => dir

end Manifest

/-- The pin topology of a section. A port that fails is named. -/
def TopologySection.build (s : TopologySection) : Except (String × ModelError) PinTopology :=
  s.ports.foldlM (fun topology (port, pins) => (topology.addPort port pins).mapError (port, ·))
    (.ofPins s.pins s.supplies)

/-- A manifest and the directory that it lies in. -/
structure Located where
  manifest : Manifest
  dir : String

/-- Why a manifest that is there cannot be used. -/
inductive ManifestError where
  | file (path : String) (cause : FileError)
  | malformed (path : String)
  deriving DecidableEq, Repr

/-- The text of a manifest error. -/
def ManifestError.message : ManifestError → String
  | .file path cause => s!"reading {path}: {cause.message}"
  | .malformed path => s!"parsing {path}: TOML parse error"

variable {m : Type → Type} [Monad m]

/-- The manifest of the first directory of a list that has one. -/
def Disk.findManifestIn (disk : Disk m) :
    List String → ExceptT ManifestError m (Option Located)
  | [] => pure none
  | dir :: rest => ExceptT.mk do
    let path := Path.join dir Manifest.fileName
    if ← disk.isFile path then
      match ← disk.readText path with
      | .error cause => return .error (.file path cause)
      | .ok text =>
        match Manifest.parse text with
        | some manifest => return .ok (some ⟨manifest, dir⟩)
        | none => return .error (.malformed path)
    else disk.findManifestIn rest

/-- The manifest of a directory or of the nearest directory above it. -/
def Disk.findManifest (disk : Disk m) (dir : String) : ExceptT ManifestError m (Option Located) :=
  disk.findManifestIn (Path.ancestors dir)

end TesterSetup
