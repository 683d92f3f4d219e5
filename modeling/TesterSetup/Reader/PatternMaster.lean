import TesterSetup.OrderedMap
import TesterSetup.Path
import TesterSetup.Reader.Shared
import TesterSetup.Text.Search

/-!
# Pattern master files

A pattern master file says where the vector files of labels are: under `path:` stand directories,
under `files:` the files of the directory named last. `PatternMaster.lookup` gives the files that
may hold a label.
-/

set_option autoImplicit false

namespace TesterSetup

open TesterSetup.Text

/-- Directories with the pattern files in each. -/
structure PatternMaster where
  /-- Where the pattern master was read from. -/
  path : Option String
  entries : OrderedMap String (List String)
  deriving Inhabited

namespace PatternMaster

/-- The pattern master without entries. -/
def empty : PatternMaster :=
  ⟨none, .empty⟩

/-- The number of files. -/
def size (p : PatternMaster) : Nat :=
  p.entries.values.foldr (fun files n => files.length + n) 0

/-- All files with their directories as they are written. -/
def files (p : PatternMaster) : List String :=
  p.entries.entries.flatMap fun (dir, files) =>
    let stem := String.ofList (dir.toList.reverse.dropWhile (· == '/')).reverse
    files.map fun file => stem ++ "/" ++ file

/-- A directory as it is reached: a leading step up goes to the device directory if there is one,
another relative directory starts where the pattern master lies. -/
def directory (p : PatternMaster) (deviceDir : Option String) (dir : String) : String :=
  match deviceDir, Form.strip? "../".toList dir.toList with
  | some deviceDir, some rest => Path.join deviceDir (String.ofList rest)
  | _, _ =>
    match p.path.bind Path.parent? with
    | some base => if Path.isAbsolute dir then dir else Path.join base dir
    | none => dir

/-- The files whose name contains a label's name, with their paths in order. -/
def mentions (p : PatternMaster) (name : String) (deviceDir : Option String) :
    List (String × String) :=
  p.entries.entries.flatMap fun (dir, files) =>
    (files.filter (contains · name)).map fun file =>
      (file, Path.join (p.directory deviceDir dir) file)

/-- Whether a file's name contains a label's name with one of the endings of pattern files. -/
def isPatternOf (name file : String) : Bool :=
  contains file (name ++ ".burst") || contains file (name ++ ".binl")

/-- The files that may hold a label: the first whose name contains that of the label with an
ending of pattern files, or else all whose names contain that of the label. -/
def lookup (p : PatternMaster) (name : String) (deviceDir : Option String) : List String :=
  let found := p.mentions name deviceDir
  match found.find? fun f => isPatternOf name f.1 with
  | some f => [f.2]
  | none => found.map Prod.snd

/-- The parts of a pattern master file. -/
inductive Part where
  | preamble
  | paths
  | files
  deriving DecidableEq, Repr

/-- What has been read of a pattern master file. -/
structure Reader where
  part : Part
  /-- The directory named last. -/
  directory : Option String
  entries : OrderedMap String (List String)

/-- Adds files to a directory, which need not have been named. -/
def addFiles (entries : OrderedMap String (List String)) (dir : String) (files : List String) :
    OrderedMap String (List String) :=
  entries.insert dir ((entries.get? dir).getD [] ++ files)

/-- Places a line. -/
def Reader.read (r : Reader) (line : Line) : LineResult Reader :=
  if line.text = "path:" then .ok { r with part := .paths }
  else if line.text = "files:" then .ok { r with part := .files }
  else
    match r.part with
    | .preamble => Complaint.noPlacement.about line.text
    | .paths =>
      .ok { r with directory := some line.text, entries := addFiles r.entries line.text [] }
    | .files =>
      match r.directory with
      | none => Complaint.fileBeforePath.about line.text
      | some dir => .ok { r with entries := addFiles r.entries dir [line.text] }

/-- The header of a pattern master file. -/
def header : String := "hp93000,pattern_master_file,0.1"

/-- Reads the text of a pattern master file. The origin names the text in errors. -/
def parse (text origin : String) : Except ReadError PatternMaster := do
  let significant := (numberedLines text).filter fun line =>
    line.text != "" && !Form.startsWith line.text "--"
  let lines ← afterHeader origin header (· == header) significant
  let reader ← readLines origin Reader.read ⟨.preamble, none, .empty⟩ lines
  return ⟨none, reader.entries⟩

end PatternMaster

end TesterSetup
