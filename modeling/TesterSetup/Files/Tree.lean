import TesterSetup.Files.Disk
import TesterSetup.OrderedMap
import TesterSetup.Path

/-!
# File trees

A file tree is what stands at which place; a place is the list of names that lead to it from the
root, where there is always a directory. A path is followed name by name: every name but the last
has to be a directory, a single dot stays, two dots go back to where the directory lies.
`FileTree.disk` makes a disk of a file tree and a working directory.
-/

set_option autoImplicit false

namespace TesterSetup

/-- The names that lead to a place from the root. -/
abbrev Place := List (List Char)

/-- What stands at a place. -/
inductive Entry where
  | file (content : ByteArray)
  | directory

/-- What stands at which place. -/
structure FileTree where
  entries : OrderedMap Place Entry

namespace FileTree

/-- The tree of a root without files. -/
def empty : FileTree :=
  ⟨.empty⟩

/-- What stands at a place. -/
def entry? (t : FileTree) (place : Place) : Option Entry :=
  if place = [] then some .directory else t.entries.get? place

/-- Puts something at a place. -/
def put (t : FileTree) (place : Place) (e : Entry) : FileTree :=
  ⟨t.entries.insert place e⟩

/-- Makes the directories that are missing on the way to a place, from a place on. -/
def makeWay (t : FileTree) (place : Place) : Place → FileTree
  | [] => t
  | name :: rest =>
    let next := place ++ [name]
    match t.entry? next with
    | some _ => t.makeWay next rest
    | none => (t.put next .directory).makeWay next rest

/-- Adds a file of a listing at the end of its path. A path that ends in a slash is a directory. -/
def add (t : FileTree) (path : String) (content : ByteArray) : FileTree :=
  let names := (Path.components path).2
  if path.toList.getLast? = some '/' then t.makeWay [] names
  else (t.makeWay [] names.dropLast).put names (.file content)

/-- Follows names from a place. -/
def follow (t : FileTree) (place : Place) : List (List Char) → Except FileError Place
  | [] => .ok place
  | name :: rest =>
    match t.entry? place with
    | none => .error .notFound
    | some (.file _) => .error .notADirectory
    | some .directory =>
      if name = [] ∨ name = ['.'] then t.follow place rest
      else if name = ['.', '.'] then t.follow place.dropLast rest
      else
        match t.entry? (place ++ [name]) with
        | none => .error .notFound
        | some _ => t.follow (place ++ [name]) rest

/-- Where a path starts from a working directory. -/
def start (cwd : Place) (path : String) : Place :=
  if Path.isAbsolute path then [] else cwd

/-- Where a path leads from a working directory. -/
def placeOf (t : FileTree) (cwd : Place) (path : String) : Except FileError Place :=
  if path = "" then .error .notFound else t.follow (start cwd path) (Path.pieces path.toList)

/-- What a path leads to. -/
def find (t : FileTree) (cwd : Place) (path : String) : Except FileError Entry := do
  match t.entry? (← t.placeOf cwd path) with
  | some e => .ok e
  | none => .error .notFound

/-- The text of a file. -/
def readText (t : FileTree) (cwd : Place) (path : String) : Except FileError String := do
  match ← t.find cwd path with
  | .directory => .error .isADirectory
  | .file content =>
    match String.fromUTF8? content with
    | some text => .ok text
    | none => .error .notText

/-- Whether a path leads to a file. -/
def isFile (t : FileTree) (cwd : Place) (path : String) : Bool :=
  match t.find cwd path with
  | .ok (.file _) => true
  | _ => false

/-- Whether a path leads to anything. -/
def isTaken (t : FileTree) (cwd : Place) (path : String) : Bool :=
  (t.find cwd path).isOk

/-- Writes a text to a file of a directory that is there. -/
def writeText (t : FileTree) (cwd : Place) (path text : String) : Except FileError FileTree := do
  let names := Path.pieces path.toList
  let dir ← t.follow (start cwd path) names.dropLast
  let name := names.getLast?.getD []
  if name ∈ [[], ['.'], ['.', '.']] then .error .isADirectory
  else
    match t.entry? dir, t.entry? (dir ++ [name]) with
    | some .directory, some .directory => .error .isADirectory
    | some .directory, _ => .ok (t.put (dir ++ [name]) (.file text.toUTF8))
    | _, _ => .error .notADirectory

/-- The disk of a file tree that changes as it is written to. -/
def disk (cwd : Place) : Disk (StateM FileTree) where
  readText path := return (← get).readText cwd path
  isFile path := return (← get).isFile cwd path
  isTaken path := return (← get).isTaken cwd path
  writeText path text := do
    match (← get).writeText cwd path text with
    | .ok t =>
      set t
      return .ok ()
    | .error e => return .error e

end FileTree

end TesterSetup
