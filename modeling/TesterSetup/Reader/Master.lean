import TesterSetup.OrderedMap
import TesterSetup.Reader.Shared

/-!
# Master files

A master file of a levels or timing setup is an index: each entry says which file defines an
equation set, a wave table or a specification.
-/

set_option autoImplicit false

namespace TesterSetup

open TesterSetup.Text

/-- Which setup a master file indexes. -/
inductive MasterKind where
  | levels
  | timing
  deriving DecidableEq, Inhabited, Repr

/-- The header of a master file. -/
def MasterKind.header : MasterKind → String
  | .levels => "hp93000,level_master_file,0.1"
  | .timing => "hp93000,timing_master_file,0.1"

/-- What an entry of a master file indexes. -/
inductive EntryKind where
  | eqnset
  | testdata
  | multiportSpec
  | wavetable
  deriving DecidableEq, Repr

/-- The keyword of an entry. -/
def EntryKind.keyword : EntryKind → String
  | .eqnset => "EQNSET"
  | .testdata => "TESTDATA"
  | .multiportSpec => "MULTIPORT_SPEC"
  | .wavetable => "WAVETABLE"

/-- What a master file may index. -/
def MasterKind.entryKinds : MasterKind → List EntryKind
  | .levels => [.eqnset, .testdata]
  | .timing => [.eqnset, .multiportSpec, .wavetable]

/-- Where an entry leads, and the line where it stands. -/
structure MasterEntry where
  path : String
  line : Nat
  deriving DecidableEq, Inhabited, Repr

/-- The entries of a master file. -/
structure MasterFile where
  testerfile : Option String
  eqnsets : OrderedMap Nat MasterEntry
  testdata : OrderedMap String MasterEntry
  multiportSpecs : OrderedMap String MasterEntry
  wavetables : OrderedMap String MasterEntry
  deriving Inhabited

namespace Form

/-- A colon and a word up to the end, with blanks around the colon. -/
def pathAfterColon? (s : List Char) : Option String :=
  match dropBlanks s with
  | ':' :: rest =>
    let path := dropBlanks rest
    if path ≠ [] ∧ path.all (fun c => !isBlank c) then some (String.ofList path) else none
  | _ => none

/-- `testerfile : path`. -/
def testerfile? (s : List Char) : Option String := do
  let rest ← strip? "testerfile".toList s
  pathAfterColon? rest

/-- `KEYWORD key : path`: the keyword, the key as it is written and the path. A key of nothing but
blanks takes two of them. -/
def masterEntry? (s : List Char) : Option (String × String × String) := do
  let isKeyword := fun c => ('A' ≤ c && c ≤ 'Z') || c == '_'
  let keyword := s.takeWhile isKeyword
  let after := s.dropWhile isKeyword
  let blanks := after.takeWhile isBlank
  let text := after.dropWhile isBlank
  let key := dropBlanksRight (text.takeWhile (· != ':'))
  let path ← pathAfterColon? (text.dropWhile (· != ':'))
  if keyword = [] ∨ blanks = [] ∨ (key = [] ∧ blanks.length < 2) then none
  else some (String.ofList keyword, String.ofList key, path)

end Form

namespace MasterFile

/-- The file without entries. -/
def empty : MasterFile :=
  ⟨none, .empty, .empty, .empty, .empty⟩

/-- Writes an entry under a key that is free. -/
def addEntry {κ : Type} [DecidableEq κ] (kind : EntryKind) (key : String)
    (entries : OrderedMap κ MasterEntry) (k : κ) (entry : MasterEntry) :
    LineResult (OrderedMap κ MasterEntry) :=
  if entries.contains k then .error (.model (.duplicate kind.keyword key))
  else .ok (entries.insert k entry)

/-- Adds an entry. -/
def add (m : MasterFile) (line : String) (key : String) (entry : MasterEntry) :
    EntryKind → LineResult MasterFile
  | .eqnset =>
    match readNat? (widthBound 32) key with
    | none => (Complaint.invalidEqnSetNumber key).about line
    | some num => do return { m with eqnsets := ← addEntry .eqnset key m.eqnsets num entry }
  | .testdata => do
    return { m with testdata := ← addEntry .testdata key m.testdata key entry }
  | .multiportSpec => do
    return { m with multiportSpecs := ← addEntry .multiportSpec key m.multiportSpecs key entry }
  | .wavetable => do
    return { m with wavetables := ← addEntry .wavetable key m.wavetables key entry }

/-- Places a line of a master file of a kind. -/
def place (kind : MasterKind) (m : MasterFile) (line : Line) : LineResult MasterFile :=
  let s := line.text.toList
  match Form.testerfile? s with
  | some file => .ok { m with testerfile := some file }
  | none =>
    match Form.masterEntry? s with
    | none => Complaint.unsupportedMasterLine.about line.text
    | some (keyword, key, path) =>
      match kind.entryKinds.find? fun e => e.keyword == keyword with
      | none => Complaint.unsupportedMasterLine.about line.text
      | some entryKind => m.add line.text (unquote key) ⟨path, line.number⟩ entryKind

/-- Reads the text of a master file. The origin names the text in errors. -/
def parse (kind : MasterKind) (text origin : String) : Except ReadError MasterFile := do
  let lines ← afterHeader origin kind.header (· == kind.header) (significantLines text)
  readLines origin (place kind) .empty lines

end MasterFile

end TesterSetup
