import TesterSetup.Files.Setup
import TesterSetup.Path
import TesterSetup.Text.Search

/-!
# Setups in many files

A levels or timing setup is read from a plain file or from a master file, which one of them the
header says. Every entry of a master file selects parts of the file it leads to: an equation set
with its spec sets, a wave table or a specification. A file that several entries lead to is read
once.

The path of an entry starts where the master file lies. Its steps up have to stand in front, and
each of them climbs to the directory that the last name of the path before it lies in.
-/

set_option autoImplicit false

namespace TesterSetup

/-- How often `../` stands in a path, without overlaps. -/
def climbsIn : List Char → Nat
  | '.' :: '.' :: '/' :: rest => climbsIn rest + 1
  | _ :: rest => climbsIn rest
  | [] => 0

/-- What follows the steps up at the front of a path. -/
def afterClimbs : Nat → List Char → Option (List Char)
  | 0, s => some s
  | n + 1, '.' :: '.' :: '/' :: rest => afterClimbs n rest
  | _ + 1, _ => none

/-- The path that an entry's path is from the directory of the master file. -/
def masterPath (dir path : String) : Except PathComplaint String :=
  let climbs := climbsIn path.toList
  if climbs = 0 then .ok (Path.join dir path)
  else
    match afterClimbs climbs path.toList with
    | none => .error (.scatteredClimbs climbs)
    | some rest =>
      match Path.ancestor? dir climbs with
      | none => .error .aboveRoot
      | some base => .ok (Path.join base (String.ofList rest))

variable {m : Type → Type} [Monad m]

/-- The file that an entry of a master file leads to, which has to be there. -/
def Disk.resolveMasterPath (disk : Disk m) (dir path : String) : ExceptT ReadError m String :=
  ExceptT.mk do
    match masterPath dir path with
    | .error complaint => return .error (.masterPath dir path complaint)
    | .ok file =>
      if ← disk.isFile file then return .ok file
      else return .error (.masterPath dir path (.noSuchFile file))

/-- Files that were read, by what the spellings of their paths have in common. -/
abbrev FilesRead (S : Type) := OrderedMap (List Char × List (List Char)) S

/-- The setup in a file, which is read unless it was read before. -/
def FilesRead.require {S : Type} (files : FilesRead S) (read : String → ExceptT ReadError m S)
    (path : String) : ExceptT ReadError m (FilesRead S × S) := do
  match files.get? (Path.components path) with
  | some setup => return (files, setup)
  | none =>
    let setup ← read path
    return (files.insert (Path.components path) setup, setup)

/-- A master file while its entries are followed: the files that were read and the parts that were
selected. -/
structure Gathering (S : Type) where
  files : FilesRead S
  setup : S

/-- Follows entries one after the other. `select` adds the part under a key of the first setup to
the second. -/
def Gathering.follow {S κ : Type} (disk : Disk m) (read : String → ExceptT ReadError m S)
    (master : String) (select : κ → S → S → Except ModelError S) (g : Gathering S) :
    List (κ × MasterEntry) → ExceptT ReadError m (Gathering S)
  | [] => pure g
  | (key, entry) :: rest => do
    let file ← disk.resolveMasterPath ((Path.parent? master).getD ".") entry.path
    let (files, part) ← g.files.require read file
    match select key part g.setup with
    | .error cause => throw (.line ⟨master, entry.line⟩ (.model cause))
    | .ok setup => Gathering.follow disk read master select ⟨files, setup⟩ rest

/-- Adds the spec sets of an equation set. -/
def addSpecSetsOf (num : Nat) (part : Container SpecSet) (specsets : Container SpecSet) :
    Except ModelError (Container SpecSet) :=
  (part.items.filter fun s => s.eqnset == num).foldlM Container.add specsets

/-- Adds an equation set of another setup with its spec sets. -/
def Levels.takeEqnSet (num : Nat) (part l : Levels) : Except ModelError Levels := do
  let e ← part.eqnsets.require num
  return ⟨← l.eqnsets.add e, ← addSpecSetsOf num part.specsets l.specsets⟩

/-- Adds an equation set of another setup with its spec sets. -/
def Timing.takeEqnSet (num : Nat) (part t : Timing) : Except ModelError Timing := do
  let e ← part.eqnsets.require num
  return { t with
    eqnsets := ← t.eqnsets.add e
    specsets := ← addSpecSetsOf num part.specsets t.specsets }

/-- Adds a wave table of another setup. -/
def Timing.takeWaveTable (name : String) (part t : Timing) : Except ModelError Timing := do
  let w ← part.wavetables.require name
  return { t with wavetables := ← t.wavetables.add w }

/-- Adds a specification of another setup. -/
def Timing.takeSpecification (name : String) (part t : Timing) : Except ModelError Timing := do
  let s ← part.specifications.require name
  return { t with specifications := ← t.specifications.add s }

namespace Disk

/-- Reads the levels setup that a master file indexes. -/
def levelsOfMaster (disk : Disk m) (path : String) (master : MasterFile) :
    ExceptT ReadError m Levels := do
  let read := disk.readWith Levels.ofFile
  let g ← Gathering.follow disk read path Levels.takeEqnSet ⟨.empty, .empty⟩ master.eqnsets.entries
  return g.setup

/-- Reads the timing setup that a master file indexes. -/
def timingOfMaster (disk : Disk m) (path : String) (master : MasterFile) :
    ExceptT ReadError m Timing := do
  let read := disk.readWith Timing.ofFile
  let g ← Gathering.follow disk read path Timing.takeEqnSet ⟨.empty, .empty⟩ master.eqnsets.entries
  let g ← Gathering.follow disk read path Timing.takeWaveTable g master.wavetables.entries
  let g ← Gathering.follow disk read path Timing.takeSpecification g master.multiportSpecs.entries
  return g.setup

/-- Reads a setup from a plain file of a language or a master file of a kind. -/
def setup {S : Type} (disk : Disk m) (kind : MasterKind) (language header : String)
    (ofFile : String → String → Except ReadError S)
    (ofMaster : String → MasterFile → ExceptT ReadError m S) (path : String) :
    ExceptT ReadError m S := do
  let text ← disk.text path
  let first := ((Text.significantLines text).head?.map Text.Line.text).getD ""
  if first = kind.header then
    let master ← ExceptT.mk (pure (MasterFile.parse kind text path))
    ofMaster path master
  else if isHeader first language then ExceptT.mk (pure (ofFile path text))
  else throw (.header path s!"{header} or {kind.header}" first)

/-- Reads a levels setup from a plain file or a master file. -/
def levels (disk : Disk m) (path : String) : ExceptT ReadError m Levels :=
  disk.setup .levels Levels.language Levels.header Levels.ofFile disk.levelsOfMaster path

/-- Reads a timing setup from a plain file or a master file. -/
def timing (disk : Disk m) (path : String) : ExceptT ReadError m Timing :=
  disk.setup .timing Timing.language Timing.header Timing.ofFile disk.timingOfMaster path

end Disk

end TesterSetup
