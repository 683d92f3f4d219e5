import TesterSetup.Sequencer.Assemble

/-!
# Label libraries

A `LabelSource` says which files may hold a label and reads them. A `LabelCache` keeps the labels
that were read from it by name and counts how often it had the answer; failures are not kept. The
cache stays when a look-up fails.
-/

set_option autoImplicit false

namespace TesterSetup

/-- Where labels come from. -/
structure LabelSource (m : Type → Type) where
  /-- The files that may hold a label. -/
  candidates : String → List String
  /-- Reads a vector file. -/
  read : String → m (Except ReadError VectorFile)

/-- Labels by the names they were asked for. -/
structure LabelCache where
  labels : OrderedMap String Label
  hits : Nat
  misses : Nat
  deriving Inhabited

/-- The cache that keeps nothing yet. -/
def LabelCache.empty : LabelCache :=
  ⟨.empty, 0, 0⟩

/-- The number of labels that are kept. -/
def LabelCache.entries (c : LabelCache) : Nat :=
  c.labels.size

/-- A computation with a label cache that may fail. -/
abbrev WithLabels (m : Type → Type) := ExceptT LabelError (StateT LabelCache m)

variable {m : Type → Type} [Monad m]

/-- The one file that holds a label. -/
def LabelSource.fileOf (source : LabelSource m) (name : String) : Except LabelError String :=
  match source.candidates name with
  | [] => .error (.missing name)
  | [one] => .ok one
  | many => .error (.ambiguous name many)

/-- Finds, reads and assembles a label. -/
def LabelSource.load (source : LabelSource m) (name : String) : m (Except LabelError Label) := do
  match source.fileOf name with
  | .error e => return .error e
  | .ok path =>
    match ← source.read path with
    | .error cause => return .error (.unreadable name cause)
    | .ok file => return file.assemble

/-- The label with a name, from the cache or else from the source. -/
def LabelSource.label (source : LabelSource m) (name : String) : WithLabels m Label :=
  ExceptT.mk do
    let cache ← get
    match cache.labels.get? name with
    | some label =>
      set { cache with hits := cache.hits + 1 }
      return .ok label
    | none =>
      match ← source.load name with
      | .error e =>
        set { cache with misses := cache.misses + 1 }
        return .error e
      | .ok label =>
        set { cache with misses := cache.misses + 1, labels := cache.labels.insert name label }
        return .ok label

/-- The cost of a MAIN label. A burst cannot be called. -/
def LabelSource.mainCost (source : LabelSource m) (name : String) : WithLabels m Cost := do
  match ← source.label name with
  | .main l => return l.program.cost
  | .burst _ => throw (.notMain name)

end TesterSetup
