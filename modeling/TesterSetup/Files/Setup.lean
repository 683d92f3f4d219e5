import TesterSetup.Files.Disk
import TesterSetup.Reader.Levels
import TesterSetup.Reader.Master
import TesterSetup.Reader.PatternMaster
import TesterSetup.Reader.Timing
import TesterSetup.Reader.Vector

/-!
# Reading single files

A setup that is read from a file knows the file: equation sets and wave tables name it as their
source, vector files and pattern master files as their path.
-/

set_option autoImplicit false

namespace TesterSetup

namespace Container

variable {α κ : Type} [Keyed α κ]

/-- Changes every part. Keys have to stay. -/
def mapItems (f : α → α) (h : ∀ a, Keyed.key (f a) = Keyed.key a) (c : Container α) :
    Container α where
  items := c.items.map f
  nodup := by simpa [Function.comp_def, h] using c.nodup

end Container

/-- A levels setup that was read from a file. -/
def Levels.readFrom (path : String) (l : Levels) : Levels :=
  { l with eqnsets := l.eqnsets.mapItems (fun e => { e with source := some path }) fun _ => rfl }

/-- A timing setup that was read from a file. -/
def Timing.readFrom (path : String) (t : Timing) : Timing :=
  { t with
    eqnsets := t.eqnsets.mapItems (fun e => { e with source := some path }) fun _ => rfl
    wavetables := t.wavetables.mapItems (fun w => { w with source := some path }) fun _ => rfl }

/-- The levels setup of a plain file's text. -/
def Levels.ofFile (path text : String) : Except ReadError Levels :=
  return (← Levels.parse text path).readFrom path

/-- The timing setup of a plain file's text. -/
def Timing.ofFile (path text : String) : Except ReadError Timing :=
  return (← Timing.parse text path).readFrom path

namespace Disk

variable {m : Type → Type} [Monad m]

/-- Reads a file whose text is understood by a function of the path and the text. -/
def readWith {α : Type} (disk : Disk m) (ofFile : String → String → Except ReadError α)
    (path : String) : ExceptT ReadError m α := do
  let text ← disk.text path
  ExceptT.mk (pure (ofFile path text))

/-- Reads a vector file. -/
def vectorFile (disk : Disk m) (path : String) : ExceptT ReadError m VectorFile :=
  disk.readWith (fun path text => return { ← VectorFile.parse text path with path := some path })
    path

/-- Reads a pattern master file. -/
def patternMaster (disk : Disk m) (path : String) : ExceptT ReadError m PatternMaster :=
  disk.readWith
    (fun path text => return { ← PatternMaster.parse text path with path := some path }) path

end Disk

end TesterSetup
