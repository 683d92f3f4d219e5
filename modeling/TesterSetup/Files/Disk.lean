import TesterSetup.Reader.Error

/-!
# Disks

A `Disk` is what the library asks of the files around it, as operations in a monad: the files of
the machine in one program, a file tree in memory in another. Only a program's own output is
written.
-/

set_option autoImplicit false

namespace TesterSetup

/-- The files that paths lead to. -/
structure Disk (m : Type → Type) where
  /-- The text of a file. -/
  readText : String → m (Except FileError String)
  /-- Whether a path leads to a file. -/
  isFile : String → m Bool
  /-- Whether a path leads to anything. -/
  isTaken : String → m Bool
  /-- Writes a text to a file, which is made if it is not there. -/
  writeText : String → String → m (Except FileError Unit)

/-- The text of a file, which has to be there. -/
def Disk.text {m : Type → Type} [Monad m] (disk : Disk m) (path : String) :
    ExceptT ReadError m String :=
  ExceptT.mk do return (← disk.readText path).mapError (.file path)

end TesterSetup
