import TesterSetup.Command.Run

/-!
# The program

The command line: the disk of the machine, the working directory and the standard streams.
-/

set_option autoImplicit false

namespace TesterSetup

/-- A failure of the system as a file error. -/
def FileError.ofSystem : IO.Error → FileError
  | .noFileOrDirectory .. => .notFound
  | .inappropriateType _ 20 _ => .notADirectory
  | .inappropriateType _ 21 _ => .isADirectory
  | e => .other (toString e)

/-- An action on files that may fail. -/
def attempt {α : Type} (action : IO α) : IO (Except FileError α) := do
  return (← action.toBaseIO).mapError FileError.ofSystem

/-- Whether an action succeeds. -/
def succeeds {α : Type} (action : IO α) : IO Bool := do
  return (← action.toBaseIO).isOk

/-- The text of a file of the machine. -/
def readFileText (path : String) : IO (Except FileError String) := do
  match ← attempt (IO.FS.readBinFile path) with
  | .error e => return .error e
  | .ok content =>
    match String.fromUTF8? content with
    | some text => return .ok text
    | none => return .error .notText

/-- The disk of the machine. A path leads to a file if something can be read from it. -/
def systemDisk : Disk IO where
  readText := readFileText
  isFile path := succeeds (IO.FS.withFile path .read fun file => file.read 1)
  isTaken path := succeeds (IO.FS.realPath path)
  writeText path text := attempt (IO.FS.writeFile path text)

end TesterSetup

open TesterSetup in
/-- Runs the program with arguments. -/
def main (arguments : List String) : IO UInt32 := do
  let cwd := toString (← IO.currentDir)
  let outcome ← systemDisk.run cwd arguments
  IO.print outcome.output
  IO.eprint outcome.errors
  return UInt32.ofNat outcome.status
