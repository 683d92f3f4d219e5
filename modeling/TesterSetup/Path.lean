/-!
# Paths

A path is a text: names separated by slashes, absolute when it starts with one. Nothing is
normalised when paths are joined. `parent?` cuts off the last name and ignores slashes and single
dots that name nothing; `components` is what two spellings of one place have in common.
-/

set_option autoImplicit false

namespace TesterSetup.Path

/-- Whether a path starts at the root. -/
def isAbsolute (path : String) : Bool :=
  path.toList.head? == some '/'

/-- The path that leads from a directory by another path. -/
def join (dir path : String) : String :=
  if isAbsolute path then path
  else if dir = "" ∨ dir.toList.getLast? = some '/' then dir ++ path
  else dir ++ "/" ++ path

/-- Whether a character is part of a name. -/
def isNamePart (c : Char) : Bool :=
  c != '/'

/-- A path from right to left without the slashes and single dots at its end. -/
def dropIdle (reversed : List Char) : List Char :=
  let name := reversed.takeWhile isNamePart
  if name = [] ∨ name = ['.'] then
    match _h : reversed.dropWhile isNamePart with
    | [] => []
    | _ :: before => dropIdle before
  else reversed
termination_by reversed.length
decreasing_by
  have hle := (List.dropWhile_sublist isNamePart (l := reversed)).length_le
  simp_all only [List.length_cons]
  omega

/-- A path as its start, which is a slash, a single dot or nothing, and the names after it. -/
def splitStart : List Char → List Char × List Char
  | '/' :: body => (['/'], body)
  | ['.'] => (['.'], [])
  | '.' :: '/' :: body => (['.'], '/' :: body)
  | body => ([], body)

/-- The directory that a path lies in, if it has a last name. -/
def parent? (path : String) : Option String :=
  let (start, body) := splitStart path.toList
  match dropIdle body.reverse with
  | [] => if start = ['.'] then some "" else none
  | reversed =>
    let before := (reversed.dropWhile isNamePart).drop 1
    some (String.ofList (start ++ (dropIdle before).reverse))

/-- The `n`-th of a path, its parent, the parent of that, and so on. -/
def ancestor? (path : String) : Nat → Option String
  | 0 => some path
  | n + 1 => (parent? path).bind (ancestor? · n)

/-- A path, its parent, the parent of that, and so on. Each is shorter than the one before. -/
def ancestors (path : String) : List String :=
  (List.range (path.length + 1)).filterMap (ancestor? path)

/-- The pieces between the slashes of a text. -/
def pieces : List Char → List (List Char)
  | [] => [[]]
  | '/' :: rest => [] :: pieces rest
  | c :: rest =>
    match pieces rest with
    | [] => [[c]]
    | piece :: more => (c :: piece) :: more

/-- The start of a path and its names. -/
def components (path : String) : List Char × List (List Char) :=
  let (start, body) := splitStart path.toList
  (start, (pieces body).filter fun name => name ≠ [] && name ≠ ['.'])

/-- The last name of a path, unless that is a step up. -/
def fileName? (path : String) : Option String :=
  match (components path).2.getLast? with
  | some name => if name = ['.', '.'] then none else some (String.ofList name)
  | none => none

end TesterSetup.Path
