/-!
# TOML documents

A document is a table of values under keys in the order in which they were written. Tables come to
be in several ways (`TableOrigin`), which decide whether they may be added to: a header opens a
table once, a dotted key adds to the tables that dotted keys made, and a key has one value. A list
of tables that grows by headers is not supported.
-/

set_option autoImplicit false

namespace TesterSetup

/-- What made a table. -/
inductive TableOrigin where
  /-- The header of a table within it. -/
  | implied
  /-- A header of its own. -/
  | headed
  /-- A dotted key. -/
  | dotted
  /-- Braces. -/
  | inline
  deriving DecidableEq, Repr

/-- A value of a document. -/
inductive Toml where
  | text (s : String)
  /-- A number or a truth value. -/
  | scalar
  | list (items : List Toml)
  | table (origin : TableOrigin) (members : List (String × Toml))
  deriving Inhabited

namespace Toml

/-- The values of a table by key. -/
abbrev Members := List (String × Toml)

/-- Changes the value under a key, or makes one at the end. -/
def change (key : String) (f : Option Toml → Option Toml) : Members → Option Members
  | [] => do return [(key, ← f none)]
  | (k, v) :: rest =>
    if k = key then do return (k, ← f (some v)) :: rest
    else do return (k, v) :: (← change key f rest)

/-- Opens the table of a header. -/
def openTable : List String → Members → Option Members
  | [], _ => none
  | [key], members =>
    members |> change key fun
      | none => some (.table .headed [])
      | some (.table .implied inner) => some (.table .headed inner)
      | some _ => none
  | key :: path, members =>
    members |> change key fun
      | none => (openTable path []).map (.table .implied)
      | some (.table .inline _) => none
      | some (.table origin inner) => (openTable path inner).map (.table origin)
      | some _ => none

/-- Gives a dotted key a value. -/
def assign (value : Toml) : List String → Members → Option Members
  | [], _ => none
  | [key], members =>
    members |> change key fun
      | none => some value
      | some _ => none
  | key :: path, members =>
    members |> change key fun
      | none => (assign value path []).map (.table .dotted)
      | some (.table .dotted inner) => (assign value path inner).map (.table .dotted)
      | some (.table .implied inner) =>
        if path.length < 2 then none else (assign value path inner).map (.table .implied)
      | some _ => none

/-- Changes the members of the table at the end of a path. -/
def within (f : Members → Option Members) : List String → Members → Option Members
  | [], members => f members
  | key :: path, members =>
    members |> change key fun
      | some (.table origin inner) => (within f path inner).map (.table origin)
      | _ => none

/-- The value under a key of a table. In a list the values of a section stand in order. -/
def field? (index : Nat) (key : String) : Toml → Option Toml
  | .table _ members => (members.find? fun m => m.1 == key).map Prod.snd
  | .list items => items[index]?
  | _ => none

end Toml

end TesterSetup
