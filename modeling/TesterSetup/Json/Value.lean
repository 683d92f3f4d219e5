import TesterSetup.Decimal.Layout

/-!
# JSON

A JSON document and its two written forms: `compact` without any white space, and `indented` with
two blanks per level. Object members keep their order. Numbers that are not finite are written as
`null`; only quotes, backslashes and control characters are escaped.
-/

set_option autoImplicit false

namespace TesterSetup

/-- A JSON document. -/
inductive Json where
  | null
  | bool (b : Bool)
  | number (x : Float)
  | natural (n : Nat)
  | text (s : String)
  | array (items : List Json)
  | object (members : List (String × Json))
  deriving Inhabited

namespace Json

/-- The hexadecimal digit with a value below sixteen. -/
def hexDigit (n : Nat) : Char :=
  (Nat.toDigits 16 n).headD '0'

/-- A character as it stands in a quoted text. -/
def escape (c : Char) : List Char :=
  if c = '"' then ['\\', '"']
  else if c = '\\' then ['\\', '\\']
  else if c = '\n' then ['\\', 'n']
  else if c = '\r' then ['\\', 'r']
  else if c = '\t' then ['\\', 't']
  else if c.toNat = 8 then ['\\', 'b']
  else if c.toNat = 12 then ['\\', 'f']
  else if c.toNat < 32 then
    ['\\', 'u', '0', '0', hexDigit (c.toNat / 16), hexDigit (c.toNat % 16)]
  else [c]

/-- A text in quotes. -/
def quote (s : String) : List Char :=
  '"' :: s.toList.flatMap escape ++ ['"']

/-- A number, or `null` for one that is not finite. -/
def numberText (x : Float) : List Char :=
  match Decimal.recordLayout.finite? x with
  | some digits => digits.toList
  | none => "null".toList

/-- A document that holds no others. -/
def scalar : Json → List Char
  | .bool true => "true".toList
  | .bool false => "false".toList
  | .number x => numberText x
  | .natural n => Decimal.digitsOf n
  | .text s => quote s
  | _ => "null".toList

/-- Members between an opening and a closing character, with commas in between. -/
def listed (opening closing : Char) (members : List (List Char)) : List Char :=
  opening :: ([','].intercalate members ++ [closing])

mutual

/-- A document without white space. -/
def compact : Json → List Char
  | .array items => listed '[' ']' (compactItems items)
  | .object members => listed '\x7b' '\x7d' (compactMembers members)
  | atom => scalar atom

/-- The items of an array without white space. -/
def compactItems : List Json → List (List Char)
  | [] => []
  | item :: rest => compact item :: compactItems rest

/-- The members of an object without white space. -/
def compactMembers : List (String × Json) → List (List Char)
  | [] => []
  | (name, value) :: rest => (quote name ++ ':' :: compact value) :: compactMembers rest

end

/-- A new line with two blanks per level. -/
def newLine (level : Nat) : List Char :=
  '\n' :: List.replicate (2 * level) ' '

/-- Members on lines of their own between an opening and a closing character. -/
def block (level : Nat) (opening closing : Char) (members : List (List Char)) : List Char :=
  if members.isEmpty then [opening, closing]
  else
    opening :: ([','].intercalate (members.map (newLine (level + 1) ++ ·)) ++
      newLine level ++ [closing])

mutual

/-- A document with its members on lines of their own, from a level of indentation on. -/
def indentedAt (level : Nat) : Json → List Char
  | .array items => block level '[' ']' (indentedItems (level + 1) items)
  | .object members => block level '\x7b' '\x7d' (indentedMembers (level + 1) members)
  | atom => scalar atom

/-- The items of an array at a level. -/
def indentedItems (level : Nat) : List Json → List (List Char)
  | [] => []
  | item :: rest => indentedAt level item :: indentedItems level rest

/-- The members of an object at a level. -/
def indentedMembers (level : Nat) : List (String × Json) → List (List Char)
  | [] => []
  | (name, value) :: rest =>
    (quote name ++ ':' :: ' ' :: indentedAt level value) :: indentedMembers level rest

end

/-- A document with its members on lines of their own. -/
def indented (j : Json) : List Char :=
  indentedAt 0 j

/-- A value that may be absent. -/
def optional {α : Type} (f : α → Json) : Option α → Json
  | some a => f a
  | none => .null

/-- A list of texts. -/
def texts (l : List String) : Json :=
  .array (l.map .text)

end Json

end TesterSetup
