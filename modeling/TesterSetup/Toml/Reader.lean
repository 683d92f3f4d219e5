import TesterSetup.Text.Numeral
import TesterSetup.Toml.Document
import TesterSetup.Toml.Quoted

/-!
# Reading TOML documents

`Toml.parse` reads a document or says that it is malformed. Texts, lists and tables are read in
full; numbers and truth values are checked and not kept; dates are not supported. A key has fewer
than `nestingLimit` parts, and fewer lists and inline tables than that stand in one another.

The readers of values, lists and inline tables call each other and are given as many steps as a
text of this length can need: two for each character and two more. They are also given the room
that is left: how many more lists and inline tables may be opened within one another.
-/

set_option autoImplicit false

namespace TesterSetup.Toml

/-- What follows blanks and tabs. -/
def dropSpace (s : List Char) : List Char :=
  s.dropWhile isSpace

/-- What follows blanks, line ends and comments, unless a comment is malformed. -/
def dropFiller (inComment : Bool) : List Char → Option (List Char)
  | [] => some []
  | '\n' :: rest => dropFiller false rest
  | '\r' :: '\n' :: rest => dropFiller false rest
  | c :: rest =>
    if inComment then if isPlain c then dropFiller true rest else none
    else if isSpace c then dropFiller false rest
    else if c == '#' then dropFiller true rest
    else some (c :: rest)

/-- What follows the end of a line, before which only blanks and a comment may stand. -/
def lineEnd? (s : List Char) : Option (List Char) :=
  let rest :=
    match dropSpace s with
    | '#' :: comment => comment.dropWhile isPlain
    | rest => rest
  match rest with
  | [] => some []
  | '\n' :: rest => some rest
  | '\r' :: '\n' :: rest => some rest
  | _ => none

/-! ### Keys -/

/-- Whether a character may stand in a key without quotes. -/
def isBare (c : Char) : Bool :=
  ('A' ≤ c && c ≤ 'Z') || ('a' ≤ c && c ≤ 'z') || ('0' ≤ c && c ≤ '9') || c == '_' || c == '-'

/-- A key without dots. -/
def simpleKey? (s : List Char) : Scanned :=
  match s.takeWhile isBare with
  | [] => short? s
  | key => some (key, s.dropWhile isBare)

/-- The parts of a dotted key and what follows it and the blanks around it. -/
def keyParts? : Nat → List Char → Option (List String × List Char)
  | 0, _ => none
  | steps + 1, s => do
    let (key, rest) ← simpleKey? (dropSpace s)
    match dropSpace rest with
    | '.' :: rest =>
      let (path, rest) ← keyParts? steps rest
      return (String.ofList key :: path, rest)
    | rest => return ([String.ofList key], rest)

/-- A bound for the parts of a key and for lists and inline tables within one another. -/
def nestingLimit : Nat := 80

/-- A dotted key of fewer parts than the limit and what follows it and the blanks around it. -/
def key? (s : List Char) : Option (List String × List Char) := do
  let (path, rest) ← keyParts? s.length s
  if path.length < nestingLimit then some (path, rest) else none

/-! ### Numbers and truth values -/

/-- Whether a text is made of digits with single underscores between them. -/
def isDigits (isDigit : Char → Bool) : List Char → Bool
  | [] => false
  | [c] => isDigit c
  | c :: '_' :: rest => isDigit c && isDigits isDigit rest
  | c :: rest => isDigit c && isDigits isDigit rest

/-- Whether a character is a decimal digit. -/
def isDecimal (c : Char) : Bool :=
  '0' ≤ c && c ≤ '9'

/-- Whether a text is a whole number without a sign, which starts with a zero only if it is one. -/
def isWhole (s : List Char) : Bool :=
  isDigits isDecimal s && (s.head? != some '0' || s == ['0'])

/-- The value of digits in a base, without the underscores between them. -/
def digitsIn (base : Nat) (s : List Char) : Nat :=
  s.foldl (fun n c => if c = '_' then n else n * base + (hexValue? c).getD 0) 0

/-- A text without a sign in front. -/
def dropSign : List Char → List Char
  | '+' :: rest => rest
  | '-' :: rest => rest
  | s => s

/-- Whole numbers lie below this bound and not below its negative. -/
def signedBound : Nat := Text.widthBound 63

/-- Whether a text is a whole number that fits 64 bits. -/
def isInteger (s : List Char) : Bool :=
  match s with
  | '0' :: 'x' :: rest =>
    isDigits (fun c => (hexValue? c).isSome) rest && digitsIn 16 rest < signedBound
  | '0' :: 'o' :: rest => isDigits (fun c => '0' ≤ c && c ≤ '7') rest && digitsIn 8 rest < signedBound
  | '0' :: 'b' :: rest => isDigits (fun c => c == '0' || c == '1') rest && digitsIn 2 rest < signedBound
  | s =>
    let digits := dropSign s
    isWhole digits &&
      digitsIn 10 digits < if s.head? = some '-' then signedBound + 1 else signedBound

/-- Whether a text is an exponent: nothing, or `e` and a whole number. -/
def isExponent : List Char → Bool
  | [] => true
  | c :: rest => (c == 'e' || c == 'E') && isDigits isDecimal (dropSign rest)

/-- Whether a text is a number with a point, an exponent or a name. -/
def isReal (s : List Char) : Bool :=
  let isPart := fun c => isDecimal c || c == '_'
  let digits := dropSign s
  if digits = "inf".toList ∨ digits = "nan".toList then true
  else
    isWhole (digits.takeWhile isPart) &&
      match digits.dropWhile isPart with
      | [] => false
      | '.' :: rest => isDigits isDecimal (rest.takeWhile isPart) && isExponent (rest.dropWhile isPart)
      | rest => isExponent rest

/-- A number or truth value. -/
def scalar? (s : List Char) : Option (Toml × List Char) :=
  let isPart := fun c => isBare c || c == '+' || c == '.'
  let word := s.takeWhile isPart
  if word = "true".toList ∨ word = "false".toList ∨ isInteger word ∨ isReal word then
    some (.scalar, s.dropWhile isPart)
  else none

/-! ### Values -/

mutual

/-- A value. -/
def value? : Nat → Nat → List Char → Option (Toml × List Char)
  | 0, _, _ => none
  | steps + 1, room, s =>
    match s, room with
    | '[' :: _, 0 => none
    | '[' :: rest, room + 1 => do
      let (items, rest) ← items? steps room rest
      return (.list items, rest)
    | '\x7b' :: _, 0 => none
    | '\x7b' :: rest, room + 1 =>
      match dropSpace rest with
      | '\x7d' :: rest => some (.table .inline [], rest)
      | rest => inline? steps room [] rest
    | s, _ =>
      match quoted? s with
      | some (content, rest) => some (.text (String.ofList content), rest)
      | none => scalar? s

/-- The items of a list from here on, which may end in a comma. -/
def items? : Nat → Nat → List Char → Option (List Toml × List Char)
  | 0, _, _ => none
  | steps + 1, room, s => do
    match ← dropFiller false s with
    | ']' :: rest => return ([], rest)
    | s =>
      let (item, rest) ← value? steps room s
      match ← dropFiller false rest with
      | ']' :: rest => return ([item], rest)
      | ',' :: rest =>
        let (items, rest) ← items? steps room rest
        return (item :: items, rest)
      | _ => none

/-- The members of a table in braces from here on, added to those before them. -/
def inline? : Nat → Nat → Members → List Char → Option (Toml × List Char)
  | 0, _, _, _ => none
  | steps + 1, room, members, s => do
    match ← key? s with
    | (path, '=' :: rest) =>
      let (value, rest) ← value? steps room (dropSpace rest)
      let members ← assign value path members
      match dropSpace rest with
      | '\x7d' :: rest => return (.table .inline members, rest)
      | ',' :: rest => inline? steps room members rest
      | _ => none
    | _ => none

end

/-! ### Documents -/

/-- The header of a table: its path and what follows the line. -/
def header? (s : List Char) : Option (List String × List Char) := do
  match ← key? s with
  | (path, ']' :: rest) => return (path, ← lineEnd? rest)
  | _ => none

/-- A key with its value: the path, the value and what follows the line. -/
def pair? (s : List Char) : Option (List String × Toml × List Char) := do
  match ← key? s with
  | (path, '=' :: rest) =>
    let (value, rest) ← value? (2 * rest.length + 2) (nestingLimit - 1) (dropSpace rest)
    return (path, value, ← lineEnd? rest)
  | _ => none

/-- The members of a document from here on, added to those before them. Pairs belong to the table
whose header was read last. -/
def statements? : Nat → List String → Members → List Char → Option Members
  | 0, _, _, _ => none
  | steps + 1, header, members, s => do
    match ← dropFiller false s with
    | [] => return members
    | '[' :: rest =>
      let (path, rest) ← header? rest
      let members ← openTable path members
      statements? steps path members rest
    | s =>
      let (path, value, rest) ← pair? s
      let members ← within (assign value path) header members
      statements? steps header members rest

/-- Reads a document. A byte order mark in front is passed over. -/
def parse (text : String) : Option Toml :=
  let s :=
    match text.toList with
    | '\ufeff' :: rest => rest
    | s => s
  (statements? (s.length + 1) [] [] s).map (.table .headed)

end TesterSetup.Toml
