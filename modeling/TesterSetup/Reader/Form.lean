import TesterSetup.Decimal.Literal
import TesterSetup.Model.Spec
import TesterSetup.Reader.Error
import TesterSetup.Text.Blank
import TesterSetup.Text.Digit

/-!
# Forms of lines

The setup languages are line by line: most lines are a keyword with its arguments, others assign,
declare or value a name. Each form is a function that takes a line apart or says that the line
has another form. Blanks are those of Unicode, words and digits those of all scripts.
-/

set_option autoImplicit false

namespace TesterSetup

open TesterSetup.Text

namespace Form

/-- What follows a fixed text at the front of a line. -/
def strip? : List Char → List Char → Option (List Char)
  | [], s => some s
  | k :: key, c :: s => if k = c then strip? key s else none
  | _ :: _, [] => none

/-- What follows a keyword and at least one blank, from the first character that is not blank. -/
def afterKeyword? (keyword : String) (s : List Char) : Option (List Char) :=
  match strip? keyword.toList s with
  | some (c :: rest) => if isBlank c then some (dropBlanks rest) else none
  | _ => none

/-- Whether a line starts with a text. -/
def startsWith (line start : String) : Bool :=
  (strip? start.toList line.toList).isSome

/-- `KEY number description`: the number as it is written and the description. -/
def numbered? (keyword : String) (s : List Char) : Option (String × String) := do
  let rest ← afterKeyword? keyword s
  let digits := rest.takeWhile isDigit
  let description := dropBlanks (rest.dropWhile isDigit)
  if digits ≠ [] ∧ '\n' ∉ description then
    some (String.ofList digits, String.ofList description)
  else none

/-- `KEY argument`: all that follows the keyword. -/
def argument? (keyword : String) (s : List Char) : Option String := do
  let rest ← afterKeyword? keyword s
  if rest = [] then none else some (String.ofList rest)

/-- `KEY word`: one word of word characters. -/
def word? (keyword : String) (s : List Char) : Option String := do
  let rest ← afterKeyword? keyword s
  if rest ≠ [] ∧ rest.all isWord then some (String.ofList rest) else none

/-- `KEY "word"`: one quoted word of word characters. -/
def quotedWord? (keyword : String) (s : List Char) : Option String := do
  match ← afterKeyword? keyword s with
  | '"' :: rest =>
    let word := rest.takeWhile isWord
    if word ≠ [] ∧ rest.dropWhile isWord = ['"'] then some (String.ofList word) else none
  | _ => none

/-- A word at the front of a text that follows a keyword: all up to the next blank. -/
def firstArgument? (keyword : String) (s : List Char) : Option String := do
  let rest ← afterKeyword? keyword s
  let word := rest.takeWhile fun c => !isBlank c
  if word = [] then none else some (String.ofList word)

/-- A text between quotes at the front of a line, and what follows. -/
def quoted? : List Char → Option (List Char × List Char)
  | '"' :: rest =>
    match rest.dropWhile (· != '"') with
    | '"' :: after => some (rest.takeWhile (· != '"'), after)
    | _ => none
  | _ => none

/-- A name at the front of a line, and what follows: an ASCII letter or underscore, then word
characters. -/
def name? : List Char → Option (List Char × List Char)
  | c :: rest =>
    if isAsciiLetter c || c == '_' then some (c :: rest.takeWhile isWord, rest.dropWhile isWord)
    else none
  | [] => none

/-- A text between brackets at the front of a line, and what follows. -/
def bracketed? : List Char → Option (List Char × List Char)
  | '[' :: rest =>
    match rest.dropWhile (· != ']') with
    | ']' :: after => some (rest.takeWhile (· != ']'), after)
    | _ => none
  | _ => none

/-- What follows an equals sign, without the blanks in front. A line that goes on with blanks alone
assigns the last of them. -/
def assigned? (s : List Char) : Option (List Char) :=
  match dropBlanks s with
  | '=' :: rest =>
    match dropBlanks rest, rest.getLast? with
    | [], some c => if c = '\n' then none else some [c]
    | [], none => none
    | value, _ => if '\n' ∈ value then none else some value
  | _ => none

/-- `key = expression` for a fixed key. -/
def keyed? (key : String) (s : List Char) : Option String := do
  let rest ← strip? key.toList s
  let value ← assigned? rest
  some (String.ofList value)

/-- `name = expression`. -/
def assignment? (s : List Char) : Option (String × String) := do
  let name := s.takeWhile isWord
  if name = [] then none
  else
    let value ← assigned? (s.dropWhile isWord)
    some (String.ofList name, String.ofList value)

/-- `name` or `name [unit]`. -/
def declaration? (s : List Char) : Option (String × Option String) := do
  let (name, rest) ← name? s
  match dropBlanks rest with
  | [] => some (String.ofList name, none)
  | rest =>
    match ← bracketed? rest with
    | (unit, []) => some (String.ofList name, some (String.ofList unit))
    | _ => none

/-- `EQSP LANGUAGE,SECTION,#number`: the name of the section that starts. -/
def section? (language : String) (s : List Char) : Option String := do
  let rest ← afterKeyword? "EQSP" s
  let rest ← strip? (language.toList ++ [',']) rest
  let isUpper := fun c => 'A' ≤ c && c ≤ 'Z'
  match rest.takeWhile isUpper, rest.dropWhile isUpper with
  | c :: name, ',' :: '#' :: digits =>
    if digits ≠ [] ∧ digits.all isDigit then some (String.ofList (c :: name)) else none
  | _, _ => none

/-! ### Spec values -/

/-- A number at the front of a line: what it is written with, its exponent if it has one, and what
follows. -/
structure NumberText where
  mantissa : List Char
  exponent : List Char
  rest : List Char

/-- Digits at the front of a text with at most one point, and what follows. -/
def mantissa? (s : List Char) : Option (List Char × List Char) :=
  match s.takeWhile isDigit, s.dropWhile isDigit with
  | [], '.' :: rest =>
    if rest.takeWhile isDigit = [] then none
    else some ('.' :: rest.takeWhile isDigit, rest.dropWhile isDigit)
  | [], _ => none
  | whole, '.' :: rest =>
    some (whole ++ '.' :: rest.takeWhile isDigit, rest.dropWhile isDigit)
  | whole, rest => some (whole, rest)

/-- A sign at the front of a text, if there is one, and what follows. -/
def sign : List Char → List Char × List Char
  | '+' :: rest => (['+'], rest)
  | '-' :: rest => (['-'], rest)
  | rest => ([], rest)

/-- An exponent at the front of a text, if there is one, and what follows. -/
def exponent : List Char → List Char × List Char
  | [] => ([], [])
  | e :: s =>
    let digits := (sign s).2.takeWhile isDigit
    if (e = 'e' ∨ e = 'E') ∧ digits ≠ [] then
      (e :: (sign s).1 ++ digits, (sign s).2.dropWhile isDigit)
    else ([], e :: s)

/-- A signed number at the front of a text. -/
def numberText? (s : List Char) : Option NumberText := do
  let (digits, rest) ← mantissa? (sign s).2
  some ⟨(sign s).1 ++ digits, (exponent rest).1, (exponent rest).2⟩

/-- A signed number after at least one blank. -/
def nextNumber? : List Char → Option NumberText
  | c :: rest => if isBlank c then numberText? (dropBlanks rest) else none
  | [] => none

/-- The unit and the comment that end a spec value line. -/
structure ValueTail where
  unit : List Char
  comment : List Char

/-- A comment, or nothing but blanks, up to the end of the line. -/
def comment? (s : List Char) : Option (List Char) :=
  match dropBlanks s with
  | [] => some []
  | '#' :: rest => if '\n' ∈ dropBlanks rest then none else some (dropBlanks rest)
  | _ => none

/-- An optional unit, in brackets or as a word that starts with an ASCII letter, and an optional
comment up to the end of the line. -/
def valueTail? (s : List Char) : Option ValueTail :=
  match dropBlanks s with
  | '[' :: rest => do
    let (unit, after) ← bracketed? ('[' :: rest)
    return ⟨unit, ← comment? after⟩
  | c :: rest =>
    if isAsciiLetter c then do
      return ⟨c :: rest.takeWhile isWord, ← comment? (rest.dropWhile isWord)⟩
    else do return ⟨[], ← comment? (c :: rest)⟩
  | [] => some ⟨[], []⟩

/-- The parts of a spec value line as they are written. -/
structure SpecValue where
  name : List Char
  numbers : List (List Char)
  unit : List Char
  comment : List Char

/-- Up to `count` further numbers, each after blanks. -/
def moreNumbers : Nat → List Char → List NumberText
  | 0, _ => []
  | count + 1, s =>
    match nextNumber? s with
    | some n => n :: moreNumbers count n.rest
    | none => []

/-- The numbers of a spec value line with what follows the last. An exponent belongs to the last
number unless the line ends properly only with it as the start of the unit. -/
def endNumbers? (first : NumberText) (more : List NumberText) :
    Option (List (List Char) × ValueTail) :=
  let last := more.getLast?.getD first
  let whole := fun n : NumberText => n.mantissa ++ n.exponent
  match valueTail? last.rest with
  | some tail => some ((first :: more).map whole, tail)
  | none =>
    if last.exponent = [] then none
    else do
      let tail ← valueTail? (last.exponent ++ last.rest)
      some (((first :: more).dropLast.map whole) ++ [last.mantissa], tail)

/-- `name actual [minimum [maximum]] [unit] # comment`. -/
def specValue? (s : List Char) : Option SpecValue := do
  let (name, rest) ← name? s
  let first ← nextNumber? rest
  let (numbers, tail) ← endNumbers? first (moreNumbers 2 first.rest)
  some ⟨name, numbers, tail.unit, tail.comment⟩

/-- The number of a spec value line that stands at a place, if there is one there. -/
def SpecValue.number? (v : SpecValue) (field : ValueField) (place : Nat) :
    Except Complaint (Option Float) :=
  match v.numbers[place]? with
  | none => .ok none
  | some text =>
    match Decimal.readSigned? text with
    | some x => .ok (some x)
    | none => .error (.invalidValue field)

/-- The spec of a spec value line, of which all numbers have to be written in ASCII. -/
def SpecValue.spec (v : SpecValue) : Except Complaint Spec := do
  let actual ← v.number? .actual 0
  let minimum ← v.number? .minimum 1
  let maximum ← v.number? .maximum 2
  return {
    name := String.ofList v.name
    actual := actual.getD 0
    minimum
    maximum
    unit := String.ofList (trim v.unit)
    comment := String.ofList (trim v.comment) }

end Form

end TesterSetup
