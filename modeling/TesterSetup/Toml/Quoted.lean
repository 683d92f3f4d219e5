/-!
# Quoted texts

The texts of a TOML document stand in quotes. Double quotes admit escapes, single quotes take
everything as it stands, and three quotes on either side let a text go over several lines. A quoted
text holds no control characters but tabs and, where it may go over several lines, line ends.

Every reader starts behind the opening quotes and gives the text with what follows the closing ones.
-/

set_option autoImplicit false

namespace TesterSetup.Toml

/-- Whether a character may stand in a document as it is. -/
def isPlain (c : Char) : Bool :=
  c == '\t' || (32 ≤ c.toNat && c.toNat != 127)

/-- A text with what follows it. -/
abbrev Scanned := Option (List Char × List Char)

/-- Puts a character in front of a text. -/
def Scanned.after (r : Scanned) (c : Char) : Scanned :=
  r.map fun (content, rest) => (c :: content, rest)

/-- The character that a letter stands for behind a backslash. -/
def escape? : Char → Option Char
  | 'b' => some (Char.ofNat 8)
  | 't' => some '\t'
  | 'n' => some '\n'
  | 'f' => some (Char.ofNat 12)
  | 'r' => some '\r'
  | '"' => some '"'
  | '\\' => some '\\'
  | _ => none

/-- The value of a hexadecimal digit. -/
def hexValue? (c : Char) : Option Nat :=
  if '0' ≤ c ∧ c ≤ '9' then some (c.toNat - '0'.toNat)
  else if 'a' ≤ c ∧ c ≤ 'f' then some (c.toNat - 'a'.toNat + 10)
  else if 'A' ≤ c ∧ c ≤ 'F' then some (c.toNat - 'A'.toNat + 10)
  else none

/-- The character with a hexadecimal number. -/
def codePoint? (digits : List Char) : Option Char := do
  let n ← digits.foldlM (fun n d => return n * 16 + (← hexValue? d)) 0
  if n.isValidChar then some (Char.ofNat n) else none

/-- A text in double quotes. -/
def basic? : List Char → Scanned
  | [] => none
  | '"' :: rest => some ([], rest)
  | '\\' :: 'u' :: a :: b :: c :: d :: rest =>
    (codePoint? [a, b, c, d]).bind (basic? rest).after
  | '\\' :: 'U' :: a :: b :: c :: d :: e :: f :: g :: h :: rest =>
    (codePoint? [a, b, c, d, e, f, g, h]).bind (basic? rest).after
  | '\\' :: c :: rest => (escape? c).bind (basic? rest).after
  | c :: rest => if isPlain c && c != '\\' then (basic? rest).after c else none

/-- A text in single quotes. -/
def literal? : List Char → Scanned
  | [] => none
  | '\'' :: rest => some ([], rest)
  | c :: rest => if isPlain c then (literal? rest).after c else none

/-- The end of a text in three quotes: up to two quotes more belong to the text. -/
def closing (quote : Char) (rest : List Char) : List Char × List Char :=
  let more := ((rest.takeWhile (· == quote)).take 2).length
  (List.replicate more quote, rest.drop more)

/-- Whether a character is a blank or a tab. -/
def isSpace (c : Char) : Bool :=
  c == ' ' || c == '\t'

/-- Whether only blanks stand between here and the end of the line. -/
def endsLine (s : List Char) : Bool :=
  match s.dropWhile isSpace with
  | '\n' :: _ => true
  | '\r' :: '\n' :: _ => true
  | _ => false

/-- A text in three double quotes. Behind a backslash at the end of a line, blanks and line ends
are passed over. -/
def longBasic? (passing : Bool) : List Char → Scanned
  | [] => none
  | '"' :: '"' :: '"' :: rest => some (closing '"' rest)
  | '\\' :: 'u' :: a :: b :: c :: d :: rest =>
    (codePoint? [a, b, c, d]).bind (longBasic? false rest).after
  | '\\' :: 'U' :: a :: b :: c :: d :: e :: f :: g :: h :: rest =>
    (codePoint? [a, b, c, d, e, f, g, h]).bind (longBasic? false rest).after
  | '\\' :: c :: rest =>
    if endsLine (c :: rest) then
      if c == '\r' then
        match rest with
        | _ :: rest => longBasic? true rest
        | [] => none
      else longBasic? true rest
    else (escape? c).bind (longBasic? false rest).after
  | '\r' :: '\n' :: rest =>
    if passing then longBasic? true rest else (longBasic? false rest).after '\n'
  | c :: rest =>
    if passing && (isSpace c || c == '\n') then longBasic? true rest
    else if c == '\n' || (isPlain c && c != '\\') then (longBasic? false rest).after c
    else none

/-- A text in three single quotes. -/
def longLiteral? : List Char → Scanned
  | [] => none
  | '\'' :: '\'' :: '\'' :: rest => some (closing '\'' rest)
  | '\r' :: '\n' :: rest => (longLiteral? rest).after '\n'
  | c :: rest => if c == '\n' || isPlain c then (longLiteral? rest).after c else none

/-- What follows the line end that may stand right behind three quotes. -/
def dropFirstLineEnd : List Char → List Char
  | '\n' :: rest => rest
  | '\r' :: '\n' :: rest => rest
  | s => s

/-- A quoted text on one line, with its opening quote. -/
def short? : List Char → Scanned
  | '"' :: rest => basic? rest
  | '\'' :: rest => literal? rest
  | _ => none

/-- A quoted text, with its opening quotes. -/
def quoted? : List Char → Scanned
  | '"' :: '"' :: '"' :: rest => longBasic? false (dropFirstLineEnd rest)
  | '\'' :: '\'' :: '\'' :: rest => longLiteral? (dropFirstLineEnd rest)
  | s => short? s

end TesterSetup.Toml
