import TesterSetup.Text.Blank

/-!
# Lines and words

A line ends at a line feed, and a carriage return right before that line feed belongs to the end.
What follows the last line feed is a line of its own unless it is empty. `significantLines` are
the lines that carry something: trimmed, neither empty nor a `#` comment, with their numbers
counted from one.
-/

set_option autoImplicit false

namespace TesterSetup.Text

/-- The lines of a text, without their ends. -/
def lines : List Char → List (List Char)
  | [] => []
  | '\n' :: rest => [] :: lines rest
  | '\r' :: '\n' :: rest => [] :: lines rest
  | c :: rest =>
    match lines rest with
    | [] => [[c]]
    | line :: more => (c :: line) :: more

/-- The words of a text: its longest runs of characters that are not blank. -/
def words : List Char → List (List Char)
  | [] => []
  | c :: rest =>
    if isBlank c then words rest
    else
      match rest with
      | [] => [[c]]
      | d :: _ =>
        if isBlank d then [c] :: words rest
        else
          match words rest with
          | [] => [[c]]
          | word :: more => (c :: word) :: more

/-- A line of a text with its number, counted from one. -/
structure Line where
  number : Nat
  text : String
  deriving DecidableEq, Repr, Inhabited

/-- The trimmed lines of a text, numbered from one. -/
def numberedLines (text : String) : List Line :=
  ((lines text.toList).zipIdx 1).map fun (line, number) => ⟨number, String.ofList (trim line)⟩

/-- Whether a trimmed line carries something: it is neither empty nor a comment. -/
def isSignificant (line : String) : Bool :=
  match line.toList with
  | [] => false
  | c :: _ => c != '#'

/-- The numbered trimmed lines that are neither empty nor a comment. -/
def significantLines (text : String) : List Line :=
  (numberedLines text).filter fun line => isSignificant line.text

/-- The words of a text as texts. -/
def wordsOf (text : String) : List String :=
  (words text.toList).map String.ofList

/-- The first word of a text, or nothing when it is blank. -/
def firstWord (text : String) : Option String :=
  (wordsOf text).head?

end TesterSetup.Text
