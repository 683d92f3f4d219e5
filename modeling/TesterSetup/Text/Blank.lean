/-!
# Blank characters

White space as the Unicode property `White_Space` has it (25 code points), and the shorter ASCII
list that separates the tokens of an expression. `isBlank` decides where lines are trimmed and
where words end.
-/

set_option autoImplicit false

namespace TesterSetup.Text

/-- The code points with the Unicode property `White_Space`. -/
def isBlank (c : Char) : Bool :=
  let n := c.toNat
  (9 ≤ n && n ≤ 13) || n == 0x20 || n == 0x85 || n == 0xA0 || n == 0x1680 ||
    (0x2000 ≤ n && n ≤ 0x200A) || n == 0x2028 || n == 0x2029 || n == 0x202F || n == 0x205F ||
    n == 0x3000

/-- Space, tab, line feed, form feed and carriage return. -/
def isAsciiBlank (c : Char) : Bool :=
  c == ' ' || c == '\t' || c == '\n' || c == '\x0c' || c == '\r'

theorem isBlank_of_isAsciiBlank {c : Char} (h : isAsciiBlank c = true) : isBlank c = true := by
  simp only [isAsciiBlank, Bool.or_eq_true, beq_iff_eq] at h
  rcases h with (((h | h) | h) | h) | h <;> subst h <;> decide

/-- Removes the blanks in front. -/
def dropBlanks (s : List Char) : List Char :=
  s.dropWhile isBlank

/-- Removes the blanks at the end. -/
def dropBlanksRight (s : List Char) : List Char :=
  (s.reverse.dropWhile isBlank).reverse

/-- Removes the blanks on both sides. -/
def trim (s : List Char) : List Char :=
  dropBlanksRight (dropBlanks s)

/-- A text without the blanks on both sides. -/
def trimmed (s : String) : String :=
  String.ofList (trim s.toList)

end TesterSetup.Text
