import TesterSetup.Text.Word

/-!
# Reading whole numbers

A numeral is one or more ASCII digits with an optional plus sign in front. `readNat? bound` reads
the numerals whose value lies below `bound`; the fields of the setup languages take their bounds
from fixed widths of 8, 32 and 64 binary digits.
-/

set_option autoImplicit false

namespace TesterSetup.Text

/-- The value of an ASCII digit. -/
def digitValue (c : Char) : Nat :=
  c.toNat - '0'.toNat

/-- The value of a list of ASCII digits, most significant first. -/
def digitsValue (ds : List Char) : Nat :=
  ds.foldl (fun value d => value * 10 + digitValue d) 0

/-- The value of one or more ASCII digits. -/
def readDigits? (ds : List Char) : Option Nat :=
  if ds ≠ [] ∧ ds.all isAsciiDigit then some (digitsValue ds) else none

/-- The numbers of so many binary digits lie below this bound. -/
def widthBound (bits : Nat) : Nat :=
  Nat.pow 2 bits

/-- Reads a numeral whose value is below `bound`. -/
def readNat? (bound : Nat) (text : String) : Option Nat :=
  let digits :=
    match text.toList with
    | '+' :: rest => rest
    | s => s
  (readDigits? digits).filter (· < bound)

theorem readNat?_lt {bound n : Nat} {text : String} (h : readNat? bound text = some n) :
    n < bound := by
  simpa using (Option.filter_eq_some_iff.1 h).2

end TesterSetup.Text
