import TesterSetup.Text.Numeral

/-!
# Number literals

A literal is ASCII digits with at most one point among them and at least one digit, and an
optional exponent: `12`, `1.5`, `.25`, `3.`, `1e-9`. `readUnsigned?` reads it as the double nearest
to the decimal it writes, `readSigned?` also takes a sign in front.
-/

set_option autoImplicit false

namespace TesterSetup.Decimal

open TesterSetup.Text

/-- The double nearest to `m * 10 ^ e`, an infinity above the range. -/
def nearestDouble (m : Nat) (e : Int) : Float :=
  if e < 0 then Float.ofScientific m true (-e).toNat else Float.ofScientific m false e.toNat

/-- A whole number with an optional sign. -/
def readExponent? : List Char → Option Int
  | '-' :: rest => (readDigits? rest).map fun n => -(n : Int)
  | '+' :: rest => (readDigits? rest).map fun n => (n : Int)
  | rest => (readDigits? rest).map fun n => (n : Int)

/-- Reads a literal without a sign. -/
def readUnsigned? (s : List Char) : Option Float :=
  let whole := s.takeWhile isAsciiDigit
  let afterWhole := s.dropWhile isAsciiDigit
  let (fraction, afterFraction) :=
    match afterWhole with
    | '.' :: rest => (rest.takeWhile isAsciiDigit, rest.dropWhile isAsciiDigit)
    | rest => ([], rest)
  if whole ++ fraction = [] then none
  else
    let mantissa := digitsValue (whole ++ fraction)
    match afterFraction with
    | [] => some (nearestDouble mantissa (-(fraction.length : Int)))
    | c :: exponent =>
      if c = 'e' ∨ c = 'E' then
        (readExponent? exponent).map fun e => nearestDouble mantissa (e - fraction.length)
      else none

/-- Reads a literal with an optional sign. -/
def readSigned? : List Char → Option Float
  | '-' :: rest => (readUnsigned? rest).map Float.neg
  | '+' :: rest => readUnsigned? rest
  | s => readUnsigned? s

end TesterSetup.Decimal
