import TesterSetup.Decimal.Layout

/-!
# Fixed places

`fixedPlaces` writes a number with a fixed count of digits after the point, rounded from its exact
binary value with ties to the even neighbour. `reportText` is the form numbers take in reports:
six places without the zeros that end them, and without a point that ends the text.
-/

set_option autoImplicit false

namespace TesterSetup.Decimal

open Float.Model (UnpackedFloat)

/-- `n / 10 ^ places` written out. -/
def placed (n places : Nat) : List Char :=
  let digits := digitsOf n
  let padded := zeros (places + 1 - digits.length) ++ digits
  let whole := padded.length - places
  if places = 0 then padded else padded.take whole ++ '.' :: padded.drop whole

/-- A number with `places` digits after the point. -/
def fixedPlaces (places : Nat) (x : Float) : List Char :=
  match x.toModel.unpack with
  | .zero sign => signText sign ++ placed 0 places
  | .finite sign mantissa exponent _ =>
    let scaled := mantissa * Nat.pow 2 exponent.toNat * Nat.pow 10 places
    let n := roundDiv scaled (Nat.pow 2 (-exponent).toNat) .even
    signText sign ++ placed n places
  | _ => (nonFiniteText x).toList

/-- A text without the characters `c` that end it. -/
def dropRight (c : Char) (s : List Char) : List Char :=
  (s.reverse.dropWhile (· == c)).reverse

/-- A number as reports show it. -/
def reportText (x : Float) : String :=
  String.ofList (dropRight '.' (dropRight '0' (fixedPlaces 6 x)))

end TesterSetup.Decimal
