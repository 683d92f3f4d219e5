import TesterSetup.Decimal.Shortest

/-!
# Number layouts

How the shortest decimal of a number is written out: a `Layout` says from which sizes on an
exponent is used and how it looks. `expressionLayout` is the layout of numbers in the messages
about expressions, `recordLayout` that of numbers in records.
-/

set_option autoImplicit false

namespace TesterSetup.Decimal

open Float.Model (UnpackedFloat)

/-- The digits of a number, most significant first. -/
def digitsOf (n : Nat) : List Char :=
  Nat.toDigits 10 n

/-- How numbers are written. -/
structure Layout where
  /-- The least decimal exponent of a number written without an exponent. -/
  least : Int
  /-- The decimal exponent from which numbers are written with an exponent. -/
  bound : Int
  /-- What stands in front of an exponent that is not negative. -/
  positiveMark : String
  /-- The choice between two equally near decimals. -/
  tie : Tie
  deriving Repr

/-- Messages about expressions use exponents below `1e-4` and from `1e16` on. -/
def expressionLayout : Layout := ⟨-4, 16, "", .up⟩

/-- Records use exponents below `1e-5` and from `1e16` on, with a sign. -/
def recordLayout : Layout := ⟨-5, 16, "+", .even⟩

/-- Zeros. -/
def zeros (n : Nat) : List Char :=
  List.replicate n '0'

/-- The text of a positive decimal: all its digits around a point, of which at least one stands on
either side, or one digit before the point and an exponent. -/
def Layout.positive (layout : Layout) (d : Scientific) : List Char :=
  let digits := digitsOf d.digits
  let leading : Int := d.exponent + digits.length - 1
  if layout.least ≤ leading ∧ leading < layout.bound then
    if 0 ≤ d.exponent then digits ++ zeros d.exponent.toNat ++ ['.', '0']
    else if 0 ≤ leading then
      digits.take (leading.toNat + 1) ++ '.' :: digits.drop (leading.toNat + 1)
    else '0' :: '.' :: zeros (-leading - 1).toNat ++ digits
  else
    let mantissa :=
      match digits with
      | d :: more@(_ :: _) => d :: '.' :: more
      | short => short
    let exponent :=
      if leading < 0 then '-' :: digitsOf (-leading).toNat
      else layout.positiveMark.toList ++ digitsOf leading.toNat
    mantissa ++ 'e' :: exponent

/-- A minus sign for a negative number. -/
def signText : UnpackedFloat.Sign → List Char
  | .negative => ['-']
  | .positive => []

/-- The text of a number, or nothing when it is not finite. -/
def Layout.finite? (layout : Layout) (x : Float) : Option String :=
  match x.toModel.unpack with
  | .notANumber => none
  | .infinity _ => none
  | .zero sign => some (String.ofList (signText sign ++ ['0', '.', '0']))
  | .finite sign mantissa exponent _ =>
    some (String.ofList
      (signText sign ++ layout.positive (shortest mantissa exponent layout.tie)))

/-- The text of a number that is not finite. -/
def nonFiniteText (x : Float) : String :=
  match x.toModel.unpack with
  | .infinity .positive => "inf"
  | .infinity .negative => "-inf"
  | _ => "NaN"

/-- The text of any number. -/
def Layout.text (layout : Layout) (x : Float) : String :=
  (layout.finite? x).getD (nonFiniteText x)

end TesterSetup.Decimal
