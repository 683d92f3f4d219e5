import TesterSetup.Decimal.Rounding

/-!
# The shortest decimal that reads back

A positive double `mantissa * 2 ^ exponent` stands for the interval of reals that round to it; the
ends belong to it exactly when the mantissa is even. `shortest` takes the coarsest decimal grid
`10 ^ k` with a point in that interval and, of the points of that grid next to the value, the
nearest one. All arithmetic is in whole quarters of the last binary place, so nothing is rounded
on the way.
-/

set_option autoImplicit false

namespace TesterSetup.Decimal

/-- A positive decimal `digits * 10 ^ exponent`. -/
structure Scientific where
  digits : Nat
  exponent : Int
  deriving DecidableEq, Repr

/-- The reals that round to a double, as fractions over one denominator. -/
structure RoundingInterval where
  low : Nat
  value : Nat
  high : Nat
  denominator : Nat
  /-- Whether the ends round to the double as well. -/
  closed : Bool

/-- The reals that round to `mantissa * 2 ^ exponent`. Below the least mantissa of a binade the
neighbour is only half as far away, except at the bottom of the range. -/
def RoundingInterval.of (mantissa : Nat) (exponent : Int) : RoundingInterval :=
  let scale := Nat.pow 2 (exponent - 2).toNat
  let below := if mantissa = Nat.pow 2 52 ∧ -1074 < exponent then 1 else 2
  { low := (4 * mantissa - below) * scale
    value := 4 * mantissa * scale
    high := (4 * mantissa + 2) * scale
    denominator := Nat.pow 2 (2 - exponent).toNat
    closed := mantissa % 2 == 0 }

/-- The interval with all its members multiplied by `factor / divisor`. -/
def RoundingInterval.scale (i : RoundingInterval) (factor divisor : Nat) : RoundingInterval :=
  { i with
    low := i.low * factor
    value := i.value * factor
    high := i.high * factor
    denominator := i.denominator * divisor }

/-- Whether a positive whole number lies in the interval. -/
def RoundingInterval.holds (i : RoundingInterval) (n : Nat) : Bool :=
  let point := n * i.denominator
  0 < n && (i.low < point && point < i.high || i.closed && (point == i.low || point == i.high))

/-- The nearest of the whole numbers next to the value that lie in the interval. -/
def RoundingInterval.nearestWhole? (i : RoundingInterval) (tie : Tie) : Option Nat :=
  let lower := i.value / i.denominator
  match i.holds lower, i.holds (lower + 1) with
  | true, true => some (roundDiv i.value i.denominator tie)
  | true, false => some lower
  | false, true => some (lower + 1)
  | false, false => none

/-- The interval measured in units of `10 ^ k`. -/
def RoundingInterval.inUnits (i : RoundingInterval) (k : Int) : RoundingInterval :=
  i.scale (Nat.pow 10 (-k).toNat) (Nat.pow 10 k.toNat)

/-- The best point on the first of the grids `10 ^ top`, `10 ^ (top - 1)`, … that has one, or the
value's whole part on the last grid. -/
def RoundingInterval.searchFrom (i : RoundingInterval) (tie : Tie) (top : Int) : Nat → Scientific
  | 0 => ⟨(i.inUnits top).value / (i.inUnits top).denominator, top⟩
  | grids + 1 =>
    match (i.inUnits top).nearestWhole? tie with
    | some digits => ⟨digits, top⟩
    | none => i.searchFrom tie (top - 1) grids

/-- The shortest decimal that reads back as `mantissa * 2 ^ exponent`. No double reaches
`10 ^ 309`, and every one has a decimal of at most 17 digits, so the grids tried start above the
value and end below its last digit. -/
def shortest (mantissa : Nat) (exponent : Int) (tie : Tie) : Scientific :=
  let top := (exponent + mantissa.log2 + 1) * 30103 / 100000 + 2
  (RoundingInterval.of mantissa exponent).searchFrom tie top 40

end TesterSetup.Decimal
