/-!
# Rounding quotients

`roundDiv num den tie` is the whole number nearest to `num / den`; `tie` decides the case where
two are equally near.
-/

set_option autoImplicit false

namespace TesterSetup.Decimal

/-- Which of two equally near numbers is taken. -/
inductive Tie where
  /-- The larger one. -/
  | up
  /-- The even one. -/
  | even
  deriving DecidableEq, Repr

/-- Whether a tie above `lower` goes to the next number. -/
def Tie.goesUp (tie : Tie) (lower : Nat) : Bool :=
  match tie with
  | .up => true
  | .even => lower % 2 == 1

/-- The whole number nearest to `num / den`. -/
def roundDiv (num den : Nat) (tie : Tie) : Nat :=
  let lower := num / den
  let rest := num % den
  if 2 * rest < den then lower
  else if den < 2 * rest then lower + 1
  else if tie.goesUp lower then lower + 1
  else lower

end TesterSetup.Decimal
