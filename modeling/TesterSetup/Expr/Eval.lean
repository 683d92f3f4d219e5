import TesterSetup.Expr.Parser
import TesterSetup.OrderedMap

/-!
# Evaluating expressions

`Expr.eval` gives the value of a tree under variables, `compute` that of a text. A conditional
evaluates only the branch it takes. A text that is the name of a variable as a whole has that
variable's value, whatever the name looks like.
-/

set_option autoImplicit false

namespace TesterSetup

/-- Names with their values, in order. -/
abbrev Variables := OrderedMap String Float

/-- One for a comparison that holds and zero for one that does not. -/
def truth (holds : Bool) : Float :=
  if holds then 1 else 0

/-- The value of an operator, or nothing for a division by zero. -/
def BinaryOp.apply? (op : BinaryOp) (l r : Float) : Option Float :=
  match op with
  | .add => some (l + r)
  | .sub => some (l - r)
  | .mul => some (l * r)
  | .div => if r == 0 then none else some (l / r)
  | .lt => some (truth (l < r))
  | .gt => some (truth (r < l))
  | .le => some (truth (l ≤ r))
  | .ge => some (truth (r ≤ l))
  | .eq => some (truth (l == r))
  | .ne => some (truth (l != r))

/-- The value of an expression. The text it was read from is shown in errors. -/
def Expr.eval (scope : Variables) (text : String) : Expr → Except EvalError Float
  | .number value => .ok value
  | .name n =>
    match scope.get? n with
    | some value => .ok value
    | none => .error (.unresolved n text)
  | .binary op left right => do
    let l ← left.eval scope text
    let r ← right.eval scope text
    match op.apply? l r with
    | some value => .ok value
    | none => .error (.divisionByZero text)
  | .conditional condition positive negative => do
    let c ← condition.eval scope text
    if c != 0 then positive.eval scope text else negative.eval scope text

/-- The value of a text. -/
def compute (text : String) (scope : Variables) : Except EvalError Float :=
  let text := Text.trimmed text
  match scope.get? text with
  | some value => .ok value
  | none => do
    let e ← parseExpr text
    e.eval scope text

/-- A way of finding the value of a text. -/
abbrev Evaluator := String → Variables → Except EvalError Float

end TesterSetup
