/-!
# Expression trees

An expression computes a number from named variables: literals, names, arithmetic, comparisons
(which give one or zero) and conditionals. A `Level` says how tightly an operator binds.
-/

set_option autoImplicit false

namespace TesterSetup

/-- The operators with two operands. -/
inductive BinaryOp where
  | add
  | sub
  | mul
  | div
  | lt
  | gt
  | le
  | ge
  | eq
  | ne
  deriving DecidableEq, Repr

/-- How tightly an operator binds, the loosest first. -/
def BinaryOp.level : BinaryOp → Nat
  | .lt | .gt | .le | .ge | .eq | .ne => 1
  | .add | .sub => 2
  | .mul | .div => 3

/-- An expression. -/
inductive Expr where
  | number (value : Float)
  | name (text : String)
  | binary (op : BinaryOp) (left right : Expr)
  | conditional (condition positive negative : Expr)
  deriving Inhabited, Repr

/-- The opposite of an operand, written as a difference from zero. -/
def Expr.negate (operand : Expr) : Expr :=
  .binary .sub (.number 0) operand

end TesterSetup
