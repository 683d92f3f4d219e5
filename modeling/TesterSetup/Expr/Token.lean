import TesterSetup.Expr.Tree
import TesterSetup.Decimal.Layout

/-!
# Tokens of an expression

The tokens that an expression is written with, and the names under which messages show them.
-/

set_option autoImplicit false

namespace TesterSetup

/-- A token. -/
inductive Token where
  | number (value : Float)
  | name (text : String)
  | plus
  | minus
  | star
  | slash
  | leftParen
  | rightParen
  | question
  | colon
  | less
  | greater
  | lessEqual
  | greaterEqual
  | equal
  | notEqual
  deriving Inhabited, Repr

/-- A token with the byte offset at which it starts. -/
structure PlacedToken where
  token : Token
  offset : Nat
  deriving Inhabited, Repr

/-- The operator that a token stands for between two operands. -/
def Token.binaryOp? : Token → Option BinaryOp
  | .plus => some .add
  | .minus => some .sub
  | .star => some .mul
  | .slash => some .div
  | .less => some .lt
  | .greater => some .gt
  | .lessEqual => some .le
  | .greaterEqual => some .ge
  | .equal => some .eq
  | .notEqual => some .ne
  | _ => none

/-- A token as messages show it. -/
def Token.description : Token → String
  | .number value => "Number(" ++ Decimal.expressionLayout.text value ++ ")"
  | .name text => "Ident(\"" ++ text ++ "\")"
  | .plus => "Plus"
  | .minus => "Minus"
  | .star => "Star"
  | .slash => "Slash"
  | .leftParen => "LParen"
  | .rightParen => "RParen"
  | .question => "Question"
  | .colon => "Colon"
  | .less => "Lt"
  | .greater => "Gt"
  | .lessEqual => "Le"
  | .greaterEqual => "Ge"
  | .equal => "EqEq"
  | .notEqual => "NotEq"

end TesterSetup
