import TesterSetup.Expr.Token

/-!
# Errors of expressions

An expression fails because its text cannot be read (`malformed`, with the byte offset of the
place and the reason), because a name has no value, or because a divisor is zero.
-/

set_option autoImplicit false

namespace TesterSetup

/-- What ends an unfinished part of an expression. -/
inductive Closer where
  | colon
  | rightParen
  deriving DecidableEq, Repr

/-- Why a text is no expression. -/
inductive Fault where
  | malformedNumber (lexeme : String)
  | unexpectedCharacter (c : Char)
  | unexpectedToken (token : Token)
  | unexpectedEnd
  | expected (closer : Closer)
  | trailing (token : Token)
  deriving Repr

/-- The text of a fault. -/
def Fault.message : Fault → String
  | .malformedNumber lexeme => s!"malformed number '{lexeme}'"
  | .unexpectedCharacter c => s!"unexpected character '{c}'"
  | .unexpectedToken token => s!"unexpected token {token.description}"
  | .unexpectedEnd => "unexpected end of expression"
  | .expected .colon => "expected ':' in conditional expression"
  | .expected .rightParen => "expected ')'"
  | .trailing token => s!"unexpected trailing token {token.description}"

/-- Why an expression has no value. -/
inductive EvalError where
  /-- A name without a value. -/
  | unresolved (name expression : String)
  /-- A text that is no expression, with the byte offset where it stops being one. -/
  | malformed (expression : String) (offset : Nat) (fault : Fault)
  /-- A divisor that is zero. -/
  | divisionByZero (expression : String)
  deriving Repr

/-- The text of an evaluation error. -/
def EvalError.message : EvalError → String
  | .unresolved name expression =>
    s!"unresolved identifier '{name}' in expression '{expression}'"
  | .malformed expression offset fault =>
    s!"syntax error in expression '{expression}' at offset {offset}: {fault.message}"
  | .divisionByZero expression => s!"division by zero in expression '{expression}'"

end TesterSetup
