import TesterSetup.Expr.Lexer

/-!
# Reading expressions

The grammar, loosest first:

    conditional := comparison ( '?' conditional ':' conditional )?
    comparison  := additive ( ('<' | '>' | '<=' | '>=' | '==' | '!=') additive )*
    additive    := term ( ('+' | '-') term )*
    term        := unary ( ('*' | '/') unary )*
    unary       := ('+' | '-') unary | primary
    primary     := NUMBER | NAME | '(' conditional ')'

The reader is a stack machine that takes one token per step. Either an operand has to come next,
or an operand has been read and what follows decides how much of the stack it completes: a
`Frame` is a part of the tree that waits for an operand. `step` refuses a token exactly where no
expression continues with it.
-/

set_option autoImplicit false

namespace TesterSetup

/-- A part of an expression that waits for the operand being read. -/
inductive Frame where
  /-- A minus sign. -/
  | negate
  /-- An operator with its left operand. -/
  | binary (op : BinaryOp) (left : Expr)
  /-- An opening parenthesis. -/
  | group
  /-- A condition with its question mark. -/
  | positive (condition : Expr)
  /-- A condition and its first branch with their question mark and colon. -/
  | negative (condition positive : Expr)

/-- What has been read so far. -/
inductive Reading where
  /-- An operand has to follow. -/
  | expecting (stack : List Frame)
  /-- An operand has been read. -/
  | complete (operand : Expr) (stack : List Frame)

namespace Reading

/-- Builds the minus signs and the operators that bind at least as tightly as `level`. -/
def reduce (level : Nat) (e : Expr) : List Frame → Expr × List Frame
  | .negate :: stack => reduce level e.negate stack
  | .binary op left :: stack =>
    if level ≤ op.level then reduce level (.binary op left e) stack
    else (e, .binary op left :: stack)
  | stack => (e, stack)

/-- Builds everything up to the innermost parenthesis or first branch that is still open. -/
def close (e : Expr) : List Frame → Expr × List Frame
  | .negate :: stack => close e.negate stack
  | .binary op left :: stack => close (.binary op left e) stack
  | .negative condition positive :: stack => close (.conditional condition positive e) stack
  | stack => (e, stack)

/-- What has to be closed before an expression on this stack can end. -/
def pending? : List Frame → Option Closer
  | .group :: _ => some .rightParen
  | .positive _ :: _ => some .colon
  | _ => none

/-- The fault of a token that cannot follow an operand on this closed stack. -/
def refusal (stack : List Frame) (token : Token) : Fault :=
  match pending? stack with
  | some closer => .expected closer
  | none => .trailing token

/-- Takes one token. -/
def step : Reading → Token → Except Fault Reading
  | .expecting stack, token =>
    match token with
    | .number value => .ok (.complete (.number value) stack)
    | .name text => .ok (.complete (.name text) stack)
    | .leftParen => .ok (.expecting (.group :: stack))
    | .plus => .ok (.expecting stack)
    | .minus => .ok (.expecting (.negate :: stack))
    | token => .error (.unexpectedToken token)
  | .complete e stack, token =>
    match token.binaryOp? with
    | some op =>
      let (left, stack) := reduce op.level e stack
      .ok (.expecting (.binary op left :: stack))
    | none =>
      match token, close e stack with
      | .question, _ =>
        let (condition, stack) := reduce 0 e stack
        .ok (.expecting (.positive condition :: stack))
      | .colon, (positive, .positive condition :: stack) =>
        .ok (.expecting (.negative condition positive :: stack))
      | .rightParen, (inner, .group :: stack) => .ok (.complete inner stack)
      | token, (_, stack) => .error (refusal stack token)

/-- The expression that has been read, at the end of the text. -/
def finish : Reading → Except Fault Expr
  | .expecting _ => .error .unexpectedEnd
  | .complete e stack =>
    match close e stack with
    | (whole, stack) =>
      match pending? stack with
      | some closer => .error (.expected closer)
      | none => .ok whole

/-- Takes tokens up to the end of the text, whose offset is given. A fault comes with its
offset. -/
def run (reading : Reading) (textEnd : Nat) : List PlacedToken → Except (Nat × Fault) Expr
  | [] => reading.finish.mapError fun fault => (textEnd, fault)
  | t :: rest =>
    match reading.step t.token with
    | .ok next => next.run textEnd rest
    | .error fault => .error (t.offset, fault)

end Reading

/-- Reads an expression. -/
def parseExpr (text : String) : Except EvalError Expr := do
  let tokens ← tokenize text
  ((Reading.expecting []).run text.utf8ByteSize tokens).mapError fun (offset, fault) =>
    .malformed text offset fault

end TesterSetup
