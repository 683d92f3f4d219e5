import TesterSetup.Expr.Error
import TesterSetup.Decimal.Literal
import TesterSetup.Text.Blank

/-!
# Reading tokens

`tokenize` splits a text into tokens with their byte offsets. A `Lexeme` is one token with the
characters that spell it and the characters after it; `Lexeme.append_eq` says that nothing is lost
between the two and `Lexeme.length_lt` that a lexeme is never empty, so reading ends.
-/

set_option autoImplicit false

namespace TesterSetup

open TesterSetup.Text

/-- The number of bytes of a text. -/
def byteLength (s : List Char) : Nat :=
  s.foldr (fun c n => c.utf8Size + n) 0

/-- A token at the front of a text, its spelling and what follows. -/
structure Lexeme where
  token : Token
  spelling : List Char
  rest : List Char

namespace Lexeme

/-- A sign. -/
def isSign (c : Char) : Bool :=
  c == '+' || c == '-'

/-- An exponent with at least one digit at the front of a text, and what follows. -/
def splitExponent : List Char → List Char × List Char
  | [] => ([], [])
  | e :: s =>
    let sign := s.takeWhile isSign
    let digits := (s.dropWhile isSign).takeWhile isAsciiDigit
    if (e = 'e' ∨ e = 'E') ∧ sign.length ≤ 1 ∧ digits ≠ [] then
      (e :: sign ++ digits, (s.dropWhile isSign).dropWhile isAsciiDigit)
    else ([], e :: s)

/-- A digit or a point. -/
def isMantissa (c : Char) : Bool :=
  isAsciiDigit c || c == '.'

/-- A number at the front of a text, and what follows: digits and points, then an exponent. -/
def splitNumber (s : List Char) : List Char × List Char :=
  let exponent := splitExponent (s.dropWhile isMantissa)
  (s.takeWhile isMantissa ++ exponent.1, exponent.2)

/-- The token that a text starts with, given its first character and the others. -/
def read (c : Char) (s : List Char) : Except Fault Lexeme :=
  match c, s with
  | '+', s => .ok ⟨.plus, [c], s⟩
  | '-', s => .ok ⟨.minus, [c], s⟩
  | '*', s => .ok ⟨.star, [c], s⟩
  | '/', s => .ok ⟨.slash, [c], s⟩
  | '(', s => .ok ⟨.leftParen, [c], s⟩
  | ')', s => .ok ⟨.rightParen, [c], s⟩
  | '?', s => .ok ⟨.question, [c], s⟩
  | ':', s => .ok ⟨.colon, [c], s⟩
  | '<', '=' :: s => .ok ⟨.lessEqual, [c, '='], s⟩
  | '<', s => .ok ⟨.less, [c], s⟩
  | '>', '=' :: s => .ok ⟨.greaterEqual, [c, '='], s⟩
  | '>', s => .ok ⟨.greater, [c], s⟩
  | '=', '=' :: s => .ok ⟨.equal, [c, '='], s⟩
  | '!', '=' :: s => .ok ⟨.notEqual, [c, '='], s⟩
  | c, s =>
    if isMantissa c then
      let number := splitNumber (c :: s)
      match Decimal.readUnsigned? number.1 with
      | some value => .ok ⟨.number value, number.1, number.2⟩
      | none => .error (.malformedNumber (String.ofList number.1))
    else if isAsciiLetter c || c == '_' then
      let spelling := c :: s.takeWhile isAsciiWord
      .ok ⟨.name (String.ofList spelling), spelling, s.dropWhile isAsciiWord⟩
    else .error (.unexpectedCharacter c)

theorem splitExponent_append (s : List Char) :
    (splitExponent s).1 ++ (splitExponent s).2 = s := by
  cases s with
  | nil => rfl
  | cons e s =>
    simp only [splitExponent]
    split
    · simp [List.takeWhile_append_dropWhile]
    · simp

theorem splitNumber_append (s : List Char) : (splitNumber s).1 ++ (splitNumber s).2 = s := by
  simp only [splitNumber, List.append_assoc, splitExponent_append,
    List.takeWhile_append_dropWhile]

theorem append_eq {c : Char} {s : List Char} {l : Lexeme} (h : read c s = .ok l) :
    l.spelling ++ l.rest = c :: s := by
  unfold read at h
  split at h
  all_goals try (cases h; rfl)
  split at h
  · dsimp only at h
    split at h
    · cases h; exact splitNumber_append _
    · cases h
  · split at h
    · cases h; simp
    · cases h

theorem spelling_ne_nil {c : Char} {s : List Char} {l : Lexeme} (h : read c s = .ok l) :
    l.spelling ≠ [] := by
  unfold read at h
  split at h
  all_goals try (cases h; simp)
  split at h
  · rename_i hc
    dsimp only at h
    split at h
    · cases h; simp [splitNumber, hc]
    · cases h
  · split at h
    · cases h; simp
    · cases h

theorem length_lt {c : Char} {s : List Char} {l : Lexeme} (h : read c s = .ok l) :
    l.rest.length < (c :: s).length := by
  have happend := congrArg List.length (append_eq h)
  have hpos := List.length_pos_iff.2 (spelling_ne_nil h)
  simp only [List.length_append] at happend
  omega

end Lexeme

/-- The tokens of a text that starts at a byte offset. -/
def tokensFrom (expression : String) (offset : Nat) (s : List Char) :
    Except EvalError (List PlacedToken) :=
  match s with
  | [] => .ok []
  | c :: s =>
    if isAsciiBlank c then tokensFrom expression (offset + c.utf8Size) s
    else
      match _h : Lexeme.read c s with
      | .error fault => .error (.malformed expression offset fault)
      | .ok l => do
        let more ← tokensFrom expression (offset + byteLength l.spelling) l.rest
        return ⟨l.token, offset⟩ :: more
termination_by s.length
decreasing_by
  · simp
  · exact Lexeme.length_lt ‹_›

/-- The tokens of an expression. -/
def tokenize (expression : String) : Except EvalError (List PlacedToken) :=
  tokensFrom expression 0 expression.toList

end TesterSetup
