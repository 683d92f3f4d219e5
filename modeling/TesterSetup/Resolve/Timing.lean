import TesterSetup.Model.Timing
import TesterSetup.Resolve.Closure
import TesterSetup.Text.Digit
import TesterSetup.Text.Search

/-!
# Resolving timing

A timing setup is chosen by an equation set, one of its spec sets and one of its timing sets. The
period may be written `fract(n, d, s)`, which stands for `(n/d)*(s)`; edges are evaluated like the
settings of levels.
-/

set_option autoImplicit false

namespace TesterSetup

open TesterSetup.Text

/-- A period and the edge times of pins within it. -/
structure PinEdges where
  period : Float
  pins : PinTable EdgeId Float
  deriving Inhabited

/-- A resolved timing setup. -/
structure TimingResolution where
  closure : Variables
  pinEdges : PinEdges
  deriving Inhabited

namespace Fract

/-- An argument with the blanks around it, and what follows: word characters and points. -/
def argument? (s : List Char) : Option (List Char × List Char) :=
  let isPart := fun c => isWord c || c == '.'
  let text := dropBlanks s
  match text.takeWhile isPart with
  | [] => none
  | argument => some (argument, dropBlanks (text.dropWhile isPart))

/-- An argument with the comma behind it, and what follows. -/
def argumentWithComma? (s : List Char) : Option (List Char × List Char) := do
  match ← argument? s with
  | (argument, ',' :: rest) => some (argument, rest)
  | _ => none

/-- The three arguments of `fract(n, d, s)`. -/
def arguments? (s : List Char) : Option (List Char × List Char × List Char) := do
  guard ("fract(".toList.isPrefixOf s)
  let (n, rest) ← argumentWithComma? (s.drop "fract(".length)
  let (d, rest) ← argumentWithComma? rest
  match ← argument? rest with
  | (scale, [')']) => some (n, d, scale)
  | _ => none

/-- The expression `(n/d)*(s)`. -/
def expand (n d scale : List Char) : String :=
  String.ofList (['('] ++ n ++ ['/'] ++ d ++ [')', '*', '('] ++ scale ++ [')'])

end Fract

/-- The expression of a period. -/
def periodExpression (period : String) : Except ResolveError String :=
  let text := trimmed period
  if contains text "fract(" then
    match Fract.arguments? text.toList with
    | some (n, d, scale) => .ok (Fract.expand n d scale)
    | none => .error (.malformedFract text)
  else .ok text

/-- Writes edges to each pin of a list. -/
def settleEdges (evaluate : Evaluator) (closure : Variables) (pins : List String) :
    List (EdgeId × String) → PinTable EdgeId Float → Traced (PinTable EdgeId Float)
  | [], table => pure table
  | (edge, expression) :: rest, table => do
    let value ← Traced.valueOf evaluate (.edge edge expression pins) expression closure
    settleEdges evaluate closure pins rest (table.writeAll pins edge value)

/-- Writes the edges of blocks one after the other. -/
def settleEdgeBlocks (evaluate : Evaluator) (closure : Variables) :
    List EdgeBlock → PinTable EdgeId Float → Traced (PinTable EdgeId Float)
  | [], table => pure table
  | block :: rest, table => do
    let table ← settleEdges evaluate closure block.pins block.edges.entries table
    settleEdgeBlocks evaluate closure rest table

/-- The period and the edges of a timing set over a closure. -/
def TimingSet.resolve (evaluate : Evaluator) (eqnset : Nat) (t : TimingSet)
    (closure : Variables) : Traced PinEdges := do
  let text ←
    match t.period with
    | some period => Traced.lift (periodExpression period)
    | none => Traced.fail (.missingPeriod t.num eqnset)
  let period ← Traced.valueOf evaluate (.period t.num eqnset) text closure
  let pins ← settleEdgeBlocks evaluate closure t.edgeblocks .empty
  return ⟨period, pins⟩

/-- Resolves the setup of an equation set, a spec set and a timing set. -/
def Timing.resolve (evaluate : Evaluator) (timing : Timing) (eqnset specset timingset : Nat) :
    Traced TimingResolution := do
  let e ← Traced.ofModel (timing.eqnsets.require eqnset)
  let s ← Traced.ofModel (timing.specsets.require ⟨eqnset, specset⟩)
  let t ← Traced.ofModel (e.setups.timingsets.require timingset)
  let closure ← e.close evaluate (← Traced.lift (e.seed s))
  return ⟨closure, ← t.resolve evaluate eqnset closure⟩

end TesterSetup
