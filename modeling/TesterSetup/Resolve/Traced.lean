import TesterSetup.Expr.Eval
import TesterSetup.Resolve.Error

/-!
# Traced results

Resolving a setup hands expression texts to an evaluator. A `Traced` result remembers which, in
order, also when the resolution fails: what was evaluated before a failure stays in the trace.
`result_bind` says that the results alone compose like any other results.
-/

set_option autoImplicit false

namespace TesterSetup

/-- A result together with the texts that were evaluated for it. -/
structure Traced (α : Type) where
  evaluated : List String
  result : Except ResolveError α

namespace Traced

variable {α β : Type}

@[ext]
theorem ext {x y : Traced α} (he : x.evaluated = y.evaluated) (hr : x.result = y.result) :
    x = y := by
  cases x; cases y; simp_all

/-- A result that needed no evaluation. -/
def lift (result : Except ResolveError α) : Traced α :=
  ⟨[], result⟩

/-- A failure. -/
def fail (e : ResolveError) : Traced α :=
  lift (.error e)

/-- Goes on with the value of a result. -/
def andThen (x : Traced α) (f : α → Traced β) : Traced β :=
  match x.result with
  | .ok a =>
    let next := f a
    ⟨x.evaluated ++ next.evaluated, next.result⟩
  | .error e => ⟨x.evaluated, .error e⟩

instance : Monad Traced where
  pure a := lift (.ok a)
  bind := andThen

@[simp]
theorem result_pure (a : α) : (pure a : Traced α).result = .ok a := rfl

@[simp]
theorem evaluated_pure (a : α) : (pure a : Traced α).evaluated = [] := rfl

@[simp]
theorem result_lift (r : Except ResolveError α) : (lift r).result = r := rfl

@[simp]
theorem evaluated_lift (r : Except ResolveError α) : (lift r).evaluated = [] := rfl

theorem result_bind (x : Traced α) (f : α → Traced β) :
    (x >>= f).result = x.result >>= fun a => (f a).result := by
  show (x.andThen f).result = _
  unfold andThen
  cases h : x.result <;> rfl

/-- A model look-up as part of a resolution. -/
def ofModel (r : Except ModelError α) : Traced α :=
  lift (r.mapError .model)

/-- The value of a text. A text that is the name of a variable is not evaluated. -/
def valueOf (evaluate : Evaluator) (purpose : Purpose) (text : String) (closure : Variables) :
    Traced Float :=
  match closure.get? (Text.trimmed text) with
  | some value => pure value
  | none => ⟨[text], (evaluate text closure).mapError (.eval purpose)⟩

end Traced

end TesterSetup
