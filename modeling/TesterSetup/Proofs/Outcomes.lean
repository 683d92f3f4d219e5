/-!
# Outcomes

What a computation that may fail answers and which state it leaves, for a state and an error of any
kind. A computation that goes on with an answer goes on in the state that was left
(`outcome_bind`); an error leaves the state as it is by then.
-/

set_option autoImplicit false

namespace TesterSetup

variable {α β ε ε' σ : Type}

/-- What a computation answers from a state, and the state that it leaves. -/
def outcome (x : ExceptT ε (StateM σ) α) (s : σ) : Except ε α × σ :=
  Id.run (x.run.run s)

theorem outcome_bind (x : ExceptT ε (StateM σ) α) (f : α → ExceptT ε (StateM σ) β) (s : σ) :
    outcome (x >>= f) s =
      match outcome x s with
      | (.ok a, t) => outcome (f a) t
      | (.error e, t) => (.error e, t) := by
  rcases h : x.run.run s with ⟨r, t⟩
  have houtcome : outcome x s = (r, t) := h
  rw [houtcome]
  simp only [outcome, ExceptT.run_bind, StateT.run_bind, h]
  cases r <;> rfl

theorem outcome_get_bind (f : σ → ExceptT ε (StateM σ) α) (s : σ) :
    outcome (get >>= f) s = outcome (f s) s :=
  rfl

theorem outcome_adapt (f : ε → ε') (x : ExceptT ε (StateM σ) α) (s : σ) :
    outcome (x.adapt f) s = ((outcome x s).1.mapError f, (outcome x s).2) :=
  rfl

/-- What cannot fail hands on its answer and its state. -/
theorem outcome_lift_bind (x : StateM σ β) (f : β → ExceptT ε (StateM σ) α) (s : σ) :
    outcome ((liftM x : ExceptT ε (StateM σ) β) >>= f) s =
      outcome (f (Id.run (x.run s)).1) (Id.run (x.run s)).2 :=
  rfl

theorem outcome_mk_bind (x : StateM σ β) (f : β → StateM σ (Except ε α)) (s : σ) :
    outcome (ExceptT.mk (x >>= f)) s =
      outcome (ExceptT.mk (f (Id.run (x.run s)).1)) (Id.run (x.run s)).2 :=
  rfl

end TesterSetup
