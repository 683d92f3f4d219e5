import TesterSetup.Container
import TesterSetup.Resolve.Traced

/-!
# How traced results compose

A resolution is a chain of look-ups, evaluations and writes in `Traced`. This module says what the
chain does as a whole: it succeeds exactly when every link succeeds on what the links before it
gave (`result_bind_eq_ok_iff`), and it stops at the first failure with the texts that were evaluated
up to there (`bind_of_error`). The links of a resolution are look-ups in containers
(`result_ofModel_require_eq_ok_iff`) and values of texts, for which the two cases of
`Traced.valueOf` are stated apart (`valueOf_of_get?`, `valueOf_of_get?_eq_none`).
-/

set_option autoImplicit false

namespace TesterSetup

variable {α β : Type}

/-- A result that goes on with another succeeds exactly when both do. -/
theorem except_bind_eq_ok_iff {ε : Type} {x : Except ε α} {f : α → Except ε β} {b : β} :
    (x >>= f) = .ok b ↔ ∃ a, x = .ok a ∧ f a = .ok b := by
  cases x <;> simp [bind, Except.bind]

theorem except_bind_eq_error_iff {ε : Type} {x : Except ε α} {f : α → Except ε β} {e : ε} :
    (x >>= f) = .error e ↔ x = .error e ∨ ∃ a, x = .ok a ∧ f a = .error e := by
  cases x <;> simp [bind, Except.bind]

theorem exists_eq_ok_of_isOk {ε : Type} {x : Except ε α} (h : x.isOk = true) :
    ∃ a, x = .ok a := by
  cases x with
  | ok a => exact ⟨a, rfl⟩
  | error e => cases h

theorem exists_eq_ok_of_any {ε : Type} {x : Except ε α} {p : α → Bool}
    (h : x.toOption.any p = true) : ∃ a, x = .ok a ∧ p a = true := by
  cases x with
  | ok a => exact ⟨a, rfl, h⟩
  | error e => cases h

theorem except_map_eq_ok_iff {ε : Type} {x : Except ε α} {f : α → β} {b : β} :
    x.map f = .ok b ↔ ∃ a, x = .ok a ∧ f a = b := by
  cases x <;> simp [Except.map]

theorem except_map_eq_error_iff {ε : Type} {x : Except ε α} {f : α → β} {e : ε} :
    x.map f = .error e ↔ x = .error e := by
  cases x <;> simp [Except.map]

theorem except_mapError_eq_ok_iff {ε δ : Type} {x : Except ε α} {f : ε → δ} {a : α} :
    x.mapError f = .ok a ↔ x = .ok a := by
  constructor
  · intro h
    cases x with
    | ok b =>
      cases h
      rfl
    | error e => cases h
  · rintro rfl
    rfl

theorem except_mapError_eq_error_iff {ε δ : Type} {x : Except ε α} {f : ε → δ} {e : δ} :
    x.mapError f = .error e ↔ ∃ cause, x = .error cause ∧ f cause = e := by
  constructor
  · intro h
    cases x with
    | ok a => cases h
    | error cause =>
      cases h
      exact ⟨cause, rfl, rfl⟩
  · rintro ⟨cause, rfl, rfl⟩
    rfl

namespace Traced

/-! ### Chains -/

theorem result_bind_eq_ok_iff {x : Traced α} {f : α → Traced β} {b : β} :
    (x >>= f).result = .ok b ↔ ∃ a, x.result = .ok a ∧ (f a).result = .ok b := by
  rw [result_bind, except_bind_eq_ok_iff]

theorem result_bind_eq_error_iff {x : Traced α} {f : α → Traced β} {e : ResolveError} :
    (x >>= f).result = .error e ↔
      x.result = .error e ∨ ∃ a, x.result = .ok a ∧ (f a).result = .error e := by
  rw [result_bind]
  cases x.result <;> simp [bind, Except.bind]

/-- Past a success, a chain is what follows, with the texts of the success in front. -/
theorem bind_of_ok {x : Traced α} {a : α} (h : x.result = .ok a) (f : α → Traced β) :
    x >>= f = ⟨x.evaluated ++ (f a).evaluated, (f a).result⟩ := by
  change x.andThen f = _
  unfold andThen
  rw [h]

/-- A failure ends a chain. -/
theorem bind_of_error {x : Traced α} {e : ResolveError} (h : x.result = .error e)
    (f : α → Traced β) : x >>= f = ⟨x.evaluated, .error e⟩ := by
  change x.andThen f = _
  unfold andThen
  rw [h]

/-- What follows a result matters only for the value that the result has. -/
theorem bind_congr {x : Traced α} {f g : α → Traced β}
    (h : ∀ a, x.result = .ok a → f a = g a) : x >>= f = x >>= g := by
  cases hx : x.result with
  | ok a => rw [bind_of_ok hx, bind_of_ok hx, h a hx]
  | error e => rw [bind_of_error hx, bind_of_error hx]

@[simp] theorem lift_ok_bind (a : α) (f : α → Traced β) : lift (.ok a) >>= f = f a := by
  rw [bind_of_ok (result_lift _)]
  rfl

@[simp] theorem lift_error_bind (e : ResolveError) (f : α → Traced β) :
    (lift (.error e) : Traced α) >>= f = ⟨[], .error e⟩ :=
  bind_of_error (result_lift _) f

@[simp] theorem pure_bind (a : α) (f : α → Traced β) : (pure a >>= f : Traced β) = f a :=
  lift_ok_bind a f

/-- Chains may be cut anywhere. -/
theorem bind_assoc {γ : Type} (x : Traced α) (f : α → Traced β) (g : β → Traced γ) :
    x >>= f >>= g = x >>= fun a ↦ f a >>= g := by
  cases hx : x.result with
  | error e =>
    rw [bind_of_error hx, bind_of_error hx, bind_of_error rfl]
  | ok a =>
    rw [bind_of_ok hx, bind_of_ok hx]
    cases hf : (f a).result with
    | error e => rw [bind_of_error rfl, bind_of_error hf]
    | ok b => rw [bind_of_ok rfl, bind_of_ok hf, List.append_assoc]

/-! ### Look-ups -/

section Lookup

variable {κ : Type} [Keyed α κ] [DecidableEq κ]

theorem ofModel_require_of_get? {c : Container α} {k : κ} {a : α} (h : c.get? k = some a) :
    ofModel (c.require k) = lift (.ok a) := by
  rw [ofModel, Container.require, h]
  rfl

theorem result_ofModel_require_eq_ok_iff {c : Container α} {k : κ} {a : α} :
    (ofModel (c.require k)).result = .ok a ↔ c.get? k = some a := by
  constructor
  · intro h
    cases hget : c.get? k with
    | some b =>
      rw [ofModel_require_of_get? hget] at h
      cases h
      rfl
    | none =>
      rw [ofModel, Container.require, hget] at h
      cases h
  · intro h
    rw [ofModel_require_of_get? h, result_lift]

end Lookup

/-! ### Values of texts -/

variable {evaluate : Evaluator} {purpose : Purpose} {text : String} {closure : Variables}

/-- A text that is the name of a variable has its value, without an evaluation. -/
theorem valueOf_of_get? {value : Float} (h : closure.get? (Text.trimmed text) = some value) :
    valueOf evaluate purpose text closure = pure value := by
  unfold valueOf
  rw [h]

/-- Any other text is handed to the evaluator as it stands. -/
theorem valueOf_of_get?_eq_none (h : closure.get? (Text.trimmed text) = none) :
    valueOf evaluate purpose text closure =
      ⟨[text], (evaluate text closure).mapError (.eval purpose)⟩ := by
  unfold valueOf
  rw [h]

/-- A text without a value is the evaluator's failure on it. -/
theorem result_valueOf_eq_error {e : ResolveError}
    (h : (valueOf evaluate purpose text closure).result = .error e) :
    ∃ cause, evaluate text closure = .error cause ∧ e = .eval purpose cause := by
  cases hget : closure.get? (Text.trimmed text) with
  | some value =>
    rw [valueOf_of_get? hget] at h
    cases h
  | none =>
    rw [valueOf_of_get?_eq_none hget] at h
    obtain ⟨cause, hcause, rfl⟩ := except_mapError_eq_error_iff.mp h
    exact ⟨cause, hcause, rfl⟩

end Traced

end TesterSetup
