import TesterSetup.Proofs.TracedComposition
import TesterSetup.Resolve.Closure

/-!
# Names that an expression mentions

A text mentions the names among its tokens and, since a text that is a variable's name is not read
as an expression, itself as a whole (`Mentions`). Reading keeps track of names exactly: a step of
the reader adds the name of its token and loses none that was read before (`mem_names_step`), so a
tree has the names of the tokens it was read from (`parseExpr_names`). Evaluation looks at nothing
but these names (`Expr.eval_congr`); hence two scopes that agree on what a text mentions give it
the same value or the same failure (`valueOf_compute_congr`).
-/

set_option autoImplicit false

namespace TesterSetup

/-! ### Names of what is being read -/

/-- The names in an expression, from left to right. -/
def Expr.names : Expr → List String
  | .number _ => []
  | .name n => [n]
  | .binary _ left right => left.names ++ right.names
  | .conditional condition positive negative =>
    condition.names ++ positive.names ++ negative.names

/-- The name that a token is. -/
def Token.names : Token → List String
  | .name n => [n]
  | _ => []

theorem Token.mem_names_iff {token : Token} {n : String} :
    n ∈ token.names ↔ token = .name n := by
  cases token <;> simp [Token.names, eq_comm]

/-- The names in the parts of a tree that wait for an operand. -/
def Frame.names : Frame → List String
  | .negate => []
  | .group => []
  | .binary _ left => left.names
  | .positive condition => condition.names
  | .negative condition branch => condition.names ++ branch.names

/-- The names in everything that has been read. -/
def Reading.names : Reading → List String
  | .expecting stack => stack.flatMap Frame.names
  | .complete operand stack => operand.names ++ stack.flatMap Frame.names

section Reading

variable {n : String} {e : Expr} {stack : List Frame} {reading next : Reading}

theorem mem_names_negate : n ∈ e.negate.names ↔ n ∈ e.names := by
  simp [Expr.negate, Expr.names]

theorem mem_names_reduce (level : Nat) :
    n ∈ (Reading.complete (Reading.reduce level e stack).1 (Reading.reduce level e stack).2).names ↔
      n ∈ (Reading.complete e stack).names := by
  induction stack generalizing e with
  | nil => rfl
  | cons frame rest ih =>
    cases frame with
    | negate =>
      rw [Reading.reduce, ih]
      simp [Reading.names, Frame.names, mem_names_negate]
    | binary op left =>
      rw [Reading.reduce]
      split
      · rw [ih]
        simp [Reading.names, Frame.names, Expr.names, or_left_comm]
      · rfl
    | group => rfl
    | positive condition => rfl
    | negative condition positive => rfl

theorem mem_names_close :
    n ∈ (Reading.complete (Reading.close e stack).1 (Reading.close e stack).2).names ↔
      n ∈ (Reading.complete e stack).names := by
  induction stack generalizing e with
  | nil => rfl
  | cons frame rest ih =>
    cases frame with
    | negate =>
      rw [Reading.close, ih]
      simp [Reading.names, Frame.names, mem_names_negate]
    | binary op left =>
      rw [Reading.close, ih]
      simp [Reading.names, Frame.names, Expr.names, or_left_comm]
    | negative condition positive =>
      rw [Reading.close, ih]
      simp [Reading.names, Frame.names, Expr.names, or_left_comm]
    | group => rfl
    | positive condition => rfl

/-- A step adds the name of its token and keeps all others. -/
theorem mem_names_step {token : Token} (h : reading.step token = .ok next) :
    n ∈ next.names ↔ n ∈ token.names ∨ n ∈ reading.names := by
  cases reading with
  | expecting stack =>
    cases token <;> cases h <;> simp [Reading.names, Frame.names, Token.names, Expr.names]
  | complete e stack =>
    unfold Reading.step at h
    dsimp only at h
    split at h
    · rename_i op hop
      have htoken : token.names = [] := by cases token <;> first | rfl | cases hop
      cases h
      rw [htoken, ← mem_names_reduce op.level]
      simp [Reading.names, Frame.names]
    · rename_i hnone
      have hnames : n ∈ _ ↔ n ∈ (Reading.complete e stack).names := mem_names_close
      split at h
      · cases h
        rw [← mem_names_reduce 0]
        simp [Reading.names, Frame.names, Token.names]
      · rename_i hclose
        cases h
        rw [← hnames, hclose]
        simp [Reading.names, Frame.names, Token.names, or_left_comm]
      · rename_i hclose
        cases h
        rw [← hnames, hclose]
        simp [Reading.names, Frame.names, Token.names]
      · cases h

/-- A closed stack on which nothing is open is empty. -/
theorem close_eq_nil (h : Reading.pending? (Reading.close e stack).2 = none) :
    (Reading.close e stack).2 = [] := by
  induction stack generalizing e with
  | nil => rfl
  | cons frame rest ih =>
    cases frame with
    | negate => exact ih h
    | binary op left => exact ih h
    | negative condition positive => exact ih h
    | group => cases h
    | positive condition => cases h

theorem mem_names_finish {whole : Expr} (h : reading.finish = .ok whole) :
    n ∈ whole.names ↔ n ∈ reading.names := by
  cases reading with
  | expecting stack => cases h
  | complete e stack =>
    unfold Reading.finish at h
    dsimp only at h
    split at h
    · cases h
    · rename_i hpending
      cases h
      have hnames : n ∈ _ ↔ n ∈ (Reading.complete e stack).names := mem_names_close
      rw [← hnames, close_eq_nil hpending]
      simp [Reading.names]

/-- A run ends in a tree with the names of its tokens and of what was read before. -/
theorem mem_names_run {textEnd : Nat} {tokens : List PlacedToken} {whole : Expr}
    (h : reading.run textEnd tokens = .ok whole) :
    n ∈ whole.names ↔ (∃ t ∈ tokens, n ∈ t.token.names) ∨ n ∈ reading.names := by
  induction tokens generalizing reading with
  | nil =>
    rw [Reading.run] at h
    cases hfinish : reading.finish with
    | ok e =>
      rw [hfinish] at h
      cases h
      rw [mem_names_finish hfinish]
      simp
    | error fault =>
      rw [hfinish] at h
      cases h
  | cons t rest ih =>
    rw [Reading.run] at h
    cases hstep : reading.step t.token with
    | ok next =>
      rw [hstep] at h
      rw [ih h, mem_names_step hstep]
      simp [or_assoc, or_left_comm]
    | error fault =>
      rw [hstep] at h
      cases h

end Reading

/-! ### Mentioned names -/

/-- A text mentions the names among the tokens of its trimmed form, and that form as a whole. -/
def Mentions (text name : String) : Prop :=
  name = Text.trimmed text ∨
    ∃ tokens, tokenize (Text.trimmed text) = .ok tokens ∧ ∃ t ∈ tokens, t.token = .name name

theorem mentions_iff {text name : String} : Mentions text name ↔ name = Text.trimmed text ∨
    ∃ t ∈ (tokenize (Text.trimmed text)).toOption.getD [], name ∈ t.token.names := by
  cases h : tokenize (Text.trimmed text) <;>
    simp [Mentions, h, Except.toOption, Token.mem_names_iff]

instance (text name : String) : Decidable (Mentions text name) :=
  decidable_of_iff _ mentions_iff.symm

/-- A tree has the names of the tokens that it was read from. -/
theorem parseExpr_names {text : String} {e : Expr} (h : parseExpr text = .ok e) :
    ∃ tokens, tokenize text = .ok tokens ∧
      ∀ n, n ∈ e.names ↔ ∃ t ∈ tokens, t.token = .name n := by
  obtain ⟨tokens, htokens, hrun⟩ := except_bind_eq_ok_iff.mp h
  refine ⟨tokens, htokens, fun n ↦ ?_⟩
  cases hreading : (Reading.expecting []).run text.utf8ByteSize tokens with
  | error fault =>
    rw [hreading] at hrun
    cases hrun
  | ok whole =>
    rw [hreading] at hrun
    cases hrun
    rw [mem_names_run hreading]
    simp [Token.mem_names_iff, Reading.names]

/-! ### Scopes that agree -/

section Agreement

variable {scope other : Variables} {text : String}

/-- A tree has the same value, or the same failure, wherever its names have the same values. -/
theorem Expr.eval_congr {e : Expr} (h : ∀ n ∈ e.names, scope.get? n = other.get? n) :
    e.eval scope text = e.eval other text := by
  induction e with
  | number value => rfl
  | name n =>
    rw [Expr.eval, Expr.eval, h n (List.mem_singleton_self n)]
  | binary op left right ihleft ihright =>
    simp only [Expr.names, List.forall_mem_append] at h
    rw [Expr.eval, Expr.eval, ihleft h.1, ihright h.2]
  | conditional condition positive negative ihcondition ihpositive ihnegative =>
    simp only [Expr.names, List.forall_mem_append] at h
    rw [Expr.eval, Expr.eval, ihcondition h.1.1, ihpositive h.1.2, ihnegative h.2]

/-- A text has the same value, or the same failure, wherever the names it mentions have the same
values. -/
theorem compute_congr (h : ∀ n, Mentions text n → scope.get? n = other.get? n) :
    compute text scope = compute text other := by
  unfold compute
  dsimp only
  rw [h (Text.trimmed text) (Or.inl rfl)]
  cases other.get? (Text.trimmed text) with
  | some value => rfl
  | none =>
    cases hparse : parseExpr (Text.trimmed text) with
    | error error => rfl
    | ok e =>
      obtain ⟨tokens, htokens, hnames⟩ := parseExpr_names hparse
      exact Expr.eval_congr fun n hn ↦ h n (Or.inr ⟨tokens, htokens, (hnames n).mp hn⟩)

/-- The same holds of the values that a resolution takes. -/
theorem valueOf_compute_congr {purpose : Purpose}
    (h : ∀ n, Mentions text n → scope.get? n = other.get? n) :
    Traced.valueOf compute purpose text scope = Traced.valueOf compute purpose text other := by
  unfold Traced.valueOf
  rw [h (Text.trimmed text) (Or.inl rfl), compute_congr h]

end Agreement

end TesterSetup
