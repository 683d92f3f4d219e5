import TesterSetup.Proofs.EvaluatedTexts
import TesterSetup.Proofs.WrittenExpr

/-!
# Failures that count as zero

A resolution of levels puts zero for a setting whose evaluation runs into a name without a value
when there is a question mark in its text. This module says what that means for the tree of the
expression. A text that is read has a question mark exactly when its tree has a conditional
(`parseExpr_hasConditional`); it need not be the one that evaluation is in when it stops.
`Expr.StopsAt` says where that is: at which name, and whether inside of a conditional.

`exists_failsSoftly_iff` joins the two. `Levels.soft_failures` says of a levels setup which failures
make it fail and which ones leave a zero behind, and `not_forall_zeros_conditional` that the name
behind a zero may stand outside of every conditional.
-/

set_option autoImplicit false

namespace TesterSetup

open TesterSetup.Text

/-! ### Question marks -/

section QuestionMarks

variable {c : Char} {s : List Char}

theorem mem_dropWhile_of_not {p : Char → Bool} (hc : p c = false) : c ∈ s.dropWhile p ↔ c ∈ s := by
  refine ⟨fun h ↦ (List.dropWhile_sublist p).subset h, fun h ↦ ?_⟩
  rw [← List.takeWhile_append_dropWhile (p := p) (l := s), List.mem_append] at h
  refine h.resolve_left fun htake ↦ ?_
  rw [List.mem_takeWhile_imp htake] at hc
  cases hc

/-- What is no blank is in a text exactly when it is in its trimmed form. -/
theorem mem_trim_of_not_isBlank (hc : isBlank c = false) : c ∈ trim s ↔ c ∈ s := by
  rw [trim, dropBlanksRight, List.mem_reverse, mem_dropWhile_of_not hc, List.mem_reverse,
    dropBlanks, mem_dropWhile_of_not hc]

theorem contains_question_iff {text : String} :
    Text.contains text "?" = true ↔ '?' ∈ (trimmed text).toList := by
  have hsingle : "?".toList = ['?'] := rfl
  rw [Text.contains, occursIn_iff, hsingle, List.singleton_infix_iff, trimmed, String.toList_ofList,
    mem_trim_of_not_isBlank (by decide)]

namespace Lexeme

theorem question_notMem_splitExponent : '?' ∉ (splitExponent s).1 := by
  cases s with
  | nil => exact List.not_mem_nil
  | cons e s =>
    unfold splitExponent
    dsimp only
    split
    · rename_i hexponent
      rw [List.cons_append, List.mem_cons, List.mem_append, not_or, not_or]
      refine ⟨?_, fun h ↦ ?_, fun h ↦ ?_⟩
      · rcases hexponent.1 with rfl | rfl <;> decide
      · exact absurd (List.mem_takeWhile_imp h) (by decide)
      · exact absurd (List.mem_takeWhile_imp h) (by decide)
    · exact List.not_mem_nil

theorem question_notMem_splitNumber : '?' ∉ (splitNumber s).1 := by
  rw [splitNumber, List.mem_append, not_or]
  exact ⟨fun h ↦ absurd (List.mem_takeWhile_imp h) (by decide), question_notMem_splitExponent⟩

/-- The question mark is the only token with a question mark in its spelling. -/
theorem question_mem_spelling_iff {l : Lexeme} (h : read c s = .ok l) :
    '?' ∈ l.spelling ↔ l.token = .question := by
  unfold read at h
  split at h
  case h_15 =>
    split at h
    · dsimp only at h
      split at h
      · cases h
        exact iff_of_false question_notMem_splitNumber Token.noConfusion
      · cases h
    · split at h
      · rename_i hletter
        cases h
        refine iff_of_false ?_ Token.noConfusion
        rw [List.mem_cons, not_or]
        refine ⟨?_, fun h ↦ absurd (List.mem_takeWhile_imp h) (by decide)⟩
        rintro rfl
        exact absurd hletter (by decide)
      · cases h
  all_goals
    cases h
    simp

end Lexeme

/-- A text has a question mark among its tokens exactly when it has one among its characters. -/
theorem question_mem_tokensFrom_iff {expression : String} {offset : Nat}
    {tokens : List PlacedToken} (h : tokensFrom expression offset s = .ok tokens) :
    .question ∈ tokens.map PlacedToken.token ↔ '?' ∈ s := by
  induction hn : s.length using Nat.strong_induction_on generalizing s offset tokens with
  | _ n ih =>
    cases s with
    | nil =>
      rw [tokensFrom] at h
      cases h
      exact iff_of_false List.not_mem_nil List.not_mem_nil
    | cons c s =>
      cases hblank : isAsciiBlank c with
      | true =>
        rw [tokensFrom_blank hblank] at h
        have hne : '?' ≠ c := by
          rintro rfl
          exact absurd hblank (by decide)
        rw [ih s.length (hn ▸ Nat.lt_succ_self _) h rfl, List.mem_cons, or_iff_right hne]
      | false =>
        cases hread : Lexeme.read c s with
        | error fault =>
          rw [tokensFrom, hblank, if_neg Bool.false_ne_true] at h
          split at h
          · cases h
          · rename_i hlexeme
            rw [hread] at hlexeme
            cases hlexeme
        | ok l =>
          rw [tokensFrom_lexeme hblank hread, except_map_eq_ok_iff] at h
          obtain ⟨more, hmore, rfl⟩ := h
          rw [List.map_cons, List.mem_cons, ih _ (hn ▸ Lexeme.length_lt hread) hmore rfl,
            ← Lexeme.append_eq hread, List.mem_append, Lexeme.question_mem_spelling_iff hread]
          exact or_congr_left eq_comm

/-- Whether there is a conditional somewhere in a tree. -/
def Expr.hasConditional : Expr → Bool
  | .number _ => false
  | .name _ => false
  | .binary _ left right => left.hasConditional || right.hasConditional
  | .conditional .. => true

theorem Derives.hasConditional_iff {level : Nat} {ts : List Token} {e : Expr}
    (h : Derives level ts e) : e.hasConditional = true ↔ .question ∈ ts := by
  induction h with
  | number x => simp [Expr.hasConditional]
  | name n => simp [Expr.hasConditional]
  | group h ih => simp [ih]
  | plus h ih => simp [ih]
  | minus h ih => simp [Expr.negate, Expr.hasConditional, ih]
  | @chain t op ls rs l r hop hl hr ihl ihr =>
    have hne : Token.question ≠ t := by
      rintro rfl
      cases hop
    simp [Expr.hasConditional, ihl, ihr, hne]
  | conditional hc hp hn => simp [Expr.hasConditional]
  | tighter h ih => exact ih

/-- The tree of a text has a conditional exactly when there is a question mark in the text. -/
theorem parseExpr_hasConditional {text : String} {e : Expr} (h : parseExpr text = .ok e) :
    e.hasConditional = true ↔ '?' ∈ text.toList := by
  obtain ⟨tokens, htokens, hderives⟩ := parseExpr_eq_ok_iff.mp h
  rw [hderives.hasConditional_iff, question_mem_tokensFrom_iff htokens]

end QuestionMarks

/-! ### Where evaluation stops -/

/-- Evaluating a tree stops at a name without a value. What is evaluated before has values, and
`inside` tells whether the name stands in a conditional: in its condition or in the branch that is
taken. -/
inductive Expr.StopsAt (scope : Variables) (text n : String) : Bool → Expr → Prop where
  | name (h : scope.get? n = none) : StopsAt scope text n false (.name n)
  | left {inside : Bool} {op : BinaryOp} {l r : Expr} (h : StopsAt scope text n inside l) :
    StopsAt scope text n inside (.binary op l r)
  | right {inside : Bool} {op : BinaryOp} {l r : Expr} {x : Float}
    (hl : l.eval scope text = .ok x) (h : StopsAt scope text n inside r) :
    StopsAt scope text n inside (.binary op l r)
  | condition {inside : Bool} {c p q : Expr} (h : StopsAt scope text n inside c) :
    StopsAt scope text n true (.conditional c p q)
  | positive {inside : Bool} {c p q : Expr} {x : Float} (hc : c.eval scope text = .ok x)
    (hx : (x != 0) = true) (h : StopsAt scope text n inside p) :
    StopsAt scope text n true (.conditional c p q)
  | negative {inside : Bool} {c p q : Expr} {x : Float} (hc : c.eval scope text = .ok x)
    (hx : (x != 0) = false) (h : StopsAt scope text n inside q) :
    StopsAt scope text n true (.conditional c p q)

/-- The names that stand inside or outside of the conditionals of a tree. -/
def Expr.namesAt (inside : Bool) : Expr → List String
  | .number _ => []
  | .name n => if inside then [] else [n]
  | .binary _ left right => left.namesAt inside ++ right.namesAt inside
  | .conditional condition positive negative =>
    if inside then condition.names ++ positive.names ++ negative.names else []

section Stops

variable {scope : Variables} {text n m expression : String} {inside inside' : Bool} {e : Expr}

/-- A tree has no value for want of a name exactly when its evaluation stops at that name. -/
theorem Expr.eval_eq_unresolved_iff :
    e.eval scope text = .error (.unresolved n expression) ↔
      expression = text ∧ ∃ inside, e.StopsAt scope text n inside := by
  induction e with
  | number value =>
    refine iff_of_false (fun h ↦ ?_) fun h ↦ ?_
    · cases h
    · obtain ⟨-, inside, h⟩ := h
      cases h
  | name k =>
    rw [eval]
    cases hget : scope.get? k with
    | some value =>
      refine iff_of_false (fun h ↦ ?_) fun h ↦ ?_
      · cases h
      · obtain ⟨-, inside, h⟩ := h
        cases h with
        | name hnone =>
          rw [hget] at hnone
          cases hnone
    | none =>
      constructor
      · intro h
        cases h
        exact ⟨rfl, false, .name hget⟩
      · rintro ⟨rfl, inside, h⟩
        cases h
        rfl
  | binary op l r ihl ihr =>
    rw [eval, except_bind_eq_error_iff, ihl]
    simp only [except_bind_eq_error_iff, ihr]
    constructor
    · rintro (⟨htext, inside, h⟩ | ⟨x, hx, ⟨htext, inside, h⟩ | ⟨y, -, hdivision⟩⟩)
      · exact ⟨htext, inside, .left h⟩
      · exact ⟨htext, inside, .right hx h⟩
      · split at hdivision <;> cases hdivision
    · rintro ⟨htext, inside, h⟩
      cases h with
      | left h => exact .inl ⟨htext, inside, h⟩
      | right hx h => exact .inr ⟨_, hx, .inl ⟨htext, inside, h⟩⟩
  | conditional c p q ihc ihp ihq =>
    rw [eval, except_bind_eq_error_iff, ihc]
    constructor
    · rintro (⟨htext, inside, h⟩ | ⟨x, hx, hbranch⟩)
      · exact ⟨htext, true, .condition h⟩
      · split at hbranch
        · rename_i hne
          obtain ⟨htext, inside, h⟩ := ihp.mp hbranch
          exact ⟨htext, true, .positive hx hne h⟩
        · rename_i heq
          obtain ⟨htext, inside, h⟩ := ihq.mp hbranch
          exact ⟨htext, true, .negative hx (Bool.eq_false_iff.mpr heq) h⟩
    · rintro ⟨htext, inside, h⟩
      cases h with
      | condition h => exact .inl ⟨htext, _, h⟩
      | positive hx hne h =>
        refine .inr ⟨_, hx, ?_⟩
        rw [if_pos hne]
        exact ihp.mpr ⟨htext, _, h⟩
      | negative hx heq h =>
        refine .inr ⟨_, hx, ?_⟩
        rw [if_neg (Bool.eq_false_iff.mp heq)]
        exact ihq.mpr ⟨htext, _, h⟩

/-- Evaluation stops in one place. -/
theorem Expr.StopsAt.unique (h : e.StopsAt scope text n inside)
    (h' : e.StopsAt scope text m inside') : n = m ∧ inside = inside' := by
  have hfail {k : String} {i : Bool} {e : Expr} (h : e.StopsAt scope text k i) :
      e.eval scope text = .error (.unresolved k text) :=
    eval_eq_unresolved_iff.mpr ⟨rfl, i, h⟩
  have hname : n = m := by
    have heq := (hfail h).symm.trans (hfail h')
    cases heq
    rfl
  refine ⟨hname, ?_⟩
  induction h with
  | name hnone =>
    cases h'
    rfl
  | left h ih =>
    cases h' with
    | left h' => exact ih h'
    | right hl h' =>
      rw [hfail h] at hl
      cases hl
  | right hl h ih =>
    cases h' with
    | left h' =>
      rw [hfail h'] at hl
      cases hl
    | right hl' h' => exact ih h'
  | condition h ih | positive hc hx h ih | negative hc hx h ih => cases h' <;> rfl

theorem Expr.StopsAt.get?_eq_none (h : e.StopsAt scope text n inside) : scope.get? n = none := by
  induction h with
  | name hnone => exact hnone
  | left h ih | right hl h ih | condition h ih | positive hc hx h ih | negative hc hx h ih =>
    exact ih

theorem Expr.mem_names_of_mem_namesAt (h : n ∈ e.namesAt inside) : n ∈ e.names := by
  induction e with
  | number value => exact h
  | name k =>
    unfold namesAt at h
    split at h
    · cases h
    · exact h
  | binary op l r ihl ihr =>
    exact List.mem_append.mpr ((List.mem_append.mp h).imp ihl ihr)
  | conditional c p q ihc ihp ihq =>
    unfold namesAt at h
    split at h
    · exact h
    · cases h

/-- Evaluation stops at one of the names of the tree, and on the side of the conditionals that it is
said to be on. -/
theorem Expr.StopsAt.mem_namesAt (h : e.StopsAt scope text n inside) : n ∈ e.namesAt inside := by
  induction h with
  | name hnone => exact List.mem_singleton_self n
  | left h ih => exact List.mem_append_left _ ih
  | right hl h ih => exact List.mem_append_right _ ih
  | condition h ih =>
    exact List.mem_append_left _ (List.mem_append_left _ (mem_names_of_mem_namesAt ih))
  | positive hc hx h ih =>
    exact List.mem_append_left _ (List.mem_append_right _ (mem_names_of_mem_namesAt ih))
  | negative hc hx h ih => exact List.mem_append_right _ (mem_names_of_mem_namesAt ih)

end Stops

/-! ### Texts that fail -/

/-- A text that fails softly over a scope: it has no value, since evaluating its tree stops at a
name without one, and there is a conditional somewhere in the tree. -/
structure FailsSoftly (scope : Variables) (text n : String) (inside : Bool) (tree : Expr) :
    Prop where
  get?_eq_none : scope.get? (trimmed text) = none
  parseExpr_eq : parseExpr (trimmed text) = .ok tree
  hasConditional : tree.hasConditional = true
  stopsAt : tree.StopsAt scope (trimmed text) n inside

section Texts

variable {scope : Variables} {text n expression : String}

/-- A text fails softly in one place. -/
theorem FailsSoftly.unique {n' : String} {inside inside' : Bool} {tree tree' : Expr}
    (h : FailsSoftly scope text n inside tree) (h' : FailsSoftly scope text n' inside' tree') :
    n' = n ∧ inside' = inside := by
  cases h.parseExpr_eq.symm.trans h'.parseExpr_eq
  exact h'.stopsAt.unique h.stopsAt

theorem tokensFrom_eq_error {s : List Char} {offset : Nat} {cause : EvalError}
    (h : tokensFrom expression offset s = .error cause) :
    ∃ place fault, cause = .malformed expression place fault := by
  induction hn : s.length using Nat.strong_induction_on generalizing s offset with
  | _ k ih =>
    cases s with
    | nil =>
      rw [tokensFrom] at h
      cases h
    | cons c s =>
      cases hblank : isAsciiBlank c with
      | true =>
        rw [tokensFrom_blank hblank] at h
        exact ih s.length (hn ▸ Nat.lt_succ_self _) h rfl
      | false =>
        rw [tokensFrom, hblank, if_neg Bool.false_ne_true] at h
        split at h
        · cases h
          exact ⟨offset, _, rfl⟩
        · rename_i l hread
          rcases except_bind_eq_error_iff.mp h with hmore | ⟨more, -, hmore⟩
          · exact ih _ (hn ▸ Lexeme.length_lt hread) hmore rfl
          · cases hmore

/-- A text that is not read is malformed. -/
theorem parseExpr_eq_error {cause : EvalError} (h : parseExpr text = .error cause) :
    ∃ place fault, cause = .malformed text place fault := by
  rcases except_bind_eq_error_iff.mp h with htokens | ⟨tokens, -, hrun⟩
  · exact tokensFrom_eq_error htokens
  · obtain ⟨⟨place, fault⟩, -, rfl⟩ := except_mapError_eq_error_iff.mp hrun
    exact ⟨place, fault, rfl⟩

theorem compute_eq_unresolved_iff :
    compute text scope = .error (.unresolved n expression) ↔
      scope.get? (trimmed text) = none ∧ expression = trimmed text ∧
        ∃ tree inside, parseExpr (trimmed text) = .ok tree ∧
          tree.StopsAt scope (trimmed text) n inside := by
  unfold compute
  dsimp only
  cases hget : scope.get? (trimmed text) with
  | some value => simp
  | none =>
    rw [except_bind_eq_error_iff]
    simp only [Expr.eval_eq_unresolved_iff, true_and]
    constructor
    · rintro (hparse | ⟨tree, hparse, htext, inside, hstops⟩)
      · obtain ⟨place, fault, hcause⟩ := parseExpr_eq_error hparse
        cases hcause
      · exact ⟨htext, tree, inside, hparse, hstops⟩
    · rintro ⟨htext, tree, inside, hparse, hstops⟩
      exact .inr ⟨tree, hparse, htext, inside, hstops⟩

/-- A text fails softly exactly when its evaluation ends in a name without a value and there is a
question mark in it. -/
theorem exists_failsSoftly_iff :
    (∃ inside tree, FailsSoftly scope text n inside tree) ↔
      compute text scope = .error (.unresolved n (trimmed text)) ∧
        Text.contains text "?" = true := by
  rw [compute_eq_unresolved_iff, contains_question_iff]
  constructor
  · rintro ⟨inside, tree, h⟩
    exact ⟨⟨h.get?_eq_none, rfl, tree, inside, h.parseExpr_eq, h.stopsAt⟩,
      (parseExpr_hasConditional h.parseExpr_eq).mp h.hasConditional⟩
  · rintro ⟨⟨hnone, -, tree, inside, hparse, hstops⟩, hquestion⟩
    exact ⟨inside, tree, hnone, hparse, (parseExpr_hasConditional hparse).mpr hquestion, hstops⟩

/-- The failures that count as zero are those of texts that fail softly. -/
theorem forgives_iff {d : Demand} {cause : EvalError} (hsetting : d.purpose.isSetting = true)
    (h : compute d.text scope = .error cause) :
    d.forgives cause = true ↔
      ∃ n inside tree, cause = .unresolved n (trimmed d.text) ∧
        FailsSoftly scope d.text n inside tree := by
  constructor
  · intro hforgives
    cases cause with
    | unresolved n expression =>
      obtain ⟨-, rfl, -⟩ := compute_eq_unresolved_iff.mp h
      rw [Demand.forgives, hsetting, Bool.true_and] at hforgives
      obtain ⟨inside, tree, hsoft⟩ := exists_failsSoftly_iff.mpr ⟨h, hforgives⟩
      exact ⟨n, inside, tree, rfl, hsoft⟩
    | malformed expression place fault => cases hforgives
    | divisionByZero expression => cases hforgives
  · rintro ⟨n, inside, tree, rfl, hsoft⟩
    rw [Demand.forgives, hsetting, Bool.true_and]
    exact (exists_failsSoftly_iff.mp ⟨inside, tree, hsoft⟩).2

end Texts

/-! ### Settings that fail -/

/-- A setting fails hard over a closure: its text has no value and does not fail softly. -/
def Assignment.FailsHard (closure : Variables) (a : Assignment String Setting) (text : String)
    (cause : EvalError) : Prop :=
  a.setting = .expression text ∧ compute text closure = .error cause ∧
    ∀ n inside tree, ¬FailsSoftly closure text n inside tree

section Settings

variable {closure : Variables} {pins : List String} {name text n : String}

theorem expressionValue_compute (pins : List String) (name text : String) :
    (expressionValue compute closure pins name text).result =
      match compute text closure with
      | .ok v => .ok v
      | .error cause =>
        if Demand.forgives ⟨.setting name text pins, text, []⟩ cause then .ok 0
        else .error (.eval (.setting name text pins) cause) := by
  cases hget : closure.get? (trimmed text) with
  | some value =>
    have hcompute : compute text closure = .ok value := by
      unfold compute
      simp only [hget]
    have hvalue : expressionValue compute closure pins name text = pure value := by
      unfold expressionValue
      rw [Traced.valueOf_of_get? hget]
      rfl
    rw [hcompute, hvalue]
    rfl
  | none => exact congrArg Traced.result (Traced.expressionValue_of_get?_eq_none hget)

/-- A setting that fails softly is zero. -/
theorem result_expressionValue_of_failsSoftly {inside : Bool} {tree : Expr}
    (h : FailsSoftly closure text n inside tree) :
    (expressionValue compute closure pins name text).result = .ok 0 := by
  have hfail := (exists_failsSoftly_iff.mp ⟨inside, tree, h⟩).1
  rw [expressionValue_compute, hfail]
  exact if_pos ((forgives_iff (d := ⟨.setting name text pins, text, []⟩) rfl hfail).mpr
    ⟨n, inside, tree, rfl, h⟩)

/-- A setting that has no value and does not fail softly is an error. -/
theorem result_expressionValue_of_not_failsSoftly {cause : EvalError}
    (hfail : compute text closure = .error cause)
    (h : ∀ n inside tree, ¬FailsSoftly closure text n inside tree) :
    (expressionValue compute closure pins name text).result =
      .error (.eval (.setting name text pins) cause) := by
  rw [expressionValue_compute, hfail]
  refine if_neg fun hforgives ↦ ?_
  obtain ⟨n, inside, tree, -, hsoft⟩ :=
    (forgives_iff (d := ⟨.setting name text pins, text, []⟩) rfl hfail).mp hforgives
  exact h n inside tree hsoft

/-- The value of a setting is an error exactly when the setting fails hard, and is that failure. -/
theorem result_settingValue_eq_error_iff {a : Assignment String Setting} {error : ResolveError} :
    (settingValue compute closure a).result = .error error ↔
      ∃ text cause, a.FailsHard closure text cause ∧
        error = .eval (.setting a.name text a.pins) cause := by
  obtain ⟨pins, name, setting⟩ := a
  unfold settingValue Assignment.FailsHard
  cases setting with
  | literal text => exact iff_of_false (fun h ↦ by cases h) fun ⟨_, _, ⟨h, _⟩, _⟩ ↦ by cases h
  | flag on => exact iff_of_false (fun h ↦ by cases h) fun ⟨_, _, ⟨h, _⟩, _⟩ ↦ by cases h
  | expression text =>
    rw [Setting.value, Traced.result_bind_eq_error_iff]
    simp only [Setting.expression.injEq, Traced.result_pure, reduceCtorEq, and_false, exists_false,
      or_false]
    cases hcompute : compute text closure with
    | ok v =>
      rw [expressionValue_compute, hcompute]
      refine iff_of_false (fun h ↦ by cases h) ?_
      rintro ⟨_, _, ⟨rfl, hfail, -⟩, -⟩
      rw [hcompute] at hfail
      cases hfail
    | error cause =>
      by_cases hsoft : ∃ n inside tree, FailsSoftly closure text n inside tree
      · obtain ⟨n, inside, tree, hsoft⟩ := hsoft
        rw [result_expressionValue_of_failsSoftly hsoft]
        refine iff_of_false (fun h ↦ by cases h) ?_
        rintro ⟨_, _, ⟨rfl, -, hnot⟩, -⟩
        exact hnot n inside tree hsoft
      · have hnot : ∀ n inside tree, ¬FailsSoftly closure text n inside tree :=
          fun n inside tree h ↦ hsoft ⟨n, inside, tree, h⟩
        rw [result_expressionValue_of_not_failsSoftly hcompute hnot]
        constructor
        · rintro h
          cases h
          exact ⟨text, cause, ⟨rfl, hcompute, hnot⟩, rfl⟩
        · rintro ⟨_, _, ⟨rfl, hfail, -⟩, rfl⟩
          cases hcompute.symm.trans hfail
          rfl

end Settings

section Blocks

variable {κ σ ν : Type} [DecidableEq κ] {value : Assignment κ σ → Traced ν}
  {assignments : List (Assignment κ σ)} {table : PinTable κ ν}

/-- Assignments are settled exactly when each of them has a value. -/
theorem exists_result_settleAll_eq_ok_iff :
    (∃ settled, (settleAll value assignments table).result = .ok settled) ↔
      ∀ a ∈ assignments, ∃ v, (value a).result = .ok v := by
  induction assignments generalizing table with
  | nil => exact iff_of_true ⟨table, rfl⟩ (List.forall_mem_nil _)
  | cons a rest ih =>
    simp only [result_settleAll_cons_eq_ok_iff, List.forall_mem_cons]
    constructor
    · rintro ⟨settled, v, hv, hrest⟩
      exact ⟨⟨v, hv⟩, ih.mp ⟨settled, hrest⟩⟩
    · rintro ⟨⟨v, hv⟩, hrest⟩
      obtain ⟨settled, hsettled⟩ : ∃ settled,
          (settleAll value rest (table.writeAll a.pins a.name v)).result = .ok settled :=
        ih.mpr hrest
      exact ⟨settled, v, hv, hsettled⟩

/-- If they are not, it is for one of them. -/
theorem exists_error_of_result_settleAll {error : ResolveError}
    (h : (settleAll value assignments table).result = .error error) :
    ∃ a ∈ assignments, (value a).result = .error error := by
  induction assignments generalizing table with
  | nil => cases h
  | cons a rest ih =>
    rw [settleAll, Traced.result_bind_eq_error_iff] at h
    rcases h with ha | ⟨v, -, hrest⟩
    · exact ⟨a, List.mem_cons_self, ha⟩
    · obtain ⟨b, hb, herror⟩ := ih hrest
      exact ⟨b, List.mem_cons_of_mem a hb, herror⟩

end Blocks

/-! ### Levels that fail -/

/-- The settings of a levels setup in order, those of the supplies first. -/
def LevelSet.assignments (l : LevelSet) (e : LevelsEqnSet) : List (Assignment String Setting) :=
  (e.setups.dpsblocks ++ l.pinblocks).flatMap SettingBlock.assignments

section Levels

variable {levels : Levels} {eqnset specset set : Nat} {e : LevelsEqnSet} {s : SpecSet}
  {l : LevelSet} {closure : Variables} {r : LevelsResolution}

theorem exists_result_settingValue_iff {a : Assignment String Setting} :
    (∃ v, (settingValue compute closure a).result = .ok v) ↔
      ∀ text cause, ¬a.FailsHard closure text cause := by
  cases hvalue : (settingValue compute closure a).result with
  | ok v =>
    refine iff_of_true ⟨v, rfl⟩ fun text cause hhard ↦ ?_
    have herror := result_settingValue_eq_error_iff.mpr ⟨text, cause, hhard, rfl⟩
    rw [hvalue] at herror
    cases herror
  | error error =>
    obtain ⟨text, cause, hhard, -⟩ := result_settingValue_eq_error_iff.mp hvalue
    exact iff_of_false (fun ⟨v, hv⟩ ↦ by cases hv) fun h ↦ h text cause hhard

/-- Over its closure, a levels setup resolves exactly when none of its settings fails hard. -/
theorem Levels.Chooses.exists_result_iff (h : levels.Chooses eqnset specset set e s l)
    (hclosure : (e.closureOver compute s).result = .ok closure) :
    (∃ r, (levels.resolve compute eqnset specset set).result = .ok r) ↔
      ∀ a ∈ l.assignments e, ∀ text cause, ¬a.FailsHard closure text cause := by
  have hblocks (blocks : List SettingBlock) :
      (∃ t, (settleBlocks compute closure blocks .empty).result = .ok t) ↔
        ∀ a ∈ blocks.flatMap SettingBlock.assignments, ∀ text cause,
          ¬a.FailsHard closure text cause := by
    rw [settleBlocks_eq, exists_result_settleAll_eq_ok_iff]
    exact forall₂_congr fun a _ ↦ exists_result_settingValue_iff
  rw [LevelSet.assignments, List.flatMap_append, List.forall_mem_append, ← hblocks, ← hblocks]
  simp only [Levels.result_resolve_eq_ok_iff h.get?_eqnset h.get?_specset h.get?_part]
  constructor
  · rintro ⟨r, hr, hdps, hpins⟩
    cases hclosure.symm.trans hr
    exact ⟨⟨_, hdps⟩, _, hpins⟩
  · rintro ⟨⟨dps, hdps⟩, pins, hpins⟩
    exact ⟨⟨closure, dps, pins⟩, hclosure, hdps, hpins⟩

/-- Over its closure, a levels setup fails for a setting that fails hard. -/
theorem Levels.Chooses.exists_failsHard (h : levels.Chooses eqnset specset set e s l)
    (hclosure : (e.closureOver compute s).result = .ok closure) {error : ResolveError}
    (herror : (levels.resolve compute eqnset specset set).result = .error error) :
    ∃ a ∈ l.assignments e, ∃ text cause, a.FailsHard closure text cause ∧
      error = .eval (.setting a.name text a.pins) cause := by
  have hblocks {blocks : List SettingBlock}
      (hfail : (settleBlocks compute closure blocks .empty).result = .error error) :
      ∃ a ∈ blocks.flatMap SettingBlock.assignments, ∃ text cause,
        a.FailsHard closure text cause ∧ error = .eval (.setting a.name text a.pins) cause := by
    rw [settleBlocks_eq] at hfail
    obtain ⟨a, ha, hvalue⟩ := exists_error_of_result_settleAll hfail
    exact ⟨a, ha, result_settingValue_eq_error_iff.mp hvalue⟩
  rw [LevelSet.assignments, List.flatMap_append]
  simp only [List.mem_append, or_and_right, exists_or]
  rw [h.resolve_eq, Traced.bind_of_ok hclosure, Traced.result_bind_eq_error_iff] at herror
  rcases herror with hdps | ⟨dps, -, hrest⟩
  · exact .inl (hblocks hdps)
  · rcases Traced.result_bind_eq_error_iff.mp hrest with hpins | ⟨pins, -, hpure⟩
    · exact .inr (hblocks hpins)
    · cases hpure

/-- A setting that fails softly leaves a zero where it is the last one to write. -/
theorem value?_settleBlocks_of_failsSoftly {blocks : List SettingBlock}
    {t : PinTable String SettingValue} {a : Assignment String Setting} {pin name text n : String}
    {inside : Bool} {tree : Expr}
    (ht : (settleBlocks compute closure blocks .empty).result = .ok t)
    (hlast : lastFor (blocks.flatMap SettingBlock.assignments) pin name = some a)
    (ha : a.setting = .expression text) (hsoft : FailsSoftly closure text n inside tree) :
    t.value? pin name = some (.number 0) := by
  rw [settleBlocks_eq] at ht
  obtain ⟨v, hv, hget⟩ := value?_settleAll_of_lastFor hlast ht
  rw [settingValue, ha, Setting.value,
    Traced.bind_of_ok (result_expressionValue_of_failsSoftly hsoft)] at hv
  cases hv
  exact hget

/-- Which failures of a levels setup count. A failure of an equation ends the resolution, as an
evaluation error of that equation. Over its closure the setup resolves exactly when no setting fails
hard, and otherwise ends in an evaluation error of a setting that does. A setting fails softly when
its tree has a conditional and its evaluation stops at a name without a value, which stands at one
place in the tree, inside or outside of the conditionals; it leaves a zero behind. All others that
have no value fail hard: those without a conditional, with a division by zero or with a text that
is no expression. -/
theorem Levels.soft_failures (h : levels.Chooses eqnset specset set e s l) :
    (∀ error, (e.closureOver compute s).result = .error error →
      (levels.resolve compute eqnset specset set).result = .error error ∧
        ∃ name cause, error = .eval (.equation name e.num) cause) ∧
    ∀ closure, (e.closureOver compute s).result = .ok closure →
      ((∃ r, (levels.resolve compute eqnset specset set).result = .ok r) ↔
        ∀ a ∈ l.assignments e, ∀ text cause, ¬a.FailsHard closure text cause) ∧
      (∀ error, (levels.resolve compute eqnset specset set).result = .error error →
        ∃ a ∈ l.assignments e, ∃ text cause, a.FailsHard closure text cause ∧
          error = .eval (.setting a.name text a.pins) cause) ∧
      ∀ text n inside tree, FailsSoftly closure text n inside tree →
        compute text closure = .error (.unresolved n (trimmed text)) ∧
        n ∈ tree.namesAt inside ∧ closure.get? n = none ∧
        (∀ n' inside' tree', FailsSoftly closure text n' inside' tree' →
          n' = n ∧ inside' = inside) ∧
        ∀ r a pin name, (levels.resolve compute eqnset specset set).result = .ok r →
          a.setting = .expression text →
            (lastFor (e.setups.dpsblocks.flatMap SettingBlock.assignments) pin name = some a →
              r.pinSettings.dps.value? pin name = some (.number 0)) ∧
            (lastFor (l.pinblocks.flatMap SettingBlock.assignments) pin name = some a →
              r.pinSettings.pins.value? pin name = some (.number 0)) := by
  refine ⟨fun error herror ↦ ⟨?_, ?_⟩, fun closure hclosure ↦
    ⟨h.exists_result_iff hclosure, fun error ↦ h.exists_failsHard hclosure,
      fun text n inside tree hsoft ↦ ⟨(exists_failsSoftly_iff.mp ⟨inside, tree, hsoft⟩).1,
        hsoft.stopsAt.mem_namesAt, hsoft.stopsAt.get?_eq_none,
        fun n' inside' tree' hsoft' ↦ hsoft.unique hsoft', fun r a pin name hr ha ↦ ?_⟩⟩⟩
  · rw [h.resolve_eq, Traced.bind_of_error herror]
  · obtain ⟨seeded, hseed⟩ : ∃ seeded, e.seed s = .ok seeded := exists_seedClosure_eq_ok h.valued
    rw [EqnSet.closureOver_of_seed_ok hseed] at herror
    exact eval_of_result_applyEquations herror
  · obtain ⟨hr, hdps, hpins⟩ :=
      (Levels.result_resolve_eq_ok_iff h.get?_eqnset h.get?_specset h.get?_part).mp hr
    cases hclosure.symm.trans hr
    exact ⟨fun hlast ↦ value?_settleBlocks_of_failsSoftly hdps hlast ha hsoft,
      fun hlast ↦ value?_settleBlocks_of_failsSoftly hpins hlast ha hsoft⟩

end Levels

/-- An expression that reads a name beside a conditional. -/
def strayText : String :=
  "nope + (1 ? 2 : 3)"

/-- An equation set with a pin setting of this expression, whose name has no value. -/
def strayEqnSet : LevelsEqnSet where
  num := 1
  description := ""
  specs := .ofList [("V", "V")]
  equations := .empty
  setups :=
    { levelsets := ⟨[⟨1, "", [⟨["A"], .ofList [("vih", .expression strayText)]⟩]⟩], by decide⟩
      dpsblocks := [] }
  source := none

/-- A value for its spec. -/
def straySpecSet : SpecSet :=
  { SpecSet.ofNum 1 1 "" with specs := ⟨[.ofActual "V" 3], List.nodup_singleton "V"⟩ }

/-- Its only setup. -/
def strayLevels : Levels where
  eqnsets := ⟨[strayEqnSet], by decide⟩
  specsets := ⟨[straySpecSet], by decide⟩

theorem strayLevels_chooses :
    ∃ l, strayLevels.Chooses 1 1 1 strayEqnSet straySpecSet l ∧
      l.pinblocks = [⟨["A"], .ofList [("vih", .expression strayText)]⟩] :=
  ⟨_, ⟨rfl, rfl, rfl, by decide⟩, rfl⟩

theorem mem_strayLevels_assignments {l : LevelSet}
    (h : l.pinblocks = [⟨["A"], .ofList [("vih", .expression strayText)]⟩]) :
    (⟨["A"], "vih", .expression strayText⟩ : Assignment String Setting) ∈
      l.assignments strayEqnSet := by
  rw [LevelSet.assignments, h]
  exact List.mem_singleton_self _

/-- The setup resolves although its setting has no value, and no name of the setting stands in a
conditional. -/
theorem strayLevels_run : ∃ r : LevelsResolution,
    (strayLevels.resolve compute 1 1 1).result = .ok r ∧
      (strayEqnSet.closureOver compute straySpecSet).result = .ok r.closure ∧
      ∃ n inside tree, FailsSoftly r.closure strayText n inside tree ∧
        tree.namesAt true = [] := by
  have hrun : (strayLevels.resolve compute 1 1 1).result.toOption.any (fun r ↦
      !(compute strayText r.closure).isOk) = true := by decide +kernel
  have hnames : (parseExpr (trimmed strayText)).toOption.any (fun tree ↦
      tree.namesAt true = []) = true := by decide +kernel
  obtain ⟨r, hr, hnone⟩ := exists_eq_ok_of_any hrun
  obtain ⟨tree, htree, hempty⟩ := exists_eq_ok_of_any hnames
  obtain ⟨l, hchooses, hblocks⟩ := strayLevels_chooses
  have hclosure := ((Levels.result_resolve_eq_ok_iff hchooses.get?_eqnset hchooses.get?_specset
    hchooses.get?_part).mp hr).1
  refine ⟨r, hr, hclosure, ?_⟩
  cases hcompute : compute strayText r.closure with
  | ok v =>
    rw [hcompute] at hnone
    cases hnone
  | error cause =>
    have hsoft := (hchooses.exists_result_iff hclosure).mp ⟨r, hr⟩ _
      (mem_strayLevels_assignments hblocks) strayText cause
    by_contra hnot
    refine hsoft ⟨rfl, hcompute, fun n inside tree' h ↦ hnot ⟨n, inside, tree', h, ?_⟩⟩
    cases h.parseExpr_eq.symm.trans htree
    exact of_decide_eq_true hempty

theorem soft_failures_stray : ∃ r : LevelsResolution,
    (strayLevels.resolve compute 1 1 1).result = .ok r ∧
      r.pinSettings.pins.value? "A" "vih" = some (.number 0) := by
  obtain ⟨r, hr, hclosure, n, inside, tree, hsoft, -⟩ := strayLevels_run
  obtain ⟨l, hchooses, hblocks⟩ := strayLevels_chooses
  obtain ⟨-, -, hzero⟩ := (Levels.soft_failures hchooses).2 r.closure hclosure
  obtain ⟨-, -, -, -, hzero⟩ := hzero _ n inside tree hsoft
  refine ⟨r, hr, (hzero r ⟨["A"], "vih", .expression strayText⟩ "A" "vih" hr rfl).2 ?_⟩
  rw [hblocks]
  rfl

/-- The name behind a zero need not stand in a conditional. -/
theorem not_forall_zeros_conditional :
    ¬∀ (levels : Levels) (eqnset specset set : Nat) (e : LevelsEqnSet) (s : SpecSet)
      (l : LevelSet) (r : LevelsResolution), levels.Chooses eqnset specset set e s l →
        (levels.resolve compute eqnset specset set).result = .ok r →
          ∀ a ∈ l.assignments e, ∀ text cause, a.setting = .expression text →
            compute text r.closure = .error cause →
              ∃ n tree, cause = .unresolved n (trimmed text) ∧
                parseExpr (trimmed text) = .ok tree ∧ n ∈ tree.namesAt true := by
  intro hall
  obtain ⟨r, hr, -, n, inside, tree, hsoft, hnames⟩ := strayLevels_run
  obtain ⟨l, hchooses, hblocks⟩ := strayLevels_chooses
  have hcompute := (exists_failsSoftly_iff.mp ⟨inside, tree, hsoft⟩).1
  obtain ⟨n', tree', -, htree', hname⟩ := hall _ 1 1 1 _ _ l r hchooses hr _
    (mem_strayLevels_assignments hblocks) _ _ rfl hcompute
  cases hsoft.parseExpr_eq.symm.trans htree'
  rw [hnames] at hname
  cases hname

end TesterSetup
