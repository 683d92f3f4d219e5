import TesterSetup.Proofs.Continuations
import TesterSetup.Proofs.LookupLaws
import TesterSetup.Proofs.NameTokens

/-!
# Texts that are names as a whole

A text that is the name of a variable is not read as an expression: neither `compute` nor a
resolution parses it. For a name that is an identifier of expressions nothing shows of this, since
the text is a single token, its tree is that name, and evaluating the tree looks the name up
(`computeAsRead_of_isIdentifier`). An identifier is also the only kind of name for which this holds
whatever its value is: trees have no other names in them (`isIdentifier_of_mem_names`), so what any
other text reads as does not depend on the value that is stored under the text itself
(`computeAsRead_eq_of_not_isIdentifier`). `whole_names_unseen` puts the two together.
-/

set_option autoImplicit false

namespace TesterSetup

open TesterSetup.Text

/-- The value of a text that is read as an expression, whatever names have a value. -/
def computeAsRead (text : String) (scope : Variables) : Except EvalError Float := do
  let e ← parseExpr (trimmed text)
  e.eval scope (trimmed text)

section Names

variable {scope : Variables} {text n : String} {value : Float} {e : Expr}

/-- The tree of an identifier is its name. -/
theorem parseExpr_of_isIdentifier (h : isIdentifier n = true) : parseExpr n = .ok (.name n) :=
  parseExpr_eq_ok_iff.mpr
    ⟨[⟨.name n, 0⟩], tokenize_of_isIdentifier h, (Derives.name n).mono (Nat.zero_le 5)⟩

/-- The names in a tree that was read are identifiers. -/
theorem isIdentifier_of_mem_names (h : parseExpr text = .ok e) (hn : n ∈ e.names) :
    isIdentifier n = true := by
  obtain ⟨tokens, htokens, hnames⟩ := parseExpr_names h
  obtain ⟨t, ht, htoken⟩ := (hnames n).mp hn
  obtain ⟨spelling, hspelled⟩ :=
    exists_spelling_of_tokenize htokens t.token (List.mem_map_of_mem ht)
  rw [htoken] at hspelled
  cases hspelled with
  | name hidentifier => exact hidentifier
  | symbol hsymbol => cases hsymbol

theorem computeAsRead_of_isIdentifier (h : isIdentifier (trimmed text) = true)
    (hvalue : scope.get? (trimmed text) = some value) : computeAsRead text scope = .ok value := by
  have heval : Expr.eval scope (trimmed text) (.name (trimmed text)) = .ok value := by
    rw [Expr.eval, hvalue]
  rw [computeAsRead, parseExpr_of_isIdentifier h]
  exact heval

/-- What a text reads as does not depend on a value under a name that is no identifier. -/
theorem computeAsRead_eq_of_not_isIdentifier (h : isIdentifier n = false) (value other : Float) :
    computeAsRead text (scope.insert n value) = computeAsRead text (scope.insert n other) := by
  unfold computeAsRead
  cases hparse : parseExpr (trimmed text) with
  | error e => rfl
  | ok e =>
    refine Expr.eval_congr fun m hm ↦ ?_
    have hne : n ≠ m := by
      rintro rfl
      rw [isIdentifier_of_mem_names hparse hm] at h
      cases h
    rw [OrderedMap.get?_insert_of_ne hne, OrderedMap.get?_insert_of_ne hne]

/-- A text that is no name of a variable is read. -/
theorem compute_of_get?_eq_none (h : scope.get? (trimmed text) = none) :
    compute text scope = computeAsRead text scope := by
  unfold compute
  dsimp only
  rw [h]
  rfl

theorem compute_of_get? (h : scope.get? (trimmed text) = some value) :
    compute text scope = .ok value := by
  unfold compute
  dsimp only
  rw [h]

theorem compute_eq_computeAsRead (h : ∀ n ∈ scope.keys, isIdentifier n = true) :
    compute text scope = computeAsRead text scope := by
  cases hget : scope.get? (trimmed text) with
  | none => exact compute_of_get?_eq_none hget
  | some value =>
    have hkey : trimmed text ∈ scope.keys := by
      rw [← OrderedMap.contains_iff, OrderedMap.contains, hget]
      rfl
    rw [compute_of_get? hget, computeAsRead_of_isIdentifier (h _ hkey) hget]

end Names

/-- Names of variables that are identifiers are not seen as whole texts: every text has the value,
or the failure, that its trimmed form has when it is read as an expression, for the evaluator of
expressions as well as in a resolution. Any other name without blanks around it is seen: some value
of a variable with that name is not what the name reads as. -/
theorem whole_names_unseen :
    (∀ (scope : Variables) (text : String), (∀ n ∈ scope.keys, isIdentifier n = true) →
      compute text scope = computeAsRead text scope ∧
      ∀ purpose : Purpose, (Traced.valueOf compute purpose text scope).result =
        (computeAsRead text scope).mapError (.eval purpose)) ∧
    ∀ n : String, trimmed n = n → isIdentifier n = false → ∀ scope : Variables,
      ∃ value, compute n (scope.insert n value) ≠ computeAsRead n (scope.insert n value) := by
  constructor
  · intro scope text hnames
    have hcompute : compute text scope = computeAsRead text scope :=
      compute_eq_computeAsRead hnames
    refine ⟨hcompute, fun purpose ↦ ?_⟩
    rw [← hcompute]
    cases hget : scope.get? (trimmed text) with
    | none => rw [Traced.valueOf_of_get?_eq_none hget]
    | some value =>
      rw [Traced.valueOf_of_get? hget, compute_of_get? hget]
      rfl
  · intro n htrimmed hidentifier scope
    have hwhole (value : Float) : compute n (scope.insert n value) = .ok value := by
      refine compute_of_get? ?_
      rw [htrimmed, OrderedMap.get?_insert_self]
    by_contra hunseen
    push Not at hunseen
    -- what the name reads as is one result, but the variable can have either of two values
    have hzero := (hwhole 0).symm.trans (hunseen 0)
    have hone := (hwhole 1).symm.trans (hunseen 1)
    rw [computeAsRead_eq_of_not_isIdentifier hidentifier 0 1, ← hone] at hzero
    exact absurd (Except.ok.inj hzero) (by decide)

/-- Two variables. -/
def twoNames : Variables :=
  .ofList [("V", 3), ("_w2", 0)]

theorem whole_names_unseen_twoNames :
    (compute "\t_w2 " twoNames = .ok 0 ∧ computeAsRead "\t_w2 " twoNames = .ok 0) ∧
    (Traced.valueOf compute (.equation "E" 1) "V / _w2" twoNames).result =
      (computeAsRead "V / _w2" twoNames).mapError (.eval (.equation "E" 1)) ∧
    ∃ value, compute "2V" (twoNames.insert "2V" value) ≠
      computeAsRead "2V" (twoNames.insert "2V" value) := by
  have hnames : ∀ n ∈ twoNames.keys, isIdentifier n = true := by decide
  have hwhole : compute "\t_w2 " twoNames = .ok 0 := compute_of_get? (by decide)
  refine ⟨⟨hwhole, ?_⟩, (whole_names_unseen.1 twoNames "V / _w2" hnames).2 _,
    whole_names_unseen.2 "2V" (by decide) (by decide) twoNames⟩
  rw [← (whole_names_unseen.1 twoNames "\t_w2 " hnames).1, hwhole]

end TesterSetup
