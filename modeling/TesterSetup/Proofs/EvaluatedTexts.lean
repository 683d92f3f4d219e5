import TesterSetup.Proofs.BlockTables

/-!
# Which texts a resolution evaluates

A resolution values texts in a fixed order: the equations of its equation set, then the settings of
its blocks, or the period and the edges of a timing set. A `Demand` is one of these texts, with what
it is valued for and the names that have a value by then. A text that is one of these names is
copied, all others are handed to the evaluator (`evaluations`). What is demanded is read off the
model alone; no value has a say in it (`EqnSet.demands`, `LevelSet.blockDemands`,
`TimingSet.edgeDemands`).

`Traced.Follows` says of a run that it evaluates what a list of demands asks for, one after the
other, up to its end or up to the first failure that counts. Every link of a resolution follows its
own demands, and links that are chained follow theirs in turn (`Traced.Follows.bind`), so that
`resolutions_follow_demands` is put together link by link.
-/

set_option autoImplicit false

namespace TesterSetup

/-! ### Demands -/

/-- Whether an expression is that of a setting. -/
def Purpose.isSetting : Purpose → Bool
  | .setting .. => true
  | _ => false

/-- A text that a resolution values: what for, and the names that have a value by then. -/
structure Demand where
  purpose : Purpose
  text : String
  names : List String

namespace Demand

/-- A text that is a name with a value, which is copied. -/
def IsName (d : Demand) : Prop :=
  Text.trimmed d.text ∈ d.names

instance (d : Demand) : Decidable d.IsName :=
  inferInstanceAs (Decidable (_ ∈ _))

/-- Whether a failure counts as zero: that of a setting with a question mark which runs into a name
without a value. -/
def forgives (d : Demand) : EvalError → Bool
  | .unresolved .. => d.purpose.isSetting && Text.contains d.text "?"
  | _ => false

/-- A scope with just the names that have a value by then. -/
def SeenOver (d : Demand) (scope : Variables) : Prop :=
  ∀ n, n ∈ scope.keys ↔ n ∈ d.names

/-- The evaluator has a value for the text, or a failure that counts as zero. -/
def IsMet (evaluate : Evaluator) (d : Demand) : Prop :=
  ∃ scope, d.SeenOver scope ∧
    ∀ cause, evaluate d.text scope = .error cause → d.forgives cause = true

/-- The evaluator fails on the text, and the failure counts. -/
def FailsWith (evaluate : Evaluator) (d : Demand) (cause : EvalError) : Prop :=
  ∃ scope, d.SeenOver scope ∧ evaluate d.text scope = .error cause ∧ d.forgives cause = false

end Demand

/-- The demands whose texts are handed to the evaluator. -/
def evaluations (demands : List Demand) : List Demand :=
  demands.filter fun d ↦ ¬d.IsName

theorem evaluations_append (first second : List Demand) :
    evaluations (first ++ second) = evaluations first ++ evaluations second :=
  List.filter_append ..

theorem evaluations_of_isName {d : Demand} (h : d.IsName) : evaluations [d] = [] := by
  simp [evaluations, h]

theorem evaluations_of_not_isName {d : Demand} (h : ¬d.IsName) : evaluations [d] = [d] := by
  simp [evaluations, h]

theorem Demand.SeenOver.isName_iff {d : Demand} {scope : Variables} (h : d.SeenOver scope) :
    d.IsName ↔ ∃ value, scope.get? (Text.trimmed d.text) = some value := by
  rw [IsName, ← h, ← Option.ne_none_iff_exists', ne_eq, OrderedMap.get?_eq_none_iff, not_not]

theorem Demand.SeenOver.get?_eq_none {d : Demand} {scope : Variables} (h : d.SeenOver scope)
    (hname : ¬d.IsName) : scope.get? (Text.trimmed d.text) = none := by
  rw [h.isName_iff, ← Option.ne_none_iff_exists', not_not] at hname
  exact hname

/-! ### Runs that follow demands -/

namespace Traced

variable {α β κ σ ν : Type} {evaluate : Evaluator}

/-- A result that is a value. -/
def Succeeds (r : Except ResolveError α) : Prop :=
  ∃ a, r = .ok a

/-- A run that evaluates the texts of demands one after the other. It comes to the end of them and
then to a result of some kind, or it stops at the first failure that counts, with the text that
failed as the last one that was evaluated and the failure as its result. -/
inductive Follows (evaluate : Evaluator) (demands : List Demand)
    (ended : Except ResolveError α → Prop) (x : Traced α) : Prop where
  | through (met : ∀ d ∈ evaluations demands, d.IsMet evaluate)
    (evaluated : x.evaluated = (evaluations demands).map Demand.text) (result : ended x.result)
  | stopped {before after : List Demand} {d : Demand} {cause : EvalError}
    (split : evaluations demands = before ++ d :: after) (met : ∀ b ∈ before, b.IsMet evaluate)
    (fails : d.FailsWith evaluate cause)
    (evaluated : x.evaluated = before.map Demand.text ++ [d.text])
    (result : x.result = .error (.eval d.purpose cause))

section Chains

variable {demands rest : List Demand} {ended : Except ResolveError α → Prop}
  {ended' : Except ResolveError β → Prop} {x : Traced α} {f : α → Traced β}

theorem follows_nil {r : Except ResolveError α} (h : ended r) :
    (lift r).Follows evaluate [] ended :=
  .through (List.forall_mem_nil _) rfl h

theorem follows_pure (a : α) : (pure a : Traced α).Follows evaluate [] Succeeds :=
  follows_nil ⟨a, rfl⟩

/-- A link of a chain follows its demands, and what comes next follows the rest. -/
theorem Follows.bind (hx : x.Follows evaluate demands Succeeds)
    (hf : ∀ a, x.result = .ok a → (f a).Follows evaluate rest ended') :
    (x >>= f).Follows evaluate (demands ++ rest) ended' := by
  cases hx with
  | through met evaluated result =>
    obtain ⟨a, ha⟩ := result
    rw [bind_of_ok ha]
    cases hf a ha with
    | through met' evaluated' result' =>
      refine .through ?_ ?_ result'
      · rw [evaluations_append, List.forall_mem_append]
        exact ⟨met, met'⟩
      · rw [evaluations_append, List.map_append, evaluated, evaluated']
    | @stopped before after d cause split met' fails evaluated' result' =>
      have hsplit : evaluations (demands ++ rest) =
          (evaluations demands ++ before) ++ d :: after := by
        rw [evaluations_append, split, List.append_assoc]
      refine .stopped hsplit ?_ fails ?_ result'
      · rw [List.forall_mem_append]
        exact ⟨met, met'⟩
      · rw [evaluated, evaluated', List.map_append, List.append_assoc]
  | @stopped before after d cause split met fails evaluated result =>
    have hsplit : evaluations (demands ++ rest) =
        before ++ d :: (after ++ evaluations rest) := by
      rw [evaluations_append, split, List.append_assoc, List.cons_append]
    rw [bind_of_error result]
    exact .stopped hsplit met fails evaluated rfl

theorem Follows.bind_pure {f : α → β} (hx : x.Follows evaluate demands Succeeds) :
    (x >>= fun a ↦ pure (f a)).Follows evaluate demands Succeeds := by
  rw [← List.append_nil demands]
  exact hx.bind fun a _ ↦ follows_pure (f a)

/-- A run that ends well has come to the end of its demands. -/
theorem Follows.evaluated_of_ok {a : α} (hx : x.Follows evaluate demands ended)
    (ha : x.result = .ok a) : x.evaluated = (evaluations demands).map Demand.text := by
  cases hx with
  | through _ evaluated _ => exact evaluated
  | stopped _ _ _ _ result =>
    rw [ha] at result
    cases result

end Chains

/-! ### Values of texts -/

section Texts

variable {d : Demand} {scope : Variables}

theorem follows_of_isName (hname : d.IsName) (value : Float) :
    (pure value : Traced Float).Follows evaluate [d] Succeeds := by
  have hnone := evaluations_of_isName hname
  exact .through (by simp [hnone]) (by simp [hnone]) ⟨value, rfl⟩

theorem follows_of_evaluated {x : Traced α} (hd : d.SeenOver scope) (hname : ¬d.IsName)
    (hx : x.evaluated = [d.text])
    (hok : ∀ v, evaluate d.text scope = .ok v → Succeeds x.result)
    (hforgiven : ∀ cause, evaluate d.text scope = .error cause → d.forgives cause = true →
      Succeeds x.result)
    (herror : ∀ cause, evaluate d.text scope = .error cause → d.forgives cause = false →
      x.result = .error (.eval d.purpose cause)) : x.Follows evaluate [d] Succeeds := by
  have hsingle := evaluations_of_not_isName hname
  cases heval : evaluate d.text scope with
  | ok v =>
    refine .through ?_ (by rw [hx, hsingle]; rfl) (hok v heval)
    rw [hsingle, List.forall_mem_singleton]
    exact ⟨scope, hd, fun cause hcause ↦ by rw [heval] at hcause; cases hcause⟩
  | error cause =>
    cases hforgives : d.forgives cause with
    | true =>
      refine .through ?_ (by rw [hx, hsingle]; rfl) (hforgiven cause heval hforgives)
      rw [hsingle, List.forall_mem_singleton]
      refine ⟨scope, hd, fun other hother ↦ ?_⟩
      rw [heval] at hother
      cases hother
      exact hforgives
    | false =>
      have hsplit : evaluations [d] = [] ++ d :: [] := hsingle
      exact .stopped hsplit (List.forall_mem_nil _) ⟨scope, hd, heval, hforgives⟩ hx
        (herror cause heval hforgives)

theorem follows_valueOf (hd : d.SeenOver scope) (hsetting : d.purpose.isSetting = false) :
    (valueOf evaluate d.purpose d.text scope).Follows evaluate [d] Succeeds := by
  by_cases hname : d.IsName
  · obtain ⟨value, hvalue⟩ := hd.isName_iff.mp hname
    rw [valueOf_of_get? hvalue]
    exact follows_of_isName hname value
  · rw [valueOf_of_get?_eq_none (hd.get?_eq_none hname)]
    refine follows_of_evaluated hd hname rfl (fun v hv ↦ ⟨v, ?_⟩) (fun cause _ hforgives ↦ ?_)
      fun cause hcause _ ↦ ?_
    · rw [hv]
      rfl
    · cases cause <;> simp [Demand.forgives, hsetting] at hforgives
    · rw [hcause]
      rfl

/-- The value of a setting's expression that is no name is its evaluation, where a failure that
counts as zero is one. -/
theorem expressionValue_of_get?_eq_none {pins names : List String} {name text : String}
    (h : scope.get? (Text.trimmed text) = none) :
    expressionValue evaluate scope pins name text = ⟨[text],
      match evaluate text scope with
      | .ok v => .ok v
      | .error cause =>
        if Demand.forgives ⟨.setting name text pins, text, names⟩ cause then .ok 0
        else .error (.eval (.setting name text pins) cause)⟩ := by
  unfold expressionValue
  rw [valueOf_of_get?_eq_none h]
  cases evaluate text scope with
  | ok v => rfl
  | error cause =>
    cases cause with
    | unresolved unknown expression =>
      by_cases hquestion : Text.contains text "?" = true <;>
        simp [Except.mapError, Demand.forgives, Purpose.isSetting, hquestion]
    | malformed expression offset fault => rfl
    | divisionByZero expression => rfl

theorem follows_expressionValue {pins names : List String} {name text : String}
    (hd : Demand.SeenOver ⟨.setting name text pins, text, names⟩ scope) :
    (expressionValue evaluate scope pins name text).Follows evaluate
      [⟨.setting name text pins, text, names⟩] Succeeds := by
  by_cases hname : Demand.IsName ⟨.setting name text pins, text, names⟩
  · obtain ⟨value, hvalue⟩ := hd.isName_iff.mp hname
    have hpure : expressionValue evaluate scope pins name text = pure value := by
      unfold expressionValue
      rw [valueOf_of_get? hvalue]
      rfl
    rw [hpure]
    exact follows_of_isName hname value
  · rw [expressionValue_of_get?_eq_none (hd.get?_eq_none hname)]
    refine follows_of_evaluated hd hname rfl (fun v hv ↦ ⟨v, ?_⟩) (fun cause hcause hforgives ↦ ?_)
      fun cause hcause hforgives ↦ ?_
    · rw [hv]
    · rw [hcause]
      exact ⟨0, if_pos hforgives⟩
    · rw [hcause]
      exact if_neg (ne_true_of_eq_false hforgives)

end Texts

/-! ### Blocks -/

section Blocks

variable [DecidableEq κ]

theorem follows_settleAll {value : Assignment κ σ → Traced ν}
    {demands : Assignment κ σ → List Demand} {assignments : List (Assignment κ σ)}
    (table : PinTable κ ν)
    (h : ∀ a ∈ assignments, (value a).Follows evaluate (demands a) Succeeds) :
    (settleAll value assignments table).Follows evaluate (assignments.flatMap demands)
      Succeeds := by
  induction assignments generalizing table with
  | nil => exact follows_pure table
  | cons a rest ih =>
    rw [List.forall_mem_cons] at h
    rw [settleAll, List.flatMap_cons]
    exact h.1.bind fun v _ ↦ ih (table.writeAll a.pins a.name v) h.2

end Blocks

end Traced

/-- What a setting demands: an expression its value, a literal and a flag nothing. -/
def Setting.demands (names pins : List String) (name : String) : Setting → List Demand
  | .expression text => [⟨.setting name text pins, text, names⟩]
  | .literal _ => []
  | .flag _ => []

/-- What a block demands: each of its settings once, for all of its pins. -/
def SettingBlock.demands (names : List String) (b : SettingBlock) : List Demand :=
  b.settings.entries.flatMap fun e ↦ e.2.demands names b.pins e.1

/-- What a block of edges demands: each of its edges once, for all of its pins. -/
def EdgeBlock.demands (names : List String) (b : EdgeBlock) : List Demand :=
  b.edges.entries.map fun e ↦ ⟨.edge e.1 e.2 b.pins, e.2, names⟩

section Blocks

variable {evaluate : Evaluator} {closure : Variables} {names : List String}

theorem Setting.follows_value {pins : List String} {name : String} (setting : Setting)
    (hnames : ∀ n, n ∈ closure.keys ↔ n ∈ names) :
    (setting.value evaluate closure pins name).Follows evaluate
      (setting.demands names pins name) Traced.Succeeds := by
  cases setting with
  | literal text => exact Traced.follows_pure _
  | flag on => exact Traced.follows_pure _
  | expression text => exact (Traced.follows_expressionValue hnames).bind_pure

theorem follows_settleBlocks (blocks : List SettingBlock) (table : PinTable String SettingValue)
    (hnames : ∀ n, n ∈ closure.keys ↔ n ∈ names) :
    (settleBlocks evaluate closure blocks table).Follows evaluate
      (blocks.flatMap (SettingBlock.demands names)) Traced.Succeeds := by
  have hdemands : blocks.flatMap (SettingBlock.demands names) =
      (blocks.flatMap SettingBlock.assignments).flatMap fun a ↦
        a.setting.demands names a.pins a.name := by
    simp only [List.flatMap_assoc, SettingBlock.assignments, List.flatMap_map]
    rfl
  rw [settleBlocks_eq, hdemands]
  exact Traced.follows_settleAll table fun a _ ↦ a.setting.follows_value hnames

theorem follows_settleEdgeBlocks (blocks : List EdgeBlock) (table : PinTable EdgeId Float)
    (hnames : ∀ n, n ∈ closure.keys ↔ n ∈ names) :
    (settleEdgeBlocks evaluate closure blocks table).Follows evaluate
      (blocks.flatMap (EdgeBlock.demands names)) Traced.Succeeds := by
  have hdemands : blocks.flatMap (EdgeBlock.demands names) =
      (blocks.flatMap EdgeBlock.assignments).flatMap fun a ↦
        [⟨.edge a.name a.setting a.pins, a.setting, names⟩] := by
    simp only [List.flatMap_assoc, EdgeBlock.assignments, List.flatMap_map]
    exact congrArg (blocks.flatMap ·) (funext fun b ↦ List.map_eq_flatMap)
  rw [settleEdgeBlocks_eq, hdemands]
  exact Traced.follows_settleAll table fun a _ ↦ Traced.follows_valueOf hnames rfl

end Blocks

/-! ### Closures -/

/-- What equations demand, when some names have a value before the first of them: each its own
value, over these names and those of the equations before it. -/
def equationDemands (eqnset : Nat) (names : List String) : List (String × String) → List Demand
  | [] => []
  | (name, text) :: rest =>
    ⟨.equation name eqnset, text, names⟩ :: equationDemands eqnset (names ++ [name]) rest

section Closures

variable {Setups : Type} {e : EqnSet Setups} {s : SpecSet} {evaluate : Evaluator}
  {closure scope : Variables}

/-- What the closure of an equation set demands. -/
def EqnSet.demands (e : EqnSet Setups) : List Demand :=
  equationDemands e.num e.specs.keys e.equations.entries

/-- The names that a closure of an equation set has. -/
def EqnSet.variables (e : EqnSet Setups) : List String :=
  e.specs.keys ++ e.equations.keys

theorem follows_applyEquations {eqnset : Nat} {names : List String}
    {equations : List (String × String)} (hnames : ∀ n, n ∈ scope.keys ↔ n ∈ names) :
    (applyEquations evaluate eqnset equations scope).Follows evaluate
      (equationDemands eqnset names equations) Traced.Succeeds := by
  induction equations generalizing names scope with
  | nil => exact Traced.follows_pure scope
  | cons equation rest ih =>
    obtain ⟨name, text⟩ := equation
    have hvalue : (Traced.valueOf evaluate (.equation name eqnset) text scope).Follows evaluate
        [⟨.equation name eqnset, text, names⟩] Traced.Succeeds := Traced.follows_valueOf hnames rfl
    refine hvalue.bind fun v _ ↦ ih fun n ↦ ?_
    rw [OrderedMap.mem_keys_insert, List.mem_append, List.mem_singleton, hnames]

theorem EqnSet.mem_variables_iff {n : String} :
    n ∈ e.variables ↔ n ∈ e.specs.keys ∨ n ∈ e.equations.keys :=
  List.mem_append

theorem EqnSet.mem_keys_of_closureOver (h : (e.closureOver evaluate s).result = .ok closure)
    (n : String) : n ∈ closure.keys ↔ n ∈ e.variables := by
  have hkeys := (EqnSet.result_closureOver_eq_ok_iff.mp h).2.keys
  rw [hkeys, mem_variables_iff, List.mem_append, List.mem_filter, decide_eq_true_eq]
  tauto

theorem EqnSet.follows_closureOver (h : ∀ n ∈ e.specs.keys, (actuals s.specs n).isSome) :
    (e.closureOver evaluate s).Follows evaluate e.demands Traced.Succeeds := by
  obtain ⟨seeded, hseed⟩ : ∃ seeded, e.seed s = .ok seeded := exists_seedClosure_eq_ok h
  obtain ⟨hkeys, -⟩ := (seedClosure_eq_ok_iff e.specs.keys_nodup).mp hseed
  rw [closureOver_of_seed_ok hseed]
  exact follows_applyEquations fun n ↦ by rw [hkeys]

/-- Without a value for every declared spec nothing is evaluated. -/
theorem EqnSet.closureOver_of_not_valued
    (h : ¬∀ n ∈ e.specs.keys, (actuals s.specs n).isSome) :
    ∃ error, e.closureOver evaluate s = ⟨[], .error error⟩ := by
  cases hseed : e.seed s with
  | error error => exact ⟨error, closureOver_of_seed_error hseed⟩
  | ok seeded =>
    obtain ⟨-, hvalues⟩ := (seedClosure_eq_ok_iff e.specs.keys_nodup).mp hseed
    exact absurd (fun n hn ↦ (hvalues n hn).1) h

end Closures

/-! ### Setups -/

/-- Three numbers choose an equation set, one of its spec sets and one of its further sets, and
every declared spec has a value in the spec set. -/
structure ChoosesSetup {Setups Part : Type} [Keyed Part Nat]
    (eqnsets : Container (EqnSet Setups)) (specsets : Container SpecSet)
    (parts : Setups → Container Part) (eqnset specset part : Nat) (e : EqnSet Setups) (s : SpecSet)
    (p : Part) : Prop where
  get?_eqnset : eqnsets.get? eqnset = some e
  get?_specset : specsets.get? ⟨eqnset, specset⟩ = some s
  get?_part : (parts e.setups).get? part = some p
  valued : ∀ n ∈ e.specs.keys, (actuals s.specs n).isSome

/-- The numbers of a levels setup choose an equation set, a spec set with all its values and a level
set. -/
def Levels.Chooses (levels : Levels) : Nat → Nat → Nat → LevelsEqnSet → SpecSet → LevelSet → Prop :=
  ChoosesSetup levels.eqnsets levels.specsets LevelSetups.levelsets

/-- The numbers of a timing setup choose an equation set, a spec set with all its values and a
timing set. -/
def Timing.Chooses (timing : Timing) :
    Nat → Nat → Nat → TimingEqnSet → SpecSet → TimingSet → Prop :=
  ChoosesSetup timing.eqnsets timing.specsets TimingSetups.timingsets

section Setups

variable {Setups Part α β : Type} [Keyed Part Nat] {evaluate : Evaluator} {closure : Variables}

theorem Traced.require_bind_cases {κ : Type} [Keyed α κ] [DecidableEq κ] (c : Container α) (k : κ)
    (f : α → Traced β) :
    (c.get? k = none ∧ ∃ error, ofModel (c.require k) >>= f = ⟨[], .error error⟩) ∨
      ∃ a, c.get? k = some a ∧ ofModel (c.require k) >>= f = f a := by
  cases hget : c.get? k with
  | none =>
    rw [ofModel, Container.require, hget]
    exact .inl ⟨rfl, _, lift_error_bind _ f⟩
  | some a =>
    rw [ofModel_require_of_get? hget, lift_ok_bind]
    exact .inr ⟨a, rfl, rfl⟩

/-- The parts of a setup are looked up and its specs are seeded before anything is evaluated. Then
come its closure and what follows from it. -/
theorem resolve_cases (evaluate : Evaluator) (eqnsets : Container (EqnSet Setups))
    (specsets : Container SpecSet) (parts : Setups → Container Part) (eqnset specset part : Nat)
    (next : EqnSet Setups → Part → Variables → Traced β) (run : Traced β)
    (hrun : run = do
      let e ← Traced.ofModel (eqnsets.require eqnset)
      let s ← Traced.ofModel (specsets.require ⟨eqnset, specset⟩)
      let p ← Traced.ofModel ((parts e.setups).require part)
      let closure ← e.close evaluate (← Traced.lift (e.seed s))
      next e p closure) :
    (∃ e s p, ChoosesSetup eqnsets specsets parts eqnset specset part e s p ∧
      run = e.closureOver evaluate s >>= next e p) ∨
    (∀ e s p, ¬ChoosesSetup eqnsets specsets parts eqnset specset part e s p) ∧
      ∃ error, run = ⟨[], .error error⟩ := by
  subst hrun
  rcases Traced.require_bind_cases eqnsets eqnset _ with ⟨hnone, hfail⟩ | ⟨e, he, hfound⟩
  · refine .inr ⟨fun e s p h ↦ ?_, hfail⟩
    cases hnone.symm.trans h.get?_eqnset
  rw [hfound]
  rcases Traced.require_bind_cases specsets ⟨eqnset, specset⟩ _ with
    ⟨hnone, hfail⟩ | ⟨s, hs, hfound⟩
  · refine .inr ⟨fun e s p h ↦ ?_, hfail⟩
    cases hnone.symm.trans h.get?_specset
  rw [hfound]
  rcases Traced.require_bind_cases (parts e.setups) part _ with ⟨hnone, hfail⟩ | ⟨p, hp, hfound⟩
  · refine .inr ⟨fun e' s p h ↦ ?_, hfail⟩
    cases he.symm.trans h.get?_eqnset
    cases hnone.symm.trans h.get?_part
  rw [hfound, ← Traced.bind_assoc, ← EqnSet.closureOver]
  by_cases hvalued : ∀ n ∈ e.specs.keys, (actuals s.specs n).isSome
  · exact .inl ⟨e, s, p, ⟨he, hs, hp, hvalued⟩, rfl⟩
  · obtain ⟨error, herror⟩ : ∃ error, e.closureOver evaluate s = ⟨[], .error error⟩ :=
      EqnSet.closureOver_of_not_valued hvalued
    refine .inr ⟨fun e' s' p' h ↦ ?_, error, ?_⟩
    · cases he.symm.trans h.get?_eqnset
      cases hs.symm.trans h.get?_specset
      exact hvalued h.valued
    · rw [herror, Traced.bind_of_error rfl]

/-- A levels setup that is chosen is its closure and then its blocks. -/
theorem Levels.Chooses.resolve_eq {levels : Levels} {eqnset specset set : Nat} {e : LevelsEqnSet}
    {s : SpecSet} {l : LevelSet} (h : levels.Chooses eqnset specset set e s l)
    (evaluate : Evaluator) :
    levels.resolve evaluate eqnset specset set = do
      let closure ← e.closureOver evaluate s
      let dps ← settleBlocks evaluate closure e.setups.dpsblocks .empty
      let pins ← settleBlocks evaluate closure l.pinblocks .empty
      return ⟨closure, dps, pins⟩ := by
  unfold resolve
  rw [Traced.ofModel_require_of_get? h.get?_eqnset, Traced.lift_ok_bind,
    Traced.ofModel_require_of_get? h.get?_specset, Traced.lift_ok_bind,
    Traced.ofModel_require_of_get? h.get?_part, Traced.lift_ok_bind, ← Traced.bind_assoc]
  rfl

/-- What the blocks of a levels setup demand: those of the supplies, then those of the pins. -/
def LevelSet.blockDemands (l : LevelSet) (e : LevelsEqnSet) : List Demand :=
  (e.setups.dpsblocks ++ l.pinblocks).flatMap (SettingBlock.demands e.variables)

theorem LevelSet.follows_settle (l : LevelSet) (e : LevelsEqnSet)
    (hnames : ∀ n, n ∈ closure.keys ↔ n ∈ e.variables) :
    (do
      let dps ← settleBlocks evaluate closure e.setups.dpsblocks .empty
      let pins ← settleBlocks evaluate closure l.pinblocks .empty
      return (⟨closure, dps, pins⟩ : LevelsResolution)).Follows evaluate (l.blockDemands e)
        Traced.Succeeds := by
  rw [blockDemands, List.flatMap_append]
  exact (follows_settleBlocks e.setups.dpsblocks .empty hnames).bind fun dps _ ↦
    (follows_settleBlocks l.pinblocks .empty hnames).bind_pure

/-- What a timing set with the text of a period demands: the period, then the edges. -/
def TimingSet.edgeDemands (t : TimingSet) (e : TimingEqnSet) (period : String) : List Demand :=
  ⟨.period t.num e.num, period, e.variables⟩ ::
    t.edgeblocks.flatMap (EdgeBlock.demands e.variables)

/-- The text of a period that is evaluated, or why there is none. -/
def TimingSet.periodText (t : TimingSet) (eqnset : Nat) : Except ResolveError String :=
  match t.period with
  | some period => periodExpression period
  | none => .error (.missingPeriod t.num eqnset)

/-- A period that is not written with `fract` stands for itself. -/
theorem periodExpression_of_not_fract {period : String}
    (h : Text.contains (Text.trimmed period) "fract(" = false) :
    periodExpression period = .ok (Text.trimmed period) := by
  simp only [periodExpression, h, Bool.false_eq_true, if_false]

theorem TimingSet.resolve_eq (t : TimingSet) (eqnset : Nat) :
    t.resolve evaluate eqnset closure = do
      let text ← Traced.lift (t.periodText eqnset)
      let period ← Traced.valueOf evaluate (.period t.num eqnset) text closure
      let pins ← settleEdgeBlocks evaluate closure t.edgeblocks .empty
      return ⟨period, pins⟩ := by
  unfold resolve periodText
  cases t.period <;> rfl

theorem TimingSet.follows_resolve {t : TimingSet} {e : TimingEqnSet} {text : String}
    (hnames : ∀ n, n ∈ closure.keys ↔ n ∈ e.variables) (htext : t.periodText e.num = .ok text) :
    (t.resolve evaluate e.num closure).Follows evaluate (t.edgeDemands e text)
      Traced.Succeeds := by
  have hperiod : (Traced.valueOf evaluate (.period t.num e.num) text closure).Follows evaluate
      [⟨.period t.num e.num, text, e.variables⟩] Traced.Succeeds :=
    Traced.follows_valueOf hnames rfl
  rw [resolve_eq, htext, Traced.lift_ok_bind]
  exact hperiod.bind fun period _ ↦
    (follows_settleEdgeBlocks t.edgeblocks .empty hnames).bind_pure

/-- Which texts a resolution hands to the evaluator, for every evaluator. When the numbers of a
setup choose its parts and all specs have values, a resolution of levels evaluates what the
equations demand, in order, and then what the settings of the supplies and of the pins demand, in
order. A resolution of timing evaluates what the equations demand, then the period and then the
edges, or ends behind the equations when the period is missing or malformed. Names that have a
value are left out. The first failure that counts ends either of them at the text that failed.
Otherwise nothing is evaluated. -/
theorem resolutions_follow_demands (evaluate : Evaluator) (eqnset specset set : Nat) :
    (∀ levels : Levels,
      (∃ e s l, levels.Chooses eqnset specset set e s l ∧
        (levels.resolve evaluate eqnset specset set).Follows evaluate
          (e.demands ++ l.blockDemands e) Traced.Succeeds) ∨
      (∀ e s l, ¬levels.Chooses eqnset specset set e s l) ∧
        ∃ error, levels.resolve evaluate eqnset specset set = ⟨[], .error error⟩) ∧
    ∀ timing : Timing,
      (∃ e s t, timing.Chooses eqnset specset set e s t ∧
        (∀ text, t.periodText e.num = .ok text →
          (timing.resolve evaluate eqnset specset set).Follows evaluate
            (e.demands ++ t.edgeDemands e text) Traced.Succeeds) ∧
        ∀ error, t.periodText e.num = .error error →
          (timing.resolve evaluate eqnset specset set).Follows evaluate e.demands
            (· = .error error)) ∨
      (∀ e s t, ¬timing.Chooses eqnset specset set e s t) ∧
        ∃ error, timing.resolve evaluate eqnset specset set = ⟨[], .error error⟩ := by
  refine ⟨fun levels ↦ ?_, fun timing ↦ ?_⟩
  · refine (resolve_cases evaluate levels.eqnsets levels.specsets LevelSetups.levelsets eqnset
      specset set _ (levels.resolve evaluate eqnset specset set) rfl).imp_left ?_
    rintro ⟨e, s, l, hchooses, hrun⟩
    refine ⟨e, s, l, hchooses, ?_⟩
    rw [hrun]
    exact (EqnSet.follows_closureOver hchooses.valued).bind fun closure hclosure ↦
      l.follows_settle e (EqnSet.mem_keys_of_closureOver hclosure)
  · refine (resolve_cases evaluate timing.eqnsets timing.specsets TimingSetups.timingsets eqnset
      specset set _ (timing.resolve evaluate eqnset specset set) rfl).imp_left ?_
    rintro ⟨e, s, t, hchooses, hrun⟩
    have hnum : e.num = eqnset := Container.key_of_get? hchooses.get?_eqnset
    subst hnum
    have hfollows : (e.closureOver evaluate s).Follows evaluate e.demands Traced.Succeeds :=
      EqnSet.follows_closureOver hchooses.valued
    refine ⟨e, s, t, hchooses, fun text htext ↦ ?_, fun error herror ↦ ?_⟩
    · rw [hrun]
      exact hfollows.bind fun closure hclosure ↦
        (TimingSet.follows_resolve (EqnSet.mem_keys_of_closureOver hclosure) htext).bind_pure
    · rw [hrun, ← List.append_nil e.demands]
      refine hfollows.bind fun closure _ ↦ ?_
      rw [TimingSet.resolve_eq, herror, Traced.lift_error_bind, Traced.bind_of_error rfl]
      exact Traced.follows_nil rfl

/-- Two pins of one block share an evaluation, and a setting or a period that is a name has none. -/
theorem resolutions_follow_demands_overlapping :
    (overlappingLevels.resolve compute 1 1 1).evaluated =
      ["V*2", "0", "W+1", "mode > 0 ? V : 0"] ∧
    (scaledTiming.resolve compute 1 1 1).evaluated = ["X * 2", "edge + 1"] := by
  constructor
  · have hok : (overlappingLevels.resolve compute 1 1 1).result.isOk := by decide +kernel
    obtain ⟨r, hr⟩ := exists_eq_ok_of_isOk hok
    rcases (resolutions_follow_demands compute 1 1 1).1 overlappingLevels with
      ⟨e, s, l, hchooses, hfollows⟩ | ⟨-, error, herror⟩
    · cases hchooses.get?_eqnset
      cases hchooses.get?_part
      rw [hfollows.evaluated_of_ok hr]
      decide +kernel
    · rw [herror] at hr
      cases hr
  · have hok : (scaledTiming.resolve compute 1 1 1).result.isOk := by decide +kernel
    obtain ⟨r, hr⟩ := exists_eq_ok_of_isOk hok
    rcases (resolutions_follow_demands compute 1 1 1).2 scaledTiming with
      ⟨e, s, t, hchooses, hfollows, -⟩ | ⟨-, error, herror⟩
    · cases hchooses.get?_eqnset
      cases hchooses.get?_part
      have hperiod : periodExpression "t_per" = .ok (Text.trimmed "t_per") :=
        periodExpression_of_not_fract (by decide +kernel)
      rw [(hfollows _ hperiod).evaluated_of_ok hr]
      decide +kernel
    · rw [herror] at hr
      cases hr

end Setups

end TesterSetup
