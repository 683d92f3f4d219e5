import TesterSetup.Proofs.LookupLaws
import TesterSetup.Proofs.TracedComposition
import TesterSetup.Resolve.Multiport

/-!
# What a closure holds

The closure of an equation set starts with a value for every declared spec and grows by one
equation after the other. This module describes the finished closure without the loop that builds
it. `EqnSet.Sees` is the scope of one equation: the specs with their given values and the earlier
equations with the values that they keep to the end. `EqnSet.IsClosure` says of a map that it has
the declared keys in order, the given values, and under every equation the value of its expression
in the scope of that equation.

`applyEquations_eq_ok_iff` is the loop: from the scope of its first equation it ends in a map
exactly when the map is a closure. `EqnSet.result_close_eq_ok_iff` joins it with the seeding of the
specs, for any way of giving values, and `EqnSet.closureOver_contents` is the result for spec sets,
with the missing values.
-/

set_option autoImplicit false

namespace TesterSetup

/-! ### Seeding -/

section Seed

variable {ε : Type} {value? : String → Option Float} {missing : String → ε}

/-- One step of the seeding: the value of a name is written, or its absence is the error. -/
def seedStep (value? : String → Option Float) (missing : String → ε) (closure : Variables)
    (name : String) : Except ε Variables :=
  match value? name with
  | some value => .ok (closure.insert name value)
  | none => .error (missing name)

theorem foldlM_seedStep_eq_ok_iff {names : List String} {closure seeded : Variables}
    (hnodup : (closure.keys ++ names).Nodup) :
    names.foldlM (seedStep value? missing) closure = .ok seeded ↔
      seeded.keys = closure.keys ++ names ∧
        (∀ n ∈ closure.keys, seeded.get? n = closure.get? n) ∧
        ∀ n ∈ names, (value? n).isSome ∧ seeded.get? n = value? n := by
  induction names generalizing closure with
  | nil =>
    rw [List.foldlM_nil, List.append_nil]
    constructor
    · intro h
      cases h
      simp
    · rintro ⟨hkeys, hget, -⟩
      refine congrArg Except.ok (OrderedMap.eq_of_get? hkeys.symm fun n ↦ ?_)
      by_cases hn : n ∈ closure.keys
      · exact (hget n hn).symm
      · rw [OrderedMap.get?_eq_none_iff.mpr hn, OrderedMap.get?_eq_none_iff.mpr (hkeys ▸ hn)]
  | cons name rest ih =>
    have hname : name ∉ closure.keys := fun hmem ↦
      (List.nodup_append.mp hnodup).2.2 name hmem name List.mem_cons_self rfl
    rw [List.foldlM_cons, except_bind_eq_ok_iff]
    cases hvalue : value? name with
    | none => simp [seedStep, hvalue]
    | some value =>
      have hkeys : (closure.insert name value).keys = closure.keys ++ [name] := by
        rw [OrderedMap.keys_insert, if_neg hname]
      have hnodup' : ((closure.insert name value).keys ++ rest).Nodup := by
        rwa [hkeys, List.append_assoc]
      simp only [seedStep, hvalue, Except.ok.injEq, exists_eq_left', ih hnodup']
      have hkeep : (∀ n ∈ closure.keys, seeded.get? n = (closure.insert name value).get? n) ↔
          ∀ n ∈ closure.keys, seeded.get? n = closure.get? n :=
        forall₂_congr fun n hn ↦ by
          have hne : name ≠ n := fun h ↦ hname (h ▸ hn)
          rw [OrderedMap.get?_insert_of_ne hne]
      rw [hkeys, List.append_assoc, List.singleton_append, List.forall_mem_append, hkeep,
        List.forall_mem_singleton, List.forall_mem_cons, and_assoc]
      simp [hvalue]

/-- Seeding succeeds exactly when every name has a value, and then gives these values in order. -/
theorem seedClosure_eq_ok_iff {names : List String} {seeded : Variables} (hnodup : names.Nodup) :
    seedClosure names value? missing = .ok seeded ↔
      seeded.keys = names ∧ ∀ n ∈ names, (value? n).isSome ∧ seeded.get? n = value? n := by
  change names.foldlM (seedStep value? missing) .empty = .ok seeded ↔ _
  rw [foldlM_seedStep_eq_ok_iff (by simpa using hnodup)]
  simp

/-- Seeding fails exactly on the first name without a value. -/
theorem seedClosure_eq_error_iff {names : List String} {e : ε} :
    seedClosure names value? missing = .error e ↔
      ∃ n, names.find? (fun n ↦ (value? n).isNone) = some n ∧ e = missing n := by
  change names.foldlM (seedStep value? missing) .empty = .error e ↔ _
  generalize OrderedMap.empty = closure
  induction names generalizing closure with
  | nil => simp [pure, Except.pure]
  | cons name rest ih =>
    rw [List.foldlM_cons]
    cases hvalue : value? name with
    | none => simp [seedStep, hvalue, bind, Except.bind, eq_comm]
    | some value =>
      have hstep : seedStep value? missing closure name = .ok (closure.insert name value) := by
        simp only [seedStep, hvalue]
      rw [hstep, List.find?_cons_of_neg (by simp [hvalue])]
      exact ih _

theorem exists_seedClosure_eq_ok {names : List String} (h : ∀ n ∈ names, (value? n).isSome) :
    ∃ seeded, seedClosure names value? missing = .ok seeded := by
  cases hseed : seedClosure names value? missing with
  | ok seeded => exact ⟨seeded, rfl⟩
  | error error =>
    obtain ⟨n, hfind, -⟩ := seedClosure_eq_error_iff.mp hseed
    have hsome := h n (List.mem_of_find?_eq_some hfind)
    have hnone := List.find?_some hfind
    simp [Option.isNone_iff_eq_none.mp hnone] at hsome

/-- Seeding looks at the values of its names only. -/
theorem seedClosure_congr {names : List String} {other? : String → Option Float}
    (h : ∀ n ∈ names, value? n = other? n) :
    seedClosure names value? missing = seedClosure names other? missing := by
  change names.foldlM (seedStep value? missing) .empty =
    names.foldlM (seedStep other? missing) .empty
  generalize OrderedMap.empty = closure
  induction names generalizing closure with
  | nil => rfl
  | cons name rest ih =>
    rw [List.forall_mem_cons] at h
    have hstep : seedStep value? missing closure name = seedStep other? missing closure name := by
      simp only [seedStep, h.1]
    rw [List.foldlM_cons, List.foldlM_cons, hstep]
    exact congrArg _ (funext fun next ↦ ih h.2 next)

end Seed

/-! ### The scope of an equation -/

section Scope

variable {Setups : Type} {e : EqnSet Setups} {given : String → Option Float}
  {earlier : List String} {closure scope other : Variables}

/-- The scope of an equation that stands after the equations `earlier`: all declared specs and these
equations, and nothing else. A spec that none of them redefines has its given value, an earlier
equation the value that it has in the finished closure. -/
structure EqnSet.Sees (e : EqnSet Setups) (given : String → Option Float) (earlier : List String)
    (closure scope : Variables) : Prop where
  keys : scope.keys = e.specs.keys ++ earlier.filter (· ∉ e.specs.keys)
  spec : ∀ n ∈ e.specs.keys, n ∉ earlier → scope.get? n = given n
  equation : ∀ n ∈ earlier, scope.get? n = closure.get? n

namespace EqnSet.Sees

theorem mem_keys_iff (h : e.Sees given earlier closure scope) {n : String} :
    n ∈ scope.keys ↔ n ∈ e.specs.keys ∨ n ∈ earlier := by
  rw [h.keys, List.mem_append, List.mem_filter]
  by_cases hn : n ∈ e.specs.keys <;> simp [hn]

/-- The scope of an equation is determined by what it sees. -/
theorem unique (h : e.Sees given earlier closure scope) (h' : e.Sees given earlier closure other) :
    scope = other := by
  refine OrderedMap.eq_of_get? (h.keys.trans h'.keys.symm) fun n ↦ ?_
  by_cases hearlier : n ∈ earlier
  · rw [h.equation n hearlier, h'.equation n hearlier]
  by_cases hspec : n ∈ e.specs.keys
  · rw [h.spec n hspec hearlier, h'.spec n hspec hearlier]
  · have hnot : ¬(n ∈ e.specs.keys ∨ n ∈ earlier) := not_or.mpr ⟨hspec, hearlier⟩
    rw [OrderedMap.get?_eq_none_iff.mpr ((not_congr h.mem_keys_iff).mpr hnot),
      OrderedMap.get?_eq_none_iff.mpr ((not_congr h'.mem_keys_iff).mpr hnot)]

/-- The first equation sees the seeded specs. -/
theorem nil (hkeys : scope.keys = e.specs.keys)
    (hget : ∀ n ∈ e.specs.keys, scope.get? n = given n) : e.Sees given [] closure scope where
  keys := by rw [hkeys, List.filter_nil, List.append_nil]
  spec n hn _ := hget n hn
  equation _ hn := absurd hn List.not_mem_nil

/-- The next equation also sees this one, which keeps a spec's place if it redefines one. -/
theorem insert (h : e.Sees given earlier closure scope) {name : String} {value : Float}
    (hname : name ∉ earlier) (hvalue : closure.get? name = some value) :
    e.Sees given (earlier ++ [name]) closure (scope.insert name value) where
  keys := by
    rw [OrderedMap.keys_insert, List.filter_append, h.keys]
    by_cases hspec : name ∈ e.specs.keys <;> simp [hspec, hname]
  spec n hn hearlier := by
    rw [List.mem_append, List.mem_singleton, not_or] at hearlier
    rw [OrderedMap.get?_insert_of_ne (Ne.symm hearlier.2), h.spec n hn hearlier.1]
  equation n hn := by
    rw [List.mem_append, List.mem_singleton] at hn
    by_cases hsame : name = n
    · rw [← hsame, OrderedMap.get?_insert_self, hvalue]
    · rw [OrderedMap.get?_insert_of_ne hsame,
        h.equation n (hn.resolve_right (Ne.symm hsame))]

end EqnSet.Sees

end Scope

/-! ### Equations -/

section Equations

variable {Setups : Type} {e : EqnSet Setups} {given : String → Option Float}
  {evaluate : Evaluator} {closure scope : Variables}

/-- A map that holds the declared specs with their given values and the equations with the values of
their expressions. -/
structure EqnSet.IsClosure (e : EqnSet Setups) (evaluate : Evaluator)
    (given : String → Option Float) (closure : Variables) : Prop where
  /-- The specs in order, then the equations that are no specs, in order. -/
  keys : closure.keys = e.specs.keys ++ e.equations.keys.filter (· ∉ e.specs.keys)
  /-- A spec that no equation redefines has its given value. -/
  spec : ∀ n ∈ e.specs.keys, n ∉ e.equations.keys → closure.get? n = given n
  /-- An equation has the value of its expression over the specs and the earlier equations. -/
  equation : ∀ earlier name text later, e.equations.entries = earlier ++ (name, text) :: later →
    ∃ scope value, e.Sees given (earlier.map Prod.fst) closure scope ∧
      (Traced.valueOf evaluate (.equation name e.num) text scope).result = .ok value ∧
      closure.get? name = some value

theorem result_applyEquations_cons_eq_ok_iff {eqnset : Nat} {name text : String}
    {rest : List (String × String)} :
    (applyEquations evaluate eqnset ((name, text) :: rest) scope).result = .ok closure ↔
      ∃ value, (Traced.valueOf evaluate (.equation name eqnset) text scope).result = .ok value ∧
        (applyEquations evaluate eqnset rest (scope.insert name value)).result = .ok closure := by
  rw [applyEquations, Traced.result_bind_eq_ok_iff]

/-- Equations leave all other variables alone. -/
theorem get?_of_result_applyEquations {eqnset : Nat} {equations : List (String × String)}
    (h : (applyEquations evaluate eqnset equations scope).result = .ok closure) {n : String}
    (hn : n ∉ equations.map Prod.fst) : closure.get? n = scope.get? n := by
  induction equations generalizing scope with
  | nil =>
    cases h
    rfl
  | cons equation rest ih =>
    obtain ⟨name, text⟩ := equation
    obtain ⟨value, -, hrest⟩ := result_applyEquations_cons_eq_ok_iff.mp h
    rw [List.map_cons, List.mem_cons, not_or] at hn
    rw [ih hrest hn.2, OrderedMap.get?_insert_of_ne (Ne.symm hn.1)]

/-- An equation can only fail in its evaluation. -/
theorem eval_of_result_applyEquations {eqnset : Nat} {equations : List (String × String)}
    {error : ResolveError}
    (h : (applyEquations evaluate eqnset equations scope).result = .error error) :
    ∃ name cause, error = .eval (.equation name eqnset) cause := by
  induction equations generalizing scope with
  | nil => cases h
  | cons equation rest ih =>
    obtain ⟨name, text⟩ := equation
    rw [applyEquations, Traced.result_bind_eq_error_iff] at h
    rcases h with hvalue | ⟨value, -, hrest⟩
    · obtain ⟨cause, -, rfl⟩ := Traced.result_valueOf_eq_error hvalue
      exact ⟨name, cause, rfl⟩
    · exact ih hrest

/-- The loop over the equations. From the scope of the first of them it ends in a map exactly when
the map holds what comes before and, under every equation, the value of its expression in its own
scope. -/
theorem applyEquations_eq_ok_iff {earlier : List String} {equations : List (String × String)}
    (hscope : e.Sees given earlier closure scope)
    (hnodup : (earlier ++ equations.map Prod.fst).Nodup) :
    (applyEquations evaluate e.num equations scope).result = .ok closure ↔
      e.Sees given (earlier ++ equations.map Prod.fst) closure closure ∧
        ∀ before name text later, equations = before ++ (name, text) :: later →
          ∃ scope value, e.Sees given (earlier ++ before.map Prod.fst) closure scope ∧
            (Traced.valueOf evaluate (.equation name e.num) text scope).result = .ok value ∧
            closure.get? name = some value := by
  induction equations generalizing earlier scope with
  | nil =>
    simp only [List.map_nil, List.append_nil] at hnodup ⊢
    constructor
    · intro h
      cases h
      exact ⟨hscope, fun before name text later h ↦ by simp at h⟩
    · rintro ⟨hclosure, -⟩
      rw [hscope.unique hclosure]
      rfl
  | cons equation rest ih =>
    obtain ⟨name, text⟩ := equation
    have hname : name ∉ earlier := fun hmem ↦
      (List.nodup_append.mp hnodup).2.2 name hmem name List.mem_cons_self rfl
    have hrest : name ∉ rest.map Prod.fst :=
      (List.nodup_cons.mp (List.nodup_append.mp hnodup).2.1).1
    have hnodup' : ((earlier ++ [name]) ++ rest.map Prod.fst).Nodup := by
      rwa [List.append_assoc]
    rw [result_applyEquations_cons_eq_ok_iff]
    constructor
    · rintro ⟨value, hvalue, hok⟩
      have hget : closure.get? name = some value := by
        rw [get?_of_result_applyEquations hok hrest, OrderedMap.get?_insert_self]
      obtain ⟨hclosure, hlater⟩ := (ih (hscope.insert hname hget) hnodup').mp hok
      rw [List.append_assoc] at hclosure
      refine ⟨hclosure, fun before other text' later hsplit ↦ ?_⟩
      cases before with
      | nil =>
        rw [List.nil_append, List.cons.injEq, Prod.mk.injEq] at hsplit
        obtain ⟨⟨rfl, rfl⟩, -⟩ := hsplit
        rw [List.map_nil, List.append_nil]
        exact ⟨scope, value, hscope, hvalue, hget⟩
      | cons first before =>
        rw [List.cons_append, List.cons.injEq] at hsplit
        obtain ⟨rfl, hsplit⟩ := hsplit
        simpa only [List.map_cons, List.append_assoc, List.singleton_append] using
          hlater before other text' later hsplit
    · rintro ⟨hclosure, hall⟩
      obtain ⟨scope', value, hscope', hvalue, hget⟩ := hall [] name text rest rfl
      rw [List.map_nil, List.append_nil] at hscope'
      rw [hscope'.unique hscope] at hvalue
      refine ⟨value, hvalue, (ih (hscope.insert hname hget) hnodup').mpr ⟨?_, ?_⟩⟩
      · rwa [List.append_assoc]
      · intro before other text' later hsplit
        simpa only [List.map_cons, List.append_assoc, List.singleton_append] using
          hall ((name, text) :: before) other text' later (by rw [hsplit, List.cons_append])

/-- A map is a closure exactly when it contains its own scope and the values of the equations. -/
theorem EqnSet.isClosure_iff :
    e.IsClosure evaluate given closure ↔
      e.Sees given e.equations.keys closure closure ∧
        ∀ earlier name text later, e.equations.entries = earlier ++ (name, text) :: later →
          ∃ scope value, e.Sees given (earlier.map Prod.fst) closure scope ∧
            (Traced.valueOf evaluate (.equation name e.num) text scope).result = .ok value ∧
            closure.get? name = some value :=
  ⟨fun h ↦ ⟨⟨h.keys, h.spec, fun _ _ ↦ rfl⟩, h.equation⟩,
    fun h ↦ ⟨h.1.keys, h.1.spec, h.2⟩⟩

/-- The equations over seeded specs end in a map exactly when it is the closure. -/
theorem EqnSet.result_close_eq_ok_iff {seeded : Variables}
    (hkeys : seeded.keys = e.specs.keys)
    (hget : ∀ n ∈ e.specs.keys, seeded.get? n = given n) :
    (e.close evaluate seeded).result = .ok closure ↔ e.IsClosure evaluate given closure := by
  have hscope : e.Sees given [] closure seeded := .nil hkeys hget
  rw [EqnSet.isClosure_iff]
  exact applyEquations_eq_ok_iff hscope e.equations.keys_nodup

/-- Seeding the specs and evaluating the equations over them succeeds exactly when every spec has a
value, and ends in the closure of these values. -/
theorem EqnSet.seedClosure_close_eq_ok_iff {missing : String → ResolveError} :
    (∃ seeded, seedClosure e.specs.keys given missing = .ok seeded ∧
        (e.close evaluate seeded).result = .ok closure) ↔
      (∀ n ∈ e.specs.keys, (given n).isSome) ∧ e.IsClosure evaluate given closure := by
  constructor
  · rintro ⟨seeded, hseed, hclose⟩
    obtain ⟨hkeys, hget⟩ := (seedClosure_eq_ok_iff e.specs.keys_nodup).mp hseed
    exact ⟨fun n hn ↦ (hget n hn).1,
      (EqnSet.result_close_eq_ok_iff hkeys fun n hn ↦ (hget n hn).2).mp hclose⟩
  · rintro ⟨hgiven, hclosure⟩
    obtain ⟨seeded, hseed⟩ : ∃ seeded, seedClosure e.specs.keys given missing = .ok seeded :=
      exists_seedClosure_eq_ok hgiven
    obtain ⟨hkeys, hget⟩ := (seedClosure_eq_ok_iff e.specs.keys_nodup).mp hseed
    exact ⟨seeded, hseed,
      (EqnSet.result_close_eq_ok_iff hkeys fun n hn ↦ (hget n hn).2).mpr hclosure⟩

/-- A closure depends on the values of the declared specs only. -/
theorem EqnSet.IsClosure.congr {given' : String → Option Float}
    (h : ∀ n ∈ e.specs.keys, given' n = given n) :
    e.IsClosure evaluate given' closure ↔ e.IsClosure evaluate given closure := by
  have hsees {earlier : List String} {scope : Variables} :
      e.Sees given' earlier closure scope ↔ e.Sees given earlier closure scope := by
    constructor <;> intro hs
    · exact ⟨hs.keys, fun n hn hearlier ↦ (hs.spec n hn hearlier).trans (h n hn), hs.equation⟩
    · exact ⟨hs.keys, fun n hn hearlier ↦ (hs.spec n hn hearlier).trans (h n hn).symm,
        hs.equation⟩
  simp only [EqnSet.isClosure_iff, hsees]

end Equations

/-! ### Closures over spec sets -/

section SpecSets

variable {Setups : Type} {e : EqnSet Setups} {evaluate : Evaluator} {s : SpecSet}

/-- The closure of an equation set over the values of a spec set. -/
def EqnSet.closureOver (e : EqnSet Setups) (evaluate : Evaluator) (s : SpecSet) :
    Traced Variables := do
  e.close evaluate (← Traced.lift (e.seed s))

theorem EqnSet.seed_eq_error_iff {error : ResolveError} :
    e.seed s = .error error ↔
      ∃ n, e.specs.keys.find? (fun n ↦ (actuals s.specs n).isNone) = some n ∧
        error = .missingSpec n e.num s.num :=
  seedClosure_eq_error_iff

theorem EqnSet.closureOver_of_seed_error {error : ResolveError} (h : e.seed s = .error error) :
    e.closureOver evaluate s = ⟨[], .error error⟩ := by
  rw [EqnSet.closureOver, h, Traced.lift_error_bind]

theorem EqnSet.closureOver_of_seed_ok {seeded : Variables} (h : e.seed s = .ok seeded) :
    e.closureOver evaluate s = e.close evaluate seeded := by
  rw [EqnSet.closureOver, h, Traced.lift_ok_bind]

theorem EqnSet.result_closureOver_eq_ok_iff {closure : Variables} :
    (e.closureOver evaluate s).result = .ok closure ↔
      (∀ n ∈ e.specs.keys, (actuals s.specs n).isSome) ∧
        e.IsClosure evaluate (actuals s.specs) closure := by
  rw [EqnSet.closureOver, Traced.result_bind_eq_ok_iff]
  exact EqnSet.seedClosure_close_eq_ok_iff

/-- A missing value ends a resolution before anything is evaluated. -/
theorem EqnSet.closureOver_eq_missingSpec_iff {spec : String} :
    e.closureOver evaluate s = ⟨[], .error (.missingSpec spec e.num s.num)⟩ ↔
      e.specs.keys.find? (fun n ↦ (actuals s.specs n).isNone) = some spec := by
  cases hseed : e.seed s with
  | error error =>
    obtain ⟨n, hfind, rfl⟩ := EqnSet.seed_eq_error_iff.mp hseed
    rw [EqnSet.closureOver_of_seed_error hseed, hfind]
    simp
  | ok seeded =>
    have hall := ((seedClosure_eq_ok_iff e.specs.keys_nodup).mp hseed).2
    have hfind : e.specs.keys.find? (fun n ↦ (actuals s.specs n).isNone) = none := by
      refine List.find?_eq_none.mpr fun n hn ↦ ?_
      rw [Option.isNone_iff_eq_none]
      exact Option.isSome_iff_ne_none.mp (hall n hn).1
    rw [EqnSet.closureOver_of_seed_ok hseed, hfind]
    simp only [reduceCtorEq, iff_false]
    intro h
    obtain ⟨name, cause, herror⟩ := eval_of_result_applyEquations (congrArg Traced.result h)
    cases herror

theorem EqnSet.missingSpec_of_result_closureOver {spec : String} {eqnset specset : Nat}
    (h : (e.closureOver evaluate s).result = .error (.missingSpec spec eqnset specset)) :
    e.specs.keys.find? (fun n ↦ (actuals s.specs n).isNone) = some spec := by
  cases hseed : e.seed s with
  | error error =>
    obtain ⟨n, hfind, rfl⟩ := EqnSet.seed_eq_error_iff.mp hseed
    rw [EqnSet.closureOver_of_seed_error hseed] at h
    cases h
    exact hfind
  | ok seeded =>
    rw [EqnSet.closureOver_of_seed_ok hseed] at h
    obtain ⟨name, cause, herror⟩ := eval_of_result_applyEquations h
    cases herror

/-- Values that the equation set does not declare have no influence. -/
theorem EqnSet.closureOver_congr {s' : SpecSet} (hnum : s'.num = s.num)
    (h : ∀ n ∈ e.specs.keys, actuals s'.specs n = actuals s.specs n) :
    e.closureOver evaluate s' = e.closureOver evaluate s := by
  have hseed : e.seed s' = e.seed s := by
    unfold EqnSet.seed
    rw [hnum]
    exact seedClosure_congr h
  rw [EqnSet.closureOver, EqnSet.closureOver, hseed]

/-- What resolving the variables of an equation set over a spec set gives. A run succeeds with a map
exactly when every declared spec has a value and the map is the closure of these values. The names
in it are distinct, and values that are not declared have no influence on the run. The run ends in
a missing spec exactly when a declared spec has no value; it then names the first of them, and
nothing was evaluated. -/
theorem EqnSet.closureOver_contents (e : EqnSet Setups) (evaluate : Evaluator) (s : SpecSet) :
    (∀ closure, (e.closureOver evaluate s).result = .ok closure ↔
      (∀ n ∈ e.specs.keys, (actuals s.specs n).isSome) ∧
        e.IsClosure evaluate (actuals s.specs) closure) ∧
    (∀ closure, (e.closureOver evaluate s).result = .ok closure → closure.keys.Nodup) ∧
    (∀ s' : SpecSet, s'.num = s.num →
      (∀ n ∈ e.specs.keys, actuals s'.specs n = actuals s.specs n) →
        e.closureOver evaluate s' = e.closureOver evaluate s) ∧
    ((∃ spec eqnset specset,
        (e.closureOver evaluate s).result = .error (.missingSpec spec eqnset specset)) ↔
      ∃ n ∈ e.specs.keys, actuals s.specs n = none) ∧
    ∀ spec eqnset specset,
      (e.closureOver evaluate s).result = .error (.missingSpec spec eqnset specset) ↔
        e.closureOver evaluate s = ⟨[], .error (.missingSpec spec eqnset specset)⟩ ∧
          eqnset = e.num ∧ specset = s.num ∧
          e.specs.keys.find? (fun n ↦ (actuals s.specs n).isNone) = some spec := by
  refine ⟨fun closure ↦ result_closureOver_eq_ok_iff, fun closure _ ↦ closure.keys_nodup,
    fun s' hnum h ↦ closureOver_congr hnum h, ⟨?_, ?_⟩, fun spec eqnset specset ↦ ⟨?_, ?_⟩⟩
  · rintro ⟨spec, eqnset, specset, h⟩
    have hfind := missingSpec_of_result_closureOver h
    have hnone := List.find?_some hfind
    exact ⟨spec, List.mem_of_find?_eq_some hfind, Option.isNone_iff_eq_none.mp hnone⟩
  · rintro ⟨n, hn, hnone⟩
    have hsome : (e.specs.keys.find? fun n ↦ (actuals s.specs n).isNone).isSome :=
      List.find?_isSome.mpr ⟨n, hn, Option.isNone_iff_eq_none.mpr hnone⟩
    obtain ⟨spec, hfind⟩ := Option.isSome_iff_exists.mp hsome
    rw [closureOver_eq_missingSpec_iff.mpr hfind]
    exact ⟨spec, e.num, s.num, rfl⟩
  · intro h
    have hfind := missingSpec_of_result_closureOver h
    have heq : e.closureOver evaluate s = _ := closureOver_eq_missingSpec_iff.mpr hfind
    rw [heq] at h
    cases h
    exact ⟨heq, rfl, rfl, hfind⟩
  · rintro ⟨h, -⟩
    rw [h]

/-- An equation set whose first equation redefines a spec that the second one reads. -/
def redefiningEqnSet : EqnSet Unit where
  num := 1
  description := ""
  specs := .ofList [("A", ""), ("B", "")]
  equations := .ofList [("B", "A*2"), ("C", "B+1")]
  setups := ()
  source := none

/-- A value for each of its specs and one that it does not declare. -/
def redefinedSpecSet : SpecSet :=
  { SpecSet.ofNum 1 1 "" with
    specs := ⟨[.ofActual "Z" 9, .ofActual "B" 5, .ofActual "A" 2], by decide⟩ }

theorem closureOver_contents_redefined :
    ∃ closure : Variables, closure.entries = [("A", 2), ("B", 4), ("C", 5)] ∧
      redefiningEqnSet.IsClosure compute (actuals redefinedSpecSet.specs) closure := by
  have hrun : (redefiningEqnSet.closureOver compute redefinedSpecSet).result.toOption.map
      OrderedMap.entries = some [("A", 2), ("B", 4), ("C", 5)] := by decide +kernel
  obtain ⟨closure, hclosure, hentries⟩ := Option.map_eq_some_iff.mp hrun
  refine ⟨closure, hentries, ?_⟩
  have hresult : (redefiningEqnSet.closureOver compute redefinedSpecSet).result = .ok closure := by
    cases h : (redefiningEqnSet.closureOver compute redefinedSpecSet).result with
    | ok other => rw [h] at hclosure; exact congrArg _ (Option.some.inj hclosure)
    | error error => rw [h] at hclosure; cases hclosure
  exact (((redefiningEqnSet.closureOver_contents compute redefinedSpecSet).1 closure).mp hresult).2

end SpecSets

end TesterSetup
