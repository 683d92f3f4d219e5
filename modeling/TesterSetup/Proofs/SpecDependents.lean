import TesterSetup.Proofs.ClosureContents
import TesterSetup.Proofs.MentionedNames
import TesterSetup.Proofs.PinTableWrites

/-!
# What a spec has influence on

Two spec sets of an equation set may differ in the value of one spec only. What differs then in the
resolved levels is bounded by the texts alone: `EqnSet.DependsOn` collects the spec and, from
equation to equation, every name whose expression mentions a collected one, and everything else
comes out the same.

Two runs are compared by what they share. Their closures always have the same names and agree
outside the dependents (`OrderedMap.AgreeOutside`); each equation preserves this, since one outside
the dependents mentions none of them (`applyEquations_agreeOutside`). The tables of settings have
the same shape and share the values of all settings that mention no dependent
(`PinTable.AgreeWhere`). `Levels.resolve_outside_dependents` joins the two.
-/

set_option autoImplicit false

namespace TesterSetup

/-! ### Dependents -/

section Dependents

variable {Setups : Type} {e : EqnSet Setups} {x : String}

/-- The names that depend on a variable: the variable itself and every equation whose expression
mentions a name that does. -/
inductive EqnSet.DependsOn (e : EqnSet Setups) (x : String) : String → Prop where
  | self : e.DependsOn x x
  | equation {name text source : String} (entry : (name, text) ∈ e.equations.entries)
      (mention : Mentions text source) (depends : e.DependsOn x source) : e.DependsOn x name

/-- An equation that does not depend on a variable mentions no name that does. -/
theorem EqnSet.not_dependsOn_of_mentions {name text source : String}
    (hentry : (name, text) ∈ e.equations.entries) (hname : ¬e.DependsOn x name)
    (hmention : Mentions text source) : ¬e.DependsOn x source :=
  fun hsource ↦ hname (.equation hentry hmention hsource)

/-- The dependents are the least names that contain the variable and are closed under mention. -/
theorem EqnSet.DependsOn.least {S : String → Prop} (hself : S x)
    (hclosed : ∀ entry ∈ e.equations.entries, ∀ source, Mentions entry.2 source → S source →
      S entry.1) {name : String} (h : e.DependsOn x name) : S name := by
  induction h with
  | self => exact hself
  | equation entry mention _ ih => exact hclosed _ entry _ mention ih

end Dependents

/-! ### Maps that agree outside a set of keys -/

/-- Two maps with the same keys in the same order and, outside a set of keys, the same values. -/
structure OrderedMap.AgreeOutside {α β : Type} [DecidableEq α] (D : α → Prop)
    (m n : OrderedMap α β) : Prop where
  keys : m.keys = n.keys
  get : ∀ k, ¬D k → m.get? k = n.get? k

theorem OrderedMap.AgreeOutside.insert {α β : Type} [DecidableEq α] {D : α → Prop}
    {m n : OrderedMap α β} (h : m.AgreeOutside D n) {k : α} {v w : β} (hvalue : ¬D k → v = w) :
    (m.insert k v).AgreeOutside D (n.insert k w) where
  keys := by rw [keys_insert, keys_insert, h.keys]
  get k' hk' := by
    by_cases hk : k = k'
    · subst hk
      rw [get?_insert_self, get?_insert_self, hvalue hk']
    · rw [get?_insert_of_ne hk, get?_insert_of_ne hk, h.get k' hk']

section Closures

variable {D : String → Prop} {scope other closure closure' : Variables}

theorem valueOf_compute_eq_of_agreeOutside {purpose : Purpose} {text : String}
    (h : scope.AgreeOutside D other) (htext : ∀ n, Mentions text n → ¬D n) :
    Traced.valueOf compute purpose text scope = Traced.valueOf compute purpose text other :=
  valueOf_compute_congr fun n hn ↦ h.get n (htext n hn)

theorem seedClosure_agreeOutside {ε : Type} {names : List String}
    {value? value'? : String → Option Float} {missing missing' : String → ε}
    (hnodup : names.Nodup) (hvalue : ∀ n ∈ names, ¬D n → value? n = value'? n)
    (h : seedClosure names value? missing = .ok scope)
    (h' : seedClosure names value'? missing' = .ok other) : scope.AgreeOutside D other := by
  obtain ⟨hkeys, hget⟩ := (seedClosure_eq_ok_iff hnodup).mp h
  obtain ⟨hkeys', hget'⟩ := (seedClosure_eq_ok_iff hnodup).mp h'
  refine ⟨hkeys.trans hkeys'.symm, fun n hn ↦ ?_⟩
  by_cases hmem : n ∈ names
  · rw [(hget n hmem).2, (hget' n hmem).2, hvalue n hmem hn]
  · rw [OrderedMap.get?_eq_none_iff.mpr (hkeys ▸ hmem),
      OrderedMap.get?_eq_none_iff.mpr (hkeys' ▸ hmem)]

/-- The loop over the equations keeps the agreement of two runs, when every equation outside `D`
mentions only names outside `D`. An equation in `D` may get different values. -/
theorem applyEquations_agreeOutside {eqnset : Nat} {equations : List (String × String)}
    (hclosed : ∀ entry ∈ equations, ¬D entry.1 → ∀ n, Mentions entry.2 n → ¬D n)
    (hscope : scope.AgreeOutside D other)
    (h : (applyEquations compute eqnset equations scope).result = .ok closure)
    (h' : (applyEquations compute eqnset equations other).result = .ok closure') :
    closure.AgreeOutside D closure' := by
  induction equations generalizing scope other with
  | nil =>
    cases h
    cases h'
    exact hscope
  | cons equation rest ih =>
    obtain ⟨name, text⟩ := equation
    obtain ⟨value, hvalue, hrest⟩ := result_applyEquations_cons_eq_ok_iff.mp h
    obtain ⟨value', hvalue', hrest'⟩ := result_applyEquations_cons_eq_ok_iff.mp h'
    rw [List.forall_mem_cons] at hclosed
    refine ih hclosed.2 (hscope.insert fun hname ↦ ?_) hrest hrest'
    -- outside `D` the scopes agree on all that the text mentions, so both runs get one value
    rw [valueOf_compute_eq_of_agreeOutside hscope (hclosed.1 hname), hvalue'] at hvalue
    exact (Except.ok.inj hvalue).symm

/-- Closures over spec sets that differ in one spec agree outside its dependents. -/
theorem EqnSet.closureOver_agreeOutside {Setups : Type} {e : EqnSet Setups} {x : String}
    {s s' : SpecSet} (hsame : ∀ n ∈ e.specs.keys, n ≠ x → actuals s.specs n = actuals s'.specs n)
    (h : (e.closureOver compute s).result = .ok closure)
    (h' : (e.closureOver compute s').result = .ok closure') :
    closure.AgreeOutside (e.DependsOn x) closure' := by
  rw [EqnSet.closureOver, Traced.result_bind_eq_ok_iff] at h h'
  obtain ⟨seeded, hseed, hclose⟩ := h
  obtain ⟨seeded', hseed', hclose'⟩ := h'
  have hseeded : seeded.AgreeOutside (e.DependsOn x) seeded' := by
    refine seedClosure_agreeOutside e.specs.keys_nodup (fun n hn hdepends ↦ ?_) hseed hseed'
    -- a spec outside the dependents is not `x`, which depends on itself
    have hne : n ≠ x := fun heq ↦ hdepends (heq ▸ .self)
    exact hsame n hn hne
  exact applyEquations_agreeOutside
    (fun _ hentry hname _ hn ↦ EqnSet.not_dependsOn_of_mentions hentry hname hn)
    hseeded hclose hclose'

end Closures

/-! ### Settings -/

/-- A setting mentions what its expression mentions; literals and flags mention nothing. -/
def Setting.MentionsName : Setting → String → Prop
  | .expression text, n => Mentions text n
  | .literal _, _ => False
  | .flag _, _ => False

section Settings

variable {D : String → Prop} {closure closure' : Variables} {pins : List String} {name : String}

/-- The failure of an expression counts, or is turned into zero, in both runs alike. -/
theorem expressionValue_eq_of_agreeOutside {text : String} (h : closure.AgreeOutside D closure')
    (htext : ∀ n, Mentions text n → ¬D n) :
    expressionValue compute closure pins name text =
      expressionValue compute closure' pins name text := by
  unfold expressionValue
  rw [valueOf_compute_eq_of_agreeOutside h htext]

theorem Setting.value_eq_of_agreeOutside {setting : Setting} (h : closure.AgreeOutside D closure')
    (hsetting : ∀ n, setting.MentionsName n → ¬D n) :
    setting.value compute closure pins name = setting.value compute closure' pins name := by
  cases setting with
  | literal text => rfl
  | flag on => rfl
  | expression text =>
    have hvalue : expressionValue compute closure pins name text =
        expressionValue compute closure' pins name text :=
      expressionValue_eq_of_agreeOutside h hsetting
    exact congrArg (fun v : Traced Float ↦ v >>= fun x ↦ pure (SettingValue.number x)) hvalue

end Settings

/-! ### Tables of two runs -/

section Tables

variable {κ σ ν : Type} [DecidableEq κ]

/-- Two tables that assignments were written to: they have the same pins and for each pin the same
settings, all in the same order, and the same value for every setting whose last assignment
satisfies a condition. -/
structure PinTable.AgreeWhere (assignments : List (Assignment κ σ)) (P : Assignment κ σ → Prop)
    (t u : PinTable κ ν) : Prop where
  pins : t.keys = u.keys
  names : ∀ pin, t.names pin = u.names pin
  value : ∀ pin name a, lastFor assignments pin name = some a → P a →
    t.value? pin name = u.value? pin name

/-- Tables agree where the assignments have the same values. -/
theorem settleAll_agreeWhere {assignments : List (Assignment κ σ)} {P : Assignment κ σ → Prop}
    {value value' : Assignment κ σ → Traced ν} {table t u : PinTable κ ν}
    (hvalue : ∀ a, P a → value a = value' a)
    (ht : (settleAll value assignments table).result = .ok t)
    (hu : (settleAll value' assignments table).result = .ok u) :
    t.AgreeWhere assignments P u where
  pins := (keys_settleAll ht).trans (keys_settleAll hu).symm
  names _ := (names_settleAll ht).trans (names_settleAll hu).symm
  value pin name a hlast ha := by
    obtain ⟨v, hv, hget⟩ := value?_settleAll_of_lastFor hlast ht
    obtain ⟨v', hv', hget'⟩ := value?_settleAll_of_lastFor hlast hu
    rw [hvalue a ha, hv'] at hv
    rw [hget, hget', Except.ok.inj hv]

theorem settleBlocks_agreeWhere {D : String → Prop} {closure closure' : Variables}
    {blocks : List SettingBlock} {table t u : PinTable String SettingValue}
    (h : closure.AgreeOutside D closure')
    (ht : (settleBlocks compute closure blocks table).result = .ok t)
    (hu : (settleBlocks compute closure' blocks table).result = .ok u) :
    t.AgreeWhere (blocks.flatMap SettingBlock.assignments)
      (fun a ↦ ∀ n, a.setting.MentionsName n → ¬D n) u := by
  rw [settleBlocks_eq] at ht hu
  exact settleAll_agreeWhere (fun _ ha ↦ Setting.value_eq_of_agreeOutside h ha) ht hu

end Tables

/-! ### Levels -/

section Levels

variable {evaluate : Evaluator} {levels : Levels} {eqnset levelset n₁ n₂ : Nat} {x : String}
  {e : LevelsEqnSet} {l : LevelSet} {s s₁ s₂ : SpecSet} {r r₁ r₂ : LevelsResolution}

/-- A resolution of levels succeeds exactly when its closure and both of its tables do. -/
theorem Levels.result_resolve_eq_ok_iff {specset : Nat} (he : levels.eqnsets.get? eqnset = some e)
    (hs : levels.specsets.get? ⟨eqnset, specset⟩ = some s)
    (hl : e.setups.levelsets.get? levelset = some l) :
    (levels.resolve evaluate eqnset specset levelset).result = .ok r ↔
      (e.closureOver evaluate s).result = .ok r.closure ∧
        (settleBlocks evaluate r.closure e.setups.dpsblocks .empty).result = .ok r.pinSettings.dps ∧
        (settleBlocks evaluate r.closure l.pinblocks .empty).result = .ok r.pinSettings.pins := by
  unfold Levels.resolve
  rw [Traced.ofModel_require_of_get? he, Traced.lift_ok_bind, Traced.ofModel_require_of_get? hs,
    Traced.lift_ok_bind, Traced.ofModel_require_of_get? hl, Traced.lift_ok_bind,
    ← Traced.bind_assoc, ← EqnSet.closureOver, Traced.result_bind_eq_ok_iff]
  simp only [Traced.result_bind_eq_ok_iff]
  constructor
  · rintro ⟨closure, hclosure, dps, hdps, pins, hpins, hr⟩
    cases hr
    exact ⟨hclosure, hdps, hpins⟩
  · rintro ⟨hclosure, hdps, hpins⟩
    exact ⟨_, hclosure, _, hdps, _, hpins, rfl⟩

/-- Only what depends on a spec can tell two values of it apart. When two spec sets of an equation
set give the same values to all declared specs but one and levels resolve with both, the closures
have the same names in the same order and the same values outside the dependents of the spec. The
supplies and the pins, and the settings of each, are the same and in the same order, and a setting
that mentions no dependent has the same value. -/
theorem Levels.resolve_outside_dependents (he : levels.eqnsets.get? eqnset = some e)
    (hl : e.setups.levelsets.get? levelset = some l)
    (hs₁ : levels.specsets.get? ⟨eqnset, n₁⟩ = some s₁)
    (hs₂ : levels.specsets.get? ⟨eqnset, n₂⟩ = some s₂)
    (hsame : ∀ n ∈ e.specs.keys, n ≠ x → actuals s₁.specs n = actuals s₂.specs n)
    (h₁ : (levels.resolve compute eqnset n₁ levelset).result = .ok r₁)
    (h₂ : (levels.resolve compute eqnset n₂ levelset).result = .ok r₂) :
    r₁.closure.AgreeOutside (e.DependsOn x) r₂.closure ∧
    r₁.pinSettings.dps.AgreeWhere (e.setups.dpsblocks.flatMap SettingBlock.assignments)
      (fun a ↦ ∀ n, a.setting.MentionsName n → ¬e.DependsOn x n) r₂.pinSettings.dps ∧
    r₁.pinSettings.pins.AgreeWhere (l.pinblocks.flatMap SettingBlock.assignments)
      (fun a ↦ ∀ n, a.setting.MentionsName n → ¬e.DependsOn x n) r₂.pinSettings.pins := by
  obtain ⟨hclosure₁, hdps₁, hpins₁⟩ := (result_resolve_eq_ok_iff he hs₁ hl).mp h₁
  obtain ⟨hclosure₂, hdps₂, hpins₂⟩ := (result_resolve_eq_ok_iff he hs₂ hl).mp h₂
  have hclosure := EqnSet.closureOver_agreeOutside hsame hclosure₁ hclosure₂
  exact ⟨hclosure, settleBlocks_agreeWhere hclosure hdps₁ hdps₂,
    settleBlocks_agreeWhere hclosure hpins₁ hpins₂⟩

/-- An equation set with one equation for each of its specs, and a pin setting that reads a name
which has no value. -/
def twoSpecEqnSet : LevelsEqnSet where
  num := 1
  description := ""
  specs := .ofList [("A", ""), ("B", "")]
  equations := .ofList [("C", "A*2"), ("D", "B+1")]
  setups :=
    { levelsets :=
        ⟨[⟨1, "", [⟨["P1"], .ofList [("vih", .expression "D<9 ? NONE : 1")]⟩]⟩], by decide⟩
      dpsblocks := [⟨["VDD"], .ofList [("vout", .expression "D"), ("ilimit", .expression "C")]⟩] }
  source := none

/-- Values for its specs, with one value of `A` or another. -/
def twoSpecSet (num : Nat) (a : Float) : SpecSet :=
  have hnodup : ["A", "B"].Nodup := by decide
  { SpecSet.ofNum 1 num "" with specs := ⟨[.ofActual "A" a, .ofActual "B" 2], hnodup⟩ }

def twoSpecLevels : Levels where
  eqnsets := ⟨[twoSpecEqnSet], by decide⟩
  specsets := ⟨[twoSpecSet 1 1, twoSpecSet 2 7], by decide⟩

theorem twoSpecEqnSet_dependsOn {name : String} (h : twoSpecEqnSet.DependsOn "A" name) :
    name ∈ ["A", "C"] := by
  have hclosed : ∀ entry ∈ twoSpecEqnSet.equations.entries, ∀ source ∈ ["A", "C"],
      Mentions entry.2 source → entry.1 ∈ ["A", "C"] := by decide +kernel
  exact h.least (S := (· ∈ ["A", "C"])) List.mem_cons_self fun entry hentry source hm hs ↦
    hclosed entry hentry source hs hm

theorem resolve_outside_dependents_twoSpec : ∃ r₁ r₂ : LevelsResolution,
    (twoSpecLevels.resolve compute 1 1 1).result = .ok r₁ ∧
    (twoSpecLevels.resolve compute 1 2 1).result = .ok r₂ ∧
    r₁.closure.get? "D" = r₂.closure.get? "D" ∧
    r₁.pinSettings.pins.value? "P1" "vih" = r₂.pinSettings.pins.value? "P1" "vih" := by
  have hrun₁ : (twoSpecLevels.resolve compute 1 1 1).result.isOk := by decide +kernel
  have hrun₂ : (twoSpecLevels.resolve compute 1 2 1).result.isOk := by decide +kernel
  have hsame : ∀ n ∈ twoSpecEqnSet.specs.keys, n ≠ "A" →
      actuals (twoSpecSet 1 1).specs n = actuals (twoSpecSet 2 7).specs n := by decide +kernel
  have hmention : ∀ n ∈ ["A", "C"], ¬Mentions "D<9 ? NONE : 1" n := by decide +kernel
  obtain ⟨r₁, h₁⟩ := exists_eq_ok_of_isOk hrun₁
  obtain ⟨r₂, h₂⟩ := exists_eq_ok_of_isOk hrun₂
  obtain ⟨hclosure, -, hpins⟩ :=
    Levels.resolve_outside_dependents rfl rfl rfl rfl hsame h₁ h₂
  refine ⟨r₁, r₂, h₁, h₂, hclosure.get "D" fun h ↦ ?_,
    hpins.value "P1" "vih" ⟨["P1"], "vih", .expression "D<9 ? NONE : 1"⟩ rfl fun n hn h ↦ ?_⟩
  · exact absurd (twoSpecEqnSet_dependsOn h) (by decide)
  · exact hmention n (twoSpecEqnSet_dependsOn h) hn

end Levels

end TesterSetup
