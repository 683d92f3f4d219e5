import TesterSetup.Proofs.FollowedEntries
import TesterSetup.Proofs.GrowingModels

/-!
# Parts that are taken from other setups

An entry of a master file takes one part of a setup, and an equation set takes its spec sets with
it. A part that is taken stands behind those that were taken before, as it was
(`TakesEqnSet`, `Container.items_take`).

Taking a part fails when its key is taken. Every entry of an index has a key of its own, so the key
of a part is free when its entry is reached; and spec sets come with their equation set alone, so
with its number those of its spec sets are free as well. What is left as a reason is that the setup
does not have the part.
-/

set_option autoImplicit false

namespace TesterSetup

namespace Container

variable {α β κ : Type} [Keyed α κ] [DecidableEq κ] {part c d : Container α} {k : κ} {l : List α}

/-- Parts are added one behind the other. -/
theorem items_foldlM_add (h : l.foldlM add c = .ok d) : d.items = c.items ++ l := by
  induction l generalizing c with
  | nil =>
    cases h
    exact (List.append_nil _).symm
  | cons a rest ih =>
    rw [List.foldlM_cons, except_bind_eq_ok_iff] at h
    obtain ⟨c', hadd, hrest⟩ := h
    rw [ih hrest, items_add hadd, List.append_assoc, List.singleton_append]

/-- Parts with keys of their own are added. -/
theorem exists_foldlM_add (h : ((c.items ++ l).map Keyed.key).Nodup) :
    ∃ d, l.foldlM add c = .ok d := by
  induction l generalizing c with
  | nil => exact ⟨c, rfl⟩
  | cons a rest ih =>
    have hnew : Keyed.key a ∉ c.items.map Keyed.key := by
      rw [List.map_append, List.map_cons, List.nodup_append] at h
      exact fun hmem ↦ h.2.2 _ hmem _ List.mem_cons_self rfl
    obtain ⟨c', hadd, hitems⟩ := exists_add_eq_ok hnew
    obtain ⟨d, hrest⟩ := ih (c := c') (by rwa [hitems, List.append_assoc, List.singleton_append])
    refine ⟨d, ?_⟩
    rw [List.foldlM_cons, hadd]
    exact hrest

/-- A part of another container is taken, and something is made of it. -/
theorem take_eq_ok_iff {f : α → Container α → Except ModelError β} {b : β} :
    (do
      let a ← part.require k
      f a (← c.add a)) = Except.ok b ↔
      ∃ a d, part.get? k = some a ∧ c.add a = .ok d ∧ f a d = .ok b := by
  unfold require
  cases part.get? k with
  | none => simp [bind, Except.bind]
  | some a =>
    change (c.add a >>= f a) = .ok b ↔ _
    rw [except_bind_eq_ok_iff]
    simp

/-- When the key is free, taking a part fails only for the part or for what is made of it. -/
theorem take_eq_error {f : α → Container α → Except ModelError β} {cause : ModelError}
    (hfree : k ∉ c.keys) (h : (do
      let a ← part.require k
      f a (← c.add a)) = Except.error cause) :
    k ∉ part.keys ∧ cause = .notFound (Keyed.kind α) (Keyed.keyText α k) ∨
      ∃ a d, part.get? k = some a ∧ c.add a = .ok d ∧ f a d = .error cause := by
  unfold require at h
  cases hget : part.get? k with
  | none =>
    rw [hget] at h
    cases h
    exact .inl ⟨get?_eq_none_iff.mp hget, rfl⟩
  | some a =>
    rw [hget] at h
    change (c.add a >>= f a) = .error cause at h
    rcases except_bind_eq_error_iff.mp h with hadd | ⟨d, hadd, hrest⟩
    · exact absurd (key_of_get? hget ▸ (add_eq_error_iff.mp hadd).1) hfree
    · exact .inr ⟨a, d, rfl, hadd, hrest⟩

theorem items_take {a : α} (hget : part.get? k = some a) (hadd : c.add a = .ok d) :
    d.items = c.items ++ (part.get? k).toList := by
  rw [hget, items_add hadd]
  rfl

/-- Taking a part leaves the other keys free. -/
theorem notMem_keys_take {a : α} {other : κ} (hget : part.get? k = some a)
    (hadd : c.add a = .ok d) (hne : k ≠ other) (hfree : other ∉ c.keys) : other ∉ d.keys := by
  rw [keys, items_add hadd, List.map_append, List.mem_append, List.map_singleton,
    List.mem_singleton, key_of_get? hget, not_or]
  exact ⟨hfree, Ne.symm hne⟩

end Container

/-! ### Equation sets with their spec sets -/

section SpecSets

variable {num other : Nat} {part specsets taken : Container SpecSet}

theorem items_addSpecSetsOf (h : addSpecSetsOf num part specsets = .ok taken) :
    taken.items = specsets.items ++ part.items.filter (·.eqnset == num) :=
  Container.items_foldlM_add h

/-- The spec sets of an equation set are added where there are none of it. -/
theorem exists_addSpecSetsOf (part : Container SpecSet)
    (hfree : ∀ s ∈ specsets.items, s.eqnset ≠ num) :
    ∃ taken, addSpecSetsOf num part specsets = .ok taken := by
  refine Container.exists_foldlM_add ?_
  rw [List.map_append, List.nodup_append]
  refine ⟨specsets.nodup, part.nodup.sublist (List.filter_sublist.map _), ?_⟩
  rintro _ hold _ hnew rfl
  obtain ⟨s, hs, hkey⟩ := List.mem_map.mp hold
  obtain ⟨s', hs', hkey'⟩ := List.mem_map.mp hnew
  have hsame : s.eqnset = s'.eqnset := congrArg SpecSetId.eqnset (hkey.trans hkey'.symm)
  exact hfree s hs (hsame.trans (beq_iff_eq.mp (List.mem_filter.mp hs').2))

theorem free_addSpecSetsOf (h : addSpecSetsOf num part specsets = .ok taken) (hne : num ≠ other)
    (hfree : ∀ s ∈ specsets.items, s.eqnset ≠ other) : ∀ s ∈ taken.items, s.eqnset ≠ other := by
  intro s hs
  rw [items_addSpecSetsOf h, List.mem_append] at hs
  rcases hs with hold | hnew
  · exact hfree s hold
  · rw [beq_iff_eq.mp (List.mem_filter.mp hnew).2]
    exact hne

end SpecSets

/-- Equation sets and spec sets that have neither the equation set of a number nor a spec set of
it. -/
def IsFreeOf {Setups : Type} (num : Nat) (eqnsets : Container (EqnSet Setups))
    (specsets : Container SpecSet) : Prop :=
  num ∉ eqnsets.keys ∧ ∀ s ∈ specsets.items, s.eqnset ≠ num

/-- Equation sets and spec sets before and after those of a number were taken. -/
structure TakesEqnSet {Setups : Type} (num : Nat) (part before after : Container (EqnSet Setups))
    (partSpecs beforeSpecs afterSpecs : Container SpecSet) : Prop where
  eqnsets : after.items = before.items ++ (part.get? num).toList
  specsets : afterSpecs.items = beforeSpecs.items ++ partSpecs.items.filter (·.eqnset == num)
  isFreeOf : ∀ other, num ≠ other → IsFreeOf other before beforeSpecs →
    IsFreeOf other after afterSpecs

section EqnSets

variable {Setups β : Type} {num : Nat} {part before : Container (EqnSet Setups)}
  {partSpecs beforeSpecs : Container SpecSet}
  {f : Container (EqnSet Setups) → Container SpecSet → β}

theorem takesEqnSet_of_eq_ok {b : β} (h : (do
      let e ← part.require num
      return f (← before.add e) (← addSpecSetsOf num partSpecs beforeSpecs)) = Except.ok b) :
    ∃ after afterSpecs, TakesEqnSet num part before after partSpecs beforeSpecs afterSpecs ∧
      b = f after afterSpecs := by
  obtain ⟨e, after, hget, hadd, h⟩ := Container.take_eq_ok_iff.mp h
  obtain ⟨afterSpecs, hspecs, h⟩ := except_bind_eq_ok_iff.mp h
  cases h
  exact ⟨after, afterSpecs, ⟨Container.items_take hget hadd, items_addSpecSetsOf hspecs,
    fun other hne hfree ↦ ⟨Container.notMem_keys_take hget hadd hne hfree.1,
      free_addSpecSetsOf hspecs hne hfree.2⟩⟩, rfl⟩

theorem missing_of_eq_error {cause : ModelError} (hfree : IsFreeOf num before beforeSpecs)
    (h : (do
      let e ← part.require num
      return f (← before.add e) (← addSpecSetsOf num partSpecs beforeSpecs)) =
        Except.error cause) :
    num ∉ part.keys ∧ cause = .notFound "EQNSET" (toString num) := by
  rcases Container.take_eq_error hfree.1 h with hmissing | ⟨e, after, -, -, hrest⟩
  · exact hmissing
  · obtain ⟨afterSpecs, hspecs⟩ := exists_addSpecSetsOf partSpecs hfree.2
    rw [hspecs] at hrest
    cases hrest

end EqnSets

theorem Levels.takesEqnSet {num : Nat} {part l l' : Levels} (h : takeEqnSet num part l = .ok l') :
    TakesEqnSet num part.eqnsets l.eqnsets l'.eqnsets part.specsets l.specsets l'.specsets := by
  obtain ⟨eqnsets, specsets, htakes, rfl⟩ := takesEqnSet_of_eq_ok h
  exact htakes

theorem Levels.missing_of_takeEqnSet {num : Nat} {part l : Levels} {cause : ModelError}
    (hfree : IsFreeOf num l.eqnsets l.specsets) (h : takeEqnSet num part l = .error cause) :
    num ∉ part.eqnsets.keys ∧ cause = .notFound "EQNSET" (toString num) :=
  missing_of_eq_error hfree h

/-! ### Timing -/

namespace Timing

variable {num : Nat} {name other : String} {part t t' : Timing} {cause : ModelError}

theorem takesEqnSet (h : takeEqnSet num part t = .ok t') :
    TakesEqnSet num part.eqnsets t.eqnsets t'.eqnsets part.specsets t.specsets t'.specsets ∧
      t'.wavetables = t.wavetables ∧ t'.specifications = t.specifications := by
  obtain ⟨eqnsets, specsets, htakes, rfl⟩ := takesEqnSet_of_eq_ok
    (f := fun eqnsets specsets ↦ ({ t with eqnsets, specsets } : Timing)) h
  exact ⟨htakes, rfl, rfl⟩

theorem missing_of_takeEqnSet (hfree : IsFreeOf num t.eqnsets t.specsets)
    (h : takeEqnSet num part t = .error cause) :
    num ∉ part.eqnsets.keys ∧ cause = .notFound "EQNSET" (toString num) :=
  missing_of_eq_error (f := fun eqnsets specsets ↦ ({ t with eqnsets, specsets } : Timing)) hfree h

theorem takeWaveTable_eq_ok_iff :
    takeWaveTable name part t = .ok t' ↔ ∃ w wavetables, part.wavetables.get? name = some w ∧
      t.wavetables.add w = .ok wavetables ∧ t' = { t with wavetables } := by
  unfold takeWaveTable
  rw [Container.take_eq_ok_iff]
  simp only [pure, Except.pure, Except.ok.injEq, eq_comm]

theorem items_takeWaveTable (h : takeWaveTable name part t = .ok t') :
    t'.wavetables.items = t.wavetables.items ++ (part.wavetables.get? name).toList ∧
      t'.eqnsets = t.eqnsets ∧ t'.specsets = t.specsets ∧
      t'.specifications = t.specifications := by
  obtain ⟨w, wavetables, hget, hadd, rfl⟩ := takeWaveTable_eq_ok_iff.mp h
  exact ⟨Container.items_take hget hadd, rfl, rfl, rfl⟩

theorem free_takeWaveTable (h : takeWaveTable name part t = .ok t') (hne : name ≠ other)
    (hfree : other ∉ t.wavetables.keys) : other ∉ t'.wavetables.keys := by
  obtain ⟨w, wavetables, hget, hadd, rfl⟩ := takeWaveTable_eq_ok_iff.mp h
  exact Container.notMem_keys_take hget hadd hne hfree

theorem takeWaveTable_eq_error (hfree : name ∉ t.wavetables.keys)
    (h : takeWaveTable name part t = .error cause) :
    name ∉ part.wavetables.keys ∧ cause = .notFound "WAVETBL" name := by
  unfold takeWaveTable at h
  rcases Container.take_eq_error hfree h with hmissing | ⟨w, wavetables, -, -, hrest⟩
  · exact hmissing
  · cases hrest

theorem takeSpecification_eq_ok_iff :
    takeSpecification name part t = .ok t' ↔ ∃ s specifications,
      part.specifications.get? name = some s ∧ t.specifications.add s = .ok specifications ∧
        t' = { t with specifications } := by
  unfold takeSpecification
  rw [Container.take_eq_ok_iff]
  simp only [pure, Except.pure, Except.ok.injEq, eq_comm]

theorem items_takeSpecification (h : takeSpecification name part t = .ok t') :
    t'.specifications.items = t.specifications.items ++ (part.specifications.get? name).toList ∧
      t'.eqnsets = t.eqnsets ∧ t'.specsets = t.specsets ∧ t'.wavetables = t.wavetables := by
  obtain ⟨s, specifications, hget, hadd, rfl⟩ := takeSpecification_eq_ok_iff.mp h
  exact ⟨Container.items_take hget hadd, rfl, rfl, rfl⟩

theorem free_takeSpecification (h : takeSpecification name part t = .ok t') (hne : name ≠ other)
    (hfree : other ∉ t.specifications.keys) : other ∉ t'.specifications.keys := by
  obtain ⟨s, specifications, hget, hadd, rfl⟩ := takeSpecification_eq_ok_iff.mp h
  exact Container.notMem_keys_take hget hadd hne hfree

theorem takeSpecification_eq_error (hfree : name ∉ t.specifications.keys)
    (h : takeSpecification name part t = .error cause) :
    name ∉ part.specifications.keys ∧ cause = .notFound "SPECIFICATION" name := by
  unfold takeSpecification at h
  rcases Container.take_eq_error hfree h with hmissing | ⟨s, specifications, -, -, hrest⟩
  · exact hmissing
  · cases hrest

end Timing

end TesterSetup
