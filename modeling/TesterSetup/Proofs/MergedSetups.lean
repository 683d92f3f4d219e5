import Mathlib.Data.List.Nodup
import TesterSetup.Proofs.PortResolution
import TesterSetup.Proofs.SpecDependents
import TesterSetup.Proofs.TakenParts

/-!
# Merged setups

Merging adds the parts of one setup behind those of another, container by container and part by
part, up to the first part whose key is taken. So it succeeds exactly when the containers of the two
setups have no keys in common, and then each container is the join of the two (`Container.Joins`).
Joining is associative because appending is; and a part that one of the two setups has is found in
their join as it was (`Container.keeps_left`, `Container.keeps_right`), which is all that resolving
looks at. Both languages obey the same laws (`MergeLaws`, `merging_joins`).
-/

set_option autoImplicit false

namespace TesterSetup

/-! ### Containers -/

namespace Container

variable {α κ : Type} [Keyed α κ]

/-- A container has the parts of two others, those of the first in front. -/
def Joins (c d joined : Container α) : Prop :=
  joined.items = c.items ++ d.items

/-- Two containers have no key in common. -/
def Apart (c d : Container α) : Prop :=
  ∀ k ∈ d.keys, k ∉ c.keys

section Joins

variable {c d e joined all : Container α}

theorem Joins.unique {other : Container α} (h : c.Joins d joined) (hother : c.Joins d other) :
    joined = other :=
  Container.ext (h.trans hother.symm)

theorem apart_iff_nodup : c.Apart d ↔ ((c.items ++ d.items).map Keyed.key).Nodup := by
  rw [List.map_append, List.nodup_append']
  exact ⟨fun h ↦ ⟨c.nodup, d.nodup, fun k hc hd ↦ h k hd hc⟩, fun h k hd hc ↦ h.2.2 hc hd⟩

theorem exists_joins_iff : (∃ joined, c.Joins d joined) ↔ c.Apart d := by
  rw [apart_iff_nodup]
  constructor
  · rintro ⟨joined, h⟩
    exact h ▸ joined.nodup
  · exact fun h ↦ ⟨⟨c.items ++ d.items, h⟩, rfl⟩

/-- A third container behind the join of two is the join of the last two behind the first. -/
theorem Joins.assoc (hfront : c.Joins d joined) (hall : joined.Joins e all) :
    ∃ back, d.Joins e back ∧ c.Joins back all := by
  have hitems : all.items = c.items ++ (d.items ++ e.items) := by
    rw [hall, hfront, List.append_assoc]
  have hnodup : ((d.items ++ e.items).map Keyed.key).Nodup :=
    all.nodup.sublist ((hitems ▸ List.sublist_append_right _ _ :
      (d.items ++ e.items).Sublist all.items).map _)
  exact ⟨⟨_, hnodup⟩, rfl, hitems⟩

theorem Joins.assoc_symm {back : Container α} (hback : d.Joins e back) (hall : c.Joins back all) :
    ∃ front, c.Joins d front ∧ front.Joins e all := by
  have hitems : all.items = c.items ++ d.items ++ e.items := by
    rw [hall, hback, List.append_assoc]
  have hnodup : ((c.items ++ d.items).map Keyed.key).Nodup :=
    all.nodup.sublist ((hitems ▸ List.sublist_append_left _ _ :
      (c.items ++ d.items).Sublist all.items).map _)
  exact ⟨⟨_, hnodup⟩, rfl, hitems⟩

end Joins

variable [DecidableEq κ] {c d joined : Container α} {l : List α} {cause : ModelError}

theorem absorb_eq_none_iff : c.absorb l = (d, none) ↔ l.foldlM add c = .ok d := by
  induction l generalizing c with
  | nil => simp [absorb, pure, Except.pure]
  | cons a rest ih =>
    rw [absorb, List.foldlM_cons]
    cases hadd : c.add a with
    | ok next => exact ih
    | error e => simp [bind, Except.bind]

/-- Adding the parts of a container succeeds exactly with the join. -/
theorem absorb_items_eq_none_iff : c.absorb d.items = (joined, none) ↔ c.Joins d joined := by
  rw [absorb_eq_none_iff]
  constructor
  · exact items_foldlM_add
  · intro h
    obtain ⟨all, hall⟩ := exists_foldlM_add (h ▸ joined.nodup : ((c.items ++ d.items).map _).Nodup)
    rw [hall, Joins.unique (items_foldlM_add hall) h]

/-- However adding ends, it has only added behind what was there. -/
theorem initial_absorb (c : Container α) (l : List α) : c.items <+: (c.absorb l).1.items := by
  induction l generalizing c with
  | nil => exact List.prefix_rfl
  | cons a rest ih =>
    rw [absorb]
    cases hadd : c.add a with
    | ok next => exact (items_add hadd ▸ List.prefix_append _ _).trans (ih next)
    | error e => exact List.prefix_rfl

theorem keeps_of_subset (h : c.items ⊆ joined.items) : Keeps Eq c.get? joined.get? := by
  intro k a ha
  obtain ⟨hmem, hkey⟩ := get?_eq_some_iff.mp ha
  exact ⟨a, get?_eq_some_iff.mpr ⟨h hmem, hkey⟩, rfl⟩

theorem Joins.keeps_left (h : c.Joins d joined) : Keeps Eq c.get? joined.get? :=
  keeps_of_subset (h ▸ List.subset_append_left _ _)

theorem Joins.keeps_right (h : c.Joins d joined) : Keeps Eq d.get? joined.get? :=
  keeps_of_subset (h ▸ List.subset_append_right _ _)

end Container

/-! ### Resolving with more parts -/

section Resolving

variable {α κ : Type} [Keyed α κ] [DecidableEq κ] {c d : Container α}

/-- A part that is there is required with the same result where it is kept. -/
theorem Traced.ofModel_require_of_keeps {k : κ} {a : α} (hkeeps : Keeps Eq c.get? d.get?)
    (h : (ofModel (c.require k)).result = .ok a) :
    ofModel (d.require k) = ofModel (c.require k) := by
  have hget := result_ofModel_require_eq_ok_iff.mp h
  rw [ofModel_require_of_get? hget, ofModel_require_of_get? (hkeeps.of_eq hget)]

variable {evaluate : Evaluator}

/-- A levels setup that resolves resolves alike wherever its parts are kept. -/
theorem Levels.resolve_of_keeps {l m : Levels} {eqnset specset levelset : Nat}
    {r : LevelsResolution} (heqnsets : Keeps Eq l.eqnsets.get? m.eqnsets.get?)
    (hspecsets : Keeps Eq l.specsets.get? m.specsets.get?)
    (h : (l.resolve evaluate eqnset specset levelset).result = .ok r) :
    m.resolve evaluate eqnset specset levelset = l.resolve evaluate eqnset specset levelset := by
  obtain ⟨e, he, hrest⟩ := Traced.result_bind_eq_ok_iff.mp h
  obtain ⟨s, hs, -⟩ := Traced.result_bind_eq_ok_iff.mp hrest
  unfold resolve
  rw [Traced.ofModel_require_of_keeps heqnsets he, Traced.ofModel_require_of_keeps hspecsets hs]

variable {t m : Timing} (heqnsets : Keeps Eq t.eqnsets.get? m.eqnsets.get?)

include heqnsets

theorem Timing.resolve_of_keeps {eqnset specset timingset : Nat} {r : TimingResolution}
    (hspecsets : Keeps Eq t.specsets.get? m.specsets.get?)
    (h : (t.resolve evaluate eqnset specset timingset).result = .ok r) :
    m.resolve evaluate eqnset specset timingset = t.resolve evaluate eqnset specset timingset := by
  obtain ⟨e, he, hrest⟩ := Traced.result_bind_eq_ok_iff.mp h
  obtain ⟨s, hs, -⟩ := Traced.result_bind_eq_ok_iff.mp hrest
  unfold resolve
  rw [Traced.ofModel_require_of_keeps heqnsets he, Traced.ofModel_require_of_keeps hspecsets hs]

variable {specification : String} {globals : Container Spec}

theorem PortSet.resolve_of_keeps {p : PortSet} {timingset : Nat} {r : PortResolution}
    (h : (p.resolve evaluate t specification globals timingset).result = .ok r) :
    p.resolve evaluate m specification globals timingset =
      p.resolve evaluate t specification globals timingset := by
  obtain ⟨e, he, -⟩ := Traced.result_bind_eq_ok_iff.mp h
  unfold resolve
  rw [Traced.ofModel_require_of_keeps heqnsets he]

theorem resolvePorts_of_keeps {queue : List (PortSet × Nat)}
    {ports resolved : OrderedMap String PortResolution}
    (h : (resolvePorts evaluate t specification globals queue ports).result = .ok resolved) :
    resolvePorts evaluate m specification globals queue ports =
      resolvePorts evaluate t specification globals queue ports := by
  induction queue generalizing ports with
  | nil => rfl
  | cons q rest ih =>
    obtain ⟨r, hr, hrest⟩ := Traced.result_bind_eq_ok_iff.mp h
    rw [resolvePorts, resolvePorts, PortSet.resolve_of_keeps heqnsets hr, Traced.bind_of_ok hr,
      Traced.bind_of_ok hr, ih hrest]

/-- A specification that resolves resolves alike wherever it and the equation sets are kept. -/
theorem Timing.resolveSpecification_of_keeps {timingsets : List Nat} {r : MultiportResolution}
    (hspecifications : Keeps Eq t.specifications.get? m.specifications.get?)
    (h : (t.resolveSpecification evaluate specification timingsets).result = .ok r) :
    m.resolveSpecification evaluate specification timingsets =
      t.resolveSpecification evaluate specification timingsets := by
  obtain ⟨s, hs, hrest⟩ := Traced.result_bind_eq_ok_iff.mp h
  obtain ⟨sets, hsets, hrest⟩ := Traced.result_bind_eq_ok_iff.mp hrest
  obtain ⟨ports, hports, -⟩ := Traced.result_bind_eq_ok_iff.mp hrest
  unfold resolveSpecification
  rw [Traced.ofModel_require_of_keeps hspecifications hs, Traced.bind_of_ok hs,
    Traced.bind_of_ok hs, Traced.bind_of_ok hsets, Traced.bind_of_ok hsets,
    resolvePorts_of_keeps heqnsets hports]

end Resolving

/-! ### What merging does -/

/-- What holds of merging in a language, by what its setups have in common, in which order parts
stand and what is resolved. -/
structure MergeLaws {σ : Type} (merge : σ → σ → σ × Option ModelError) (apart : σ → σ → Prop)
    (joins : σ → σ → σ → Prop) (startsWith answersAs : σ → σ → Prop) : Prop where
  /-- Merging succeeds exactly when no key is taken. -/
  succeeds : ∀ a b, (merge a b).2 = none ↔ apart a b
  /-- Then each container has the parts of both, in order. -/
  items : ∀ a b, (merge a b).2 = none → joins a b (merge a b).1
  /-- Three setups can be merged from the left or from the right, with the same result. -/
  assoc : ∀ a b c all, (∃ front, merge a b = (front, none) ∧ merge front c = (all, none)) ↔
    ∃ back, merge b c = (back, none) ∧ merge a back = (all, none)
  /-- What one of two setups resolves, the merged one resolves alike. -/
  answers : ∀ a b, (merge a b).2 = none → answersAs a (merge a b).1 ∧ answersAs b (merge a b).1
  /-- However merging ends, the parts that were there come first, as they were. -/
  starts : ∀ a b, startsWith a (merge a b).1

namespace Levels

/-- Two levels setups have no key in common. -/
def Apart (l other : Levels) : Prop :=
  l.eqnsets.Apart other.eqnsets ∧ l.specsets.Apart other.specsets

/-- A levels setup has the parts of two others, those of the first in front. -/
def Joins (l other joined : Levels) : Prop :=
  l.eqnsets.Joins other.eqnsets joined.eqnsets ∧ l.specsets.Joins other.specsets joined.specsets

/-- The parts of a levels setup come first in another. -/
def StartsWith (l m : Levels) : Prop :=
  l.eqnsets.items <+: m.eqnsets.items ∧ l.specsets.items <+: m.specsets.items

/-- What one levels setup resolves, another resolves alike. -/
def AnswersAs (l m : Levels) : Prop :=
  ∀ evaluate eqnset specset levelset r,
    (l.resolve evaluate eqnset specset levelset).result = .ok r →
    m.resolve evaluate eqnset specset levelset = l.resolve evaluate eqnset specset levelset

variable {l other third joined all : Levels}

theorem merge_eq_none_iff : l.merge other = (joined, none) ↔ l.Joins other joined := by
  unfold merge Joins
  rw [← Container.absorb_items_eq_none_iff, ← Container.absorb_items_eq_none_iff]
  rcases l.eqnsets.absorb other.eqnsets.items with ⟨eqnsets, _ | cause⟩
  · rcases l.specsets.absorb other.specsets.items with ⟨specsets, _ | cause⟩ <;>
      cases joined <;> simp
  · simp

theorem exists_joins_iff : (∃ joined, l.Joins other joined) ↔ l.Apart other := by
  unfold Apart
  rw [← Container.exists_joins_iff, ← Container.exists_joins_iff]
  constructor
  · rintro ⟨joined, heqnsets, hspecsets⟩
    exact ⟨⟨_, heqnsets⟩, ⟨_, hspecsets⟩⟩
  · rintro ⟨⟨eqnsets, heqnsets⟩, ⟨specsets, hspecsets⟩⟩
    exact ⟨⟨eqnsets, specsets⟩, heqnsets, hspecsets⟩

theorem Joins.assoc (hfront : l.Joins other joined) (hall : joined.Joins third all) :
    ∃ back, other.Joins third back ∧ l.Joins back all := by
  obtain ⟨eqnsets, heqnsets, heqnsets'⟩ := hfront.1.assoc hall.1
  obtain ⟨specsets, hspecsets, hspecsets'⟩ := hfront.2.assoc hall.2
  exact ⟨⟨eqnsets, specsets⟩, ⟨heqnsets, hspecsets⟩, heqnsets', hspecsets'⟩

theorem Joins.assoc_symm (hback : other.Joins third joined) (hall : l.Joins joined all) :
    ∃ front, l.Joins other front ∧ front.Joins third all := by
  obtain ⟨eqnsets, heqnsets, heqnsets'⟩ := hback.1.assoc_symm hall.1
  obtain ⟨specsets, hspecsets, hspecsets'⟩ := hback.2.assoc_symm hall.2
  exact ⟨⟨eqnsets, specsets⟩, ⟨heqnsets, hspecsets⟩, heqnsets', hspecsets'⟩

theorem Joins.answersAs (h : l.Joins other joined) :
    l.AnswersAs joined ∧ other.AnswersAs joined :=
  ⟨fun _ _ _ _ _ ↦ resolve_of_keeps h.1.keeps_left h.2.keeps_left,
    fun _ _ _ _ _ ↦ resolve_of_keeps h.1.keeps_right h.2.keeps_right⟩

theorem startsWith_merge (l other : Levels) : l.StartsWith (l.merge other).1 := by
  have heqnsets := l.eqnsets.initial_absorb other.eqnsets.items
  have hspecsets := l.specsets.initial_absorb other.specsets.items
  unfold merge
  split
  · rename_i h
    rw [h] at heqnsets
    exact ⟨heqnsets, List.prefix_rfl⟩
  · rename_i h
    rw [h] at heqnsets
    exact ⟨heqnsets, hspecsets⟩

end Levels

namespace Timing

/-- Two timing setups have no key in common. -/
def Apart (t other : Timing) : Prop :=
  t.eqnsets.Apart other.eqnsets ∧ t.specsets.Apart other.specsets ∧
    t.specifications.Apart other.specifications ∧ t.wavetables.Apart other.wavetables

/-- A timing setup has the parts of two others, those of the first in front. -/
def Joins (t other joined : Timing) : Prop :=
  t.eqnsets.Joins other.eqnsets joined.eqnsets ∧ t.specsets.Joins other.specsets joined.specsets ∧
    t.specifications.Joins other.specifications joined.specifications ∧
    t.wavetables.Joins other.wavetables joined.wavetables

/-- The parts of a timing setup come first in another. -/
def StartsWith (t m : Timing) : Prop :=
  t.eqnsets.items <+: m.eqnsets.items ∧ t.specsets.items <+: m.specsets.items ∧
    t.specifications.items <+: m.specifications.items ∧ t.wavetables.items <+: m.wavetables.items

/-- What one timing setup resolves, another resolves alike: single ports and specifications. -/
def AnswersAs (t m : Timing) : Prop :=
  (∀ evaluate eqnset specset timingset r,
    (t.resolve evaluate eqnset specset timingset).result = .ok r →
    m.resolve evaluate eqnset specset timingset = t.resolve evaluate eqnset specset timingset) ∧
  ∀ evaluate specification timingsets r,
    (t.resolveSpecification evaluate specification timingsets).result = .ok r →
    m.resolveSpecification evaluate specification timingsets =
      t.resolveSpecification evaluate specification timingsets

variable {t other third joined all : Timing}

theorem merge_eq_none_iff : t.merge other = (joined, none) ↔ t.Joins other joined := by
  unfold merge Joins
  simp only [← Container.absorb_items_eq_none_iff]
  rcases t.eqnsets.absorb other.eqnsets.items with ⟨eqnsets, _ | cause⟩
  · rcases t.specsets.absorb other.specsets.items with ⟨specsets, _ | cause⟩
    · rcases t.specifications.absorb other.specifications.items with ⟨specifications, _ | cause⟩
      · rcases t.wavetables.absorb other.wavetables.items with ⟨wavetables, _ | cause⟩ <;>
          cases joined <;> simp
      · simp
    · simp
  · simp

theorem exists_joins_iff : (∃ joined, t.Joins other joined) ↔ t.Apart other := by
  unfold Apart
  simp only [← Container.exists_joins_iff]
  constructor
  · rintro ⟨joined, heqnsets, hspecsets, hspecifications, hwavetables⟩
    exact ⟨⟨_, heqnsets⟩, ⟨_, hspecsets⟩, ⟨_, hspecifications⟩, ⟨_, hwavetables⟩⟩
  · rintro ⟨⟨eqnsets, heqnsets⟩, ⟨specsets, hspecsets⟩, ⟨specifications, hspecifications⟩,
      ⟨wavetables, hwavetables⟩⟩
    exact ⟨⟨eqnsets, specsets, specifications, wavetables⟩, heqnsets, hspecsets, hspecifications,
      hwavetables⟩

theorem Joins.assoc (hfront : t.Joins other joined) (hall : joined.Joins third all) :
    ∃ back, other.Joins third back ∧ t.Joins back all := by
  obtain ⟨eqnsets, heqnsets, heqnsets'⟩ := hfront.1.assoc hall.1
  obtain ⟨specsets, hspecsets, hspecsets'⟩ := hfront.2.1.assoc hall.2.1
  obtain ⟨specifications, hspecs, hspecs'⟩ := hfront.2.2.1.assoc hall.2.2.1
  obtain ⟨wavetables, htables, htables'⟩ := hfront.2.2.2.assoc hall.2.2.2
  exact ⟨⟨eqnsets, specsets, specifications, wavetables⟩,
    ⟨heqnsets, hspecsets, hspecs, htables⟩, heqnsets', hspecsets', hspecs', htables'⟩

theorem Joins.assoc_symm (hback : other.Joins third joined) (hall : t.Joins joined all) :
    ∃ front, t.Joins other front ∧ front.Joins third all := by
  obtain ⟨eqnsets, heqnsets, heqnsets'⟩ := hback.1.assoc_symm hall.1
  obtain ⟨specsets, hspecsets, hspecsets'⟩ := hback.2.1.assoc_symm hall.2.1
  obtain ⟨specifications, hspecs, hspecs'⟩ := hback.2.2.1.assoc_symm hall.2.2.1
  obtain ⟨wavetables, htables, htables'⟩ := hback.2.2.2.assoc_symm hall.2.2.2
  exact ⟨⟨eqnsets, specsets, specifications, wavetables⟩,
    ⟨heqnsets, hspecsets, hspecs, htables⟩, heqnsets', hspecsets', hspecs', htables'⟩

theorem Joins.answersAs (h : t.Joins other joined) :
    t.AnswersAs joined ∧ other.AnswersAs joined := by
  obtain ⟨heqnsets, hspecsets, hspecifications, -⟩ := h
  exact ⟨⟨fun _ _ _ _ _ ↦ resolve_of_keeps heqnsets.keeps_left hspecsets.keeps_left,
      fun _ _ _ _ ↦ resolveSpecification_of_keeps heqnsets.keeps_left hspecifications.keeps_left⟩,
    fun _ _ _ _ _ ↦ resolve_of_keeps heqnsets.keeps_right hspecsets.keeps_right,
    fun _ _ _ _ ↦ resolveSpecification_of_keeps heqnsets.keeps_right hspecifications.keeps_right⟩

theorem startsWith_merge (t other : Timing) : t.StartsWith (t.merge other).1 := by
  have heqnsets := t.eqnsets.initial_absorb other.eqnsets.items
  have hspecsets := t.specsets.initial_absorb other.specsets.items
  have hspecifications := t.specifications.initial_absorb other.specifications.items
  have hwavetables := t.wavetables.initial_absorb other.wavetables.items
  unfold merge
  split
  · rename_i h
    rw [h] at heqnsets
    exact ⟨heqnsets, List.prefix_rfl, List.prefix_rfl, List.prefix_rfl⟩
  · rename_i h
    rw [h] at heqnsets
    split
    · rename_i h
      rw [h] at hspecsets
      exact ⟨heqnsets, hspecsets, List.prefix_rfl, List.prefix_rfl⟩
    · rename_i h
      rw [h] at hspecsets
      split
      · rename_i h
        rw [h] at hspecifications
        exact ⟨heqnsets, hspecsets, hspecifications, List.prefix_rfl⟩
      · rename_i h
        rw [h] at hspecifications
        exact ⟨heqnsets, hspecsets, hspecifications, hwavetables⟩

end Timing

section Laws

variable {σ : Type} {merge : σ → σ → σ × Option ModelError} {apart : σ → σ → Prop}
  {joins : σ → σ → σ → Prop} {startsWith answersAs : σ → σ → Prop}

/-- The laws follow from those of joining, where merging without an error is joining. -/
theorem MergeLaws.of_joins (hmerge : ∀ {a b m}, merge a b = (m, none) ↔ joins a b m)
    (hexists : ∀ {a b}, (∃ m, joins a b m) ↔ apart a b)
    (hassoc : ∀ {a b c m all}, joins a b m → joins m c all → ∃ back, joins b c back ∧
      joins a back all)
    (hassoc_symm : ∀ {a b c m all}, joins b c m → joins a m all → ∃ front, joins a b front ∧
      joins front c all)
    (hanswers : ∀ {a b m}, joins a b m → answersAs a m ∧ answersAs b m)
    (hstarts : ∀ a b, startsWith a (merge a b).1) :
    MergeLaws merge apart joins startsWith answersAs := by
  have hitems : ∀ a b, (merge a b).2 = none → joins a b (merge a b).1 :=
    fun _ _ h ↦ hmerge.mp (Prod.ext rfl h)
  refine ⟨fun a b ↦ ⟨fun h ↦ hexists.mp ⟨_, hitems a b h⟩, fun h ↦ ?_⟩, hitems, fun a b c all ↦ ?_,
    fun a b h ↦ hanswers (hitems a b h), hstarts⟩
  · obtain ⟨m, hm⟩ := hexists.mpr h
    rw [hmerge.mpr hm]
  · simp only [hmerge]
    exact ⟨fun ⟨_, hfront, hall⟩ ↦ hassoc hfront hall,
      fun ⟨_, hback, hall⟩ ↦ hassoc_symm hback hall⟩

end Laws

/-- Merging succeeds exactly when no key is taken and then puts the parts of one setup behind those
of the other. It is associative, keeps what either setup resolves, and in any case keeps the parts
that were there in front. -/
theorem merging_joins :
    MergeLaws Levels.merge Levels.Apart Levels.Joins Levels.StartsWith Levels.AnswersAs ∧
    MergeLaws Timing.merge Timing.Apart Timing.Joins Timing.StartsWith Timing.AnswersAs :=
  ⟨.of_joins Levels.merge_eq_none_iff Levels.exists_joins_iff Levels.Joins.assoc
      Levels.Joins.assoc_symm Levels.Joins.answersAs Levels.startsWith_merge,
    .of_joins Timing.merge_eq_none_iff Timing.exists_joins_iff Timing.Joins.assoc
      Timing.Joins.assoc_symm Timing.Joins.answersAs Timing.startsWith_merge⟩

/-- A levels setup with one equation set, under another number than that of `twoSpecLevels`. -/
def secondLevels : Levels where
  eqnsets := ⟨[{ twoSpecEqnSet with num := 2 }], List.nodup_singleton _⟩
  specsets := .empty

theorem merging_joins_twoSpec :
    ∃ m, twoSpecLevels.merge secondLevels = (m, none) ∧ twoSpecLevels.Joins secondLevels m ∧
      ∃ r, (m.resolve compute 1 1 1).result = .ok r := by
  have heqnsets : ∀ k ∈ secondLevels.eqnsets.keys, k ∉ twoSpecLevels.eqnsets.keys := by decide
  have hspecsets : ∀ k ∈ secondLevels.specsets.keys, k ∉ twoSpecLevels.specsets.keys := by decide
  have hfree : (twoSpecLevels.merge secondLevels).2 = none :=
    (merging_joins.1.succeeds _ _).mpr ⟨heqnsets, hspecsets⟩
  have hresolves : (twoSpecLevels.resolve compute 1 1 1).result.isOk := by decide +kernel
  obtain ⟨r, hr⟩ := exists_eq_ok_of_isOk hresolves
  have hsame := (merging_joins.1.answers _ _ hfree).1 compute 1 1 1 r hr
  exact ⟨(twoSpecLevels.merge secondLevels).1, Prod.ext rfl hfree,
    merging_joins.1.items _ _ hfree, r, hsame ▸ hr⟩

end TesterSetup
