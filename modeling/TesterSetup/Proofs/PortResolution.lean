import Mathlib.Data.List.Forall2
import TesterSetup.Proofs.ClosureContents

/-!
# Ports of a specification

A specification resolves its ports one after the other. This module says what one port is resolved
from and that nothing else enters. A port and a single-port setup are two ways to give values to
the specs of one equation set: both succeed exactly on the closure of these values
(`Timing.result_resolve_eq_ok_iff`, `PortSet.result_resolve_eq_ok_iff`), so they agree whenever the
values do (`Timing.resolveSpecification_split`). The loop over the ports gives each port what it
gets as the only port of its specification (`Timing.resolveAlone`), or the failure of the first
port that fails alone (`Timing.resolveSpecification_portwise`).
-/

set_option autoImplicit false

namespace TesterSetup

/-! ### One port -/

section Port

variable {evaluate : Evaluator} {timing : Timing} {e : TimingEqnSet} {p : PortSet}
  {specification : String} {globals : Container Spec}

/-- The value for a port: its own, or else the one for all ports. -/
def PortSet.given (p : PortSet) (globals : Container Spec) (name : String) : Option Float :=
  (actuals p.specs name).or (actuals globals name)

/-- A port is seeded like any other equation set, unless it values a spec that is not declared. -/
theorem PortSet.seed_eq_ok_iff {seeded : Variables} :
    p.seed specification globals e = .ok seeded ↔
      (∀ spec ∈ p.specs.items, e.declares spec.name) ∧
        seedClosure e.specs.keys (p.given globals)
          (fun n ↦ ResolveError.unresolvedGlobalSpec n p.port specification) = .ok seeded := by
  unfold PortSet.seed
  cases hfind : p.specs.items.find? fun spec ↦ !e.declares spec.name with
  | some undeclared =>
    have hundeclared := List.find?_some hfind
    have hmem := List.mem_of_find?_eq_some hfind
    simp only [reduceCtorEq, false_iff]
    rintro ⟨hdeclared, -⟩
    simp [hdeclared undeclared hmem] at hundeclared
  | none =>
    have hdeclared : ∀ spec ∈ p.specs.items, e.declares spec.name := by
      simpa using List.find?_eq_none.mp hfind
    rw [and_iff_right hdeclared]
    rfl

/-- Seeding a port looks at the values that it is given for declared specs only. -/
theorem PortSet.seed_congr {globals' : Container Spec}
    (h : ∀ n ∈ e.specs.keys, p.given globals' n = p.given globals n) :
    p.seed specification globals' e = p.seed specification globals e := by
  unfold PortSet.seed
  cases p.specs.items.find? fun spec ↦ !e.declares spec.name with
  | some undeclared => rfl
  | none => exact seedClosure_congr h

/-- A port resolves exactly when its equation set and timing set exist, it values declared specs
only, every declared spec has a value, and the closure of these values resolves the timing set. -/
theorem PortSet.result_resolve_eq_ok_iff {timingset : Nat} {r : PortResolution} :
    (p.resolve evaluate timing specification globals timingset).result = .ok r ↔
      ∃ e t, timing.eqnsets.get? p.eqnset = some e ∧
        e.setups.timingsets.get? timingset = some t ∧
        (∀ spec ∈ p.specs.items, e.declares spec.name) ∧
        (∀ n ∈ e.specs.keys, (p.given globals n).isSome) ∧
        e.IsClosure evaluate (p.given globals) r.closure ∧
        (t.resolve evaluate e.num r.closure).result = .ok r.pinEdges ∧
        r.eqnset = e.num ∧ r.timingset = timingset ∧ r.wavetable = p.wavetable := by
  unfold PortSet.resolve
  simp only [Traced.result_bind_eq_ok_iff, Traced.result_ofModel_require_eq_ok_iff,
    Traced.result_lift, Traced.result_pure, Except.ok.injEq]
  constructor
  · rintro ⟨e, he, seeded, hseed, closure, hclose, t, ht, pinEdges, hedges, rfl⟩
    obtain ⟨hdeclared, hseed⟩ := PortSet.seed_eq_ok_iff.mp hseed
    obtain ⟨hgiven, hclosure⟩ := EqnSet.seedClosure_close_eq_ok_iff.mp ⟨seeded, hseed, hclose⟩
    exact ⟨e, t, he, ht, hdeclared, hgiven, hclosure, hedges, rfl, rfl, rfl⟩
  · rintro ⟨e, t, he, ht, hdeclared, hgiven, hclosure, hedges, hnum, hset, htable⟩
    obtain ⟨seeded, hseed, hclose⟩ := EqnSet.seedClosure_close_eq_ok_iff.mpr ⟨hgiven, hclosure⟩
    refine ⟨e, he, seeded, PortSet.seed_eq_ok_iff.mpr ⟨hdeclared, hseed⟩, r.closure, hclose, t, ht,
      r.pinEdges, hedges, ?_⟩
    rw [← hnum, ← hset, ← htable]

/-- The timing sets of a port are those of its equation set; nothing else of a setup enters. -/
theorem PortSet.resolve_congr {timing' : Timing} {globals' : Container Spec}
    (htiming : timing'.eqnsets = timing.eqnsets)
    (h : ∀ e, timing.eqnsets.get? p.eqnset = some e →
      ∀ n ∈ e.specs.keys, p.given globals' n = p.given globals n) (timingset : Nat) :
    p.resolve evaluate timing' specification globals' timingset =
      p.resolve evaluate timing specification globals timingset := by
  unfold PortSet.resolve
  rw [htiming]
  refine Traced.bind_congr fun e he ↦ ?_
  rw [Traced.result_ofModel_require_eq_ok_iff] at he
  rw [PortSet.seed_congr (h e he)]

end Port

/-! ### A port and a single-port setup -/

section Split

variable {evaluate : Evaluator} {timing : Timing} {e : TimingEqnSet} {s : SpecSet} {p : PortSet}
  {globals : Container Spec}

/-- A single-port setup resolves exactly when its sets exist, every declared spec has a value, and
the closure of these values resolves the timing set. -/
theorem Timing.result_resolve_eq_ok_iff {eqnset specset timingset : Nat} {r : TimingResolution} :
    (timing.resolve evaluate eqnset specset timingset).result = .ok r ↔
      ∃ e s t, timing.eqnsets.get? eqnset = some e ∧
        timing.specsets.get? ⟨eqnset, specset⟩ = some s ∧
        e.setups.timingsets.get? timingset = some t ∧
        (∀ n ∈ e.specs.keys, (actuals s.specs n).isSome) ∧
        e.IsClosure evaluate (actuals s.specs) r.closure ∧
        (t.resolve evaluate eqnset r.closure).result = .ok r.pinEdges := by
  unfold Timing.resolve
  simp only [Traced.result_bind_eq_ok_iff, Traced.result_ofModel_require_eq_ok_iff,
    Traced.result_lift, Traced.result_pure, Except.ok.injEq]
  constructor
  · rintro ⟨e, he, s, hs, t, ht, seeded, hseed, closure, hclose, pinEdges, hedges, rfl⟩
    obtain ⟨hgiven, hclosure⟩ := EqnSet.seedClosure_close_eq_ok_iff.mp ⟨seeded, hseed, hclose⟩
    exact ⟨e, s, t, he, hs, ht, hgiven, hclosure, hedges⟩
  · rintro ⟨e, s, t, he, hs, ht, hgiven, hclosure, hedges⟩
    obtain ⟨seeded, hseed, hclose⟩ := EqnSet.seedClosure_close_eq_ok_iff.mpr ⟨hgiven, hclosure⟩
    exact ⟨e, he, s, hs, t, ht, seeded, hseed, r.closure, hclose, r.pinEdges, hedges, rfl⟩

/-- A port set and the values for all ports share the values of a spec set out among them: the port
set values declared specs only, and the value of every declared spec stands in the port set, or not
there and among the values for all ports. Those may hold anything else. -/
structure PortSet.Splits (p : PortSet) (globals : Container Spec) (e : TimingEqnSet)
    (s : SpecSet) : Prop where
  declared : ∀ spec ∈ p.specs.items, e.declares spec.name
  given : ∀ n ∈ e.specs.keys, ∃ value, actuals s.specs n = some value ∧
    (actuals p.specs n = some value ∨
      actuals p.specs n = none ∧ actuals globals n = some value)

theorem PortSet.Splits.given_eq (h : p.Splits globals e s) {n : String} (hn : n ∈ e.specs.keys) :
    p.given globals n = actuals s.specs n := by
  obtain ⟨value, hs, hlocal | ⟨hnone, hglobal⟩⟩ := h.given n hn
  · rw [PortSet.given, hlocal, hs, Option.some_or]
  · rw [PortSet.given, hnone, hglobal, hs, Option.none_or]

theorem PortSet.Splits.isSome (h : p.Splits globals e s) {n : String} (hn : n ∈ e.specs.keys) :
    (actuals s.specs n).isSome := by
  obtain ⟨value, hs, -⟩ := h.given n hn
  rw [hs, Option.isSome_some]

/-- A port whose values are split resolves to what the spec set resolves to. -/
theorem PortSet.result_resolve_split_eq_ok_iff {specset timingset : Nat} {specification : String}
    {r : PortResolution} (he : timing.eqnsets.get? p.eqnset = some e)
    (hs : timing.specsets.get? ⟨p.eqnset, specset⟩ = some s) (h : p.Splits globals e s) :
    (p.resolve evaluate timing specification globals timingset).result = .ok r ↔
      (timing.resolve evaluate p.eqnset specset timingset).result = .ok ⟨r.closure, r.pinEdges⟩ ∧
        r.eqnset = p.eqnset ∧ r.timingset = timingset ∧ r.wavetable = p.wavetable := by
  have hnum : e.num = p.eqnset := Container.key_of_get? he
  rw [PortSet.result_resolve_eq_ok_iff, Timing.result_resolve_eq_ok_iff]
  constructor
  · rintro ⟨e', t, he', ht, -, -, hclosure, hedges, heqnset, hset, htable⟩
    obtain rfl := Option.some.inj (he.symm.trans he')
    rw [EqnSet.IsClosure.congr fun n hn ↦ h.given_eq hn] at hclosure
    rw [hnum] at hedges heqnset
    exact ⟨⟨e, s, t, he, hs, ht, fun n hn ↦ h.isSome hn, hclosure, hedges⟩, heqnset, hset, htable⟩
  · rintro ⟨⟨e', s', t, he', hs', ht, hgiven, hclosure, hedges⟩, heqnset, hset, htable⟩
    obtain rfl := Option.some.inj (he.symm.trans he')
    obtain rfl := Option.some.inj (hs.symm.trans hs')
    rw [← EqnSet.IsClosure.congr fun n hn ↦ h.given_eq hn] at hclosure
    rw [← hnum] at hedges heqnset
    exact ⟨e, t, he, ht, h.declared, fun n hn ↦ h.given_eq hn ▸ hgiven n hn, hclosure, hedges,
      heqnset, hset, htable⟩

end Split

/-! ### The loop over the ports -/

section Loop

variable {evaluate : Evaluator} {timing : Timing} {specification : String}
  {globals : Container Spec} {queue : List (PortSet × Nat)}
  {ports resolved : OrderedMap String PortResolution}

/-- The loop succeeds exactly when every port does, and appends the ports in order. -/
theorem resolvePorts_eq_ok_iff
    (hnodup : (ports.keys ++ queue.map fun q ↦ q.1.port).Nodup) :
    (resolvePorts evaluate timing specification globals queue ports).result = .ok resolved ↔
      ∃ entries, resolved.entries = ports.entries ++ entries ∧
        List.Forall₂ (fun q entry ↦ entry.1 = q.1.port ∧
          (q.1.resolve evaluate timing specification globals q.2).result = .ok entry.2)
          queue entries := by
  induction queue generalizing ports with
  | nil =>
    simp only [resolvePorts, Traced.result_pure, Except.ok.injEq, List.forall₂_nil_left_iff,
      exists_eq_right, List.append_nil]
    exact ⟨fun h ↦ h ▸ rfl, fun h ↦ OrderedMap.ext h.symm⟩
  | cons q rest ih =>
    obtain ⟨p, timingset⟩ := q
    have hp : p.port ∉ ports.keys := fun hmem ↦
      (List.nodup_append.mp hnodup).2.2 p.port hmem p.port List.mem_cons_self rfl
    have hnodup' (r : PortResolution) :
        ((ports.insert p.port r).keys ++ rest.map fun q ↦ q.1.port).Nodup := by
      rwa [OrderedMap.keys_insert, if_neg hp, List.append_assoc]
    simp only [resolvePorts, Traced.result_bind_eq_ok_iff, ih (hnodup' _),
      OrderedMap.entries_insert_of_notMem hp, List.append_assoc, List.singleton_append]
    constructor
    · rintro ⟨r, hr, entries, hentries, hrest⟩
      exact ⟨(p.port, r) :: entries, hentries, .cons ⟨rfl, hr⟩ hrest⟩
    · rintro ⟨entries, hentries, hall⟩
      obtain ⟨entry, entries, ⟨hport, hr⟩, hrest, rfl⟩ := List.forall₂_cons_left_iff.mp hall
      refine ⟨entry.2, hr, entries, ?_, hrest⟩
      rw [hentries, ← hport]

/-- The loop fails exactly with the failure of the first port that fails. -/
theorem resolvePorts_eq_error_iff {error : ResolveError} :
    (resolvePorts evaluate timing specification globals queue ports).result = .error error ↔
      ∃ before q after, queue = before ++ q :: after ∧
        (∀ b ∈ before, ∃ r,
          (b.1.resolve evaluate timing specification globals b.2).result = .ok r) ∧
        (q.1.resolve evaluate timing specification globals q.2).result = .error error := by
  induction queue generalizing ports with
  | nil => simp [resolvePorts]
  | cons q rest ih =>
    obtain ⟨p, timingset⟩ := q
    simp only [resolvePorts, Traced.result_bind_eq_error_iff, ih]
    constructor
    · rintro (herror | ⟨r, hr, before, q, after, rfl, hbefore, herror⟩)
      · exact ⟨[], (p, timingset), rest, rfl, by simp, herror⟩
      · refine ⟨(p, timingset) :: before, q, after, rfl, ?_, herror⟩
        exact List.forall_mem_cons.mpr ⟨⟨r, hr⟩, hbefore⟩
    · rintro ⟨before, q, after, hqueue, hbefore, herror⟩
      cases before with
      | nil =>
        obtain ⟨rfl, rfl⟩ := List.cons.inj hqueue
        exact Or.inl herror
      | cons first before =>
        obtain ⟨rfl, rfl⟩ := List.cons.inj hqueue
        obtain ⟨⟨r, hr⟩, hbefore⟩ := List.forall_mem_cons.mp hbefore
        exact Or.inr ⟨r, hr, before, q, after, rfl, hbefore, herror⟩

end Loop

/-! ### Whole specifications -/

section Specifications

variable {evaluate : Evaluator} {timing : Timing} {s : Specification} {p : PortSet}
  {name : String} {given : List Nat}

/-- A timing set for each of `count` ports: the only one that is given, or one for each. -/
def broadcast (count : Nat) : List Nat → List Nat
  | [one] => List.replicate count one
  | all => all

/-- The ports of a specification in order, each with its own timing set. -/
def Specification.portsWith (s : Specification) (given : List Nat) : List (PortSet × Nat) :=
  s.portsets.items.zip (broadcast s.portsets.size given)

theorem length_broadcast {count : Nat} (h : given.length = 1 ∨ given.length = count) :
    (broadcast count given).length = count := by
  match given, h with
  | [one], _ => exact List.length_replicate
  | [], h => simpa [broadcast] using h
  | _ :: _ :: _, h => simpa [broadcast] using h

theorem Specification.timingSets_of_length
    (h : given.length = 1 ∨ given.length = s.portsets.size) :
    s.timingSets given = .ok (broadcast s.portsets.size given) := by
  match given, h with
  | [one], _ => rfl
  | [], h => exact if_pos (h.resolve_left (by simp))
  | _ :: _ :: _, h => exact if_pos (h.resolve_left (by simp))

theorem Specification.map_fst_portsWith
    (h : given.length = 1 ∨ given.length = s.portsets.size) :
    (s.portsWith given).map Prod.fst = s.portsets.items :=
  List.map_fst_zip (Nat.le_of_eq (length_broadcast h).symm)

/-- A specification resolves as its ports do, one after the other. -/
theorem Timing.resolveSpecification_eq (hs : timing.specifications.get? name = some s)
    (h : given.length = 1 ∨ given.length = s.portsets.size) :
    timing.resolveSpecification evaluate name given =
      (do return ⟨name, ←
        resolvePorts evaluate timing name s.specs (s.portsWith given) .empty⟩) := by
  have hname : s.name = name := Container.key_of_get? hs
  unfold resolveSpecification
  rw [Traced.ofModel_require_of_get? hs, Traced.lift_ok_bind,
    Specification.timingSets_of_length h, Traced.lift_ok_bind, hname]
  rfl

theorem Timing.result_resolveSpecification_eq_ok_iff {m : MultiportResolution}
    (hs : timing.specifications.get? name = some s)
    (h : given.length = 1 ∨ given.length = s.portsets.size) :
    (timing.resolveSpecification evaluate name given).result = .ok m ↔
      m.specification = name ∧
        List.Forall₂ (fun (q : PortSet × Nat) entry ↦ entry.1 = q.1.port ∧
          (q.1.resolve evaluate timing name s.specs q.2).result = .ok entry.2)
          (s.portsWith given) m.ports.entries := by
  have hnodup : ((OrderedMap.empty : OrderedMap String PortResolution).keys ++
      (s.portsWith given).map fun q ↦ q.1.port).Nodup := by
    have hmap := congrArg (List.map PortSet.port) (Specification.map_fst_portsWith h)
    rw [List.map_map] at hmap
    exact hmap ▸ s.portsets.nodup
  rw [resolveSpecification_eq hs h]
  simp only [Traced.result_bind_eq_ok_iff, Traced.result_pure, Except.ok.injEq,
    resolvePorts_eq_ok_iff hnodup]
  constructor
  · rintro ⟨ports, ⟨entries, hentries, hall⟩, rfl⟩
    exact ⟨rfl, hentries ▸ hall⟩
  · rintro ⟨rfl, hall⟩
    exact ⟨m.ports, ⟨m.ports.entries, rfl, hall⟩, rfl⟩

theorem Timing.result_resolveSpecification_eq_error_iff {error : ResolveError}
    (hs : timing.specifications.get? name = some s)
    (h : given.length = 1 ∨ given.length = s.portsets.size) :
    (timing.resolveSpecification evaluate name given).result = .error error ↔
      ∃ before q after, s.portsWith given = before ++ q :: after ∧
        (∀ b ∈ before, ∃ r, (b.1.resolve evaluate timing name s.specs b.2).result = .ok r) ∧
        (q.1.resolve evaluate timing name s.specs q.2).result = .error error := by
  rw [resolveSpecification_eq hs h]
  simp only [Traced.result_bind_eq_error_iff, Traced.result_pure, reduceCtorEq, and_false,
    exists_const, or_false, resolvePorts_eq_error_iff]

/-- A specification with one port set resolves as its port does. -/
theorem Timing.result_resolveSpecification_single {timingset : Nat}
    (hs : timing.specifications.get? name = some s) (hp : s.portsets.items = [p]) :
    (timing.resolveSpecification evaluate name [timingset]).result =
      (p.resolve evaluate timing name s.specs timingset).result.map fun r ↦
        ⟨name, OrderedMap.empty.insert p.port r⟩ := by
  have hports : s.portsWith [timingset] = [(p, timingset)] := by
    simp [Specification.portsWith, broadcast, Container.size, hp]
  rw [resolveSpecification_eq hs (Or.inl rfl), hports]
  simp only [resolvePorts, Traced.result_bind, Traced.result_pure]
  cases (p.resolve evaluate timing name s.specs timingset).result <;> rfl

/-- One port and one spec set resolve alike. However the values of a spec set are split between the
only port set of a specification and its values for all ports, the specification resolves with a
timing set exactly when the spec set does, and its port has the same variables, the same period and
the same edges. -/
theorem Timing.resolveSpecification_split {e : TimingEqnSet} {specset : SpecSet}
    {specsetNum timingset : Nat} (he : timing.eqnsets.get? p.eqnset = some e)
    (hspecset : timing.specsets.get? ⟨p.eqnset, specsetNum⟩ = some specset)
    (hs : timing.specifications.get? name = some s) (hp : s.portsets.items = [p])
    (hsplit : p.Splits s.specs e specset) :
    ((∃ m, (timing.resolveSpecification evaluate name [timingset]).result = .ok m) ↔
      ∃ r, (timing.resolve evaluate p.eqnset specsetNum timingset).result = .ok r) ∧
    ∀ m r, (timing.resolveSpecification evaluate name [timingset]).result = .ok m →
      (timing.resolve evaluate p.eqnset specsetNum timingset).result = .ok r →
        m.specification = name ∧ m.ports.entries =
          [(p.port, ⟨p.eqnset, timingset, p.wavetable, r.closure, r.pinEdges⟩)] := by
  simp only [result_resolveSpecification_single hs hp, except_map_eq_ok_iff,
    PortSet.result_resolve_split_eq_ok_iff he hspecset hsplit]
  refine ⟨⟨?_, ?_⟩, ?_⟩
  · rintro ⟨m, port, ⟨hport, -⟩, -⟩
    exact ⟨⟨port.closure, port.pinEdges⟩, hport⟩
  · rintro ⟨r, hr⟩
    exact ⟨_, ⟨p.eqnset, timingset, p.wavetable, r.closure, r.pinEdges⟩, ⟨hr, rfl, rfl, rfl⟩, rfl⟩
  · rintro m r ⟨port, ⟨hport, heqnset, htimingset, hwavetable⟩, rfl⟩ hr
    rw [hr, Except.ok.injEq] at hport
    refine ⟨rfl, ?_⟩
    rw [hport, ← heqnset, ← htimingset, ← hwavetable]
    rfl

/-- Two specs, an equation over the first and two timing sets. -/
def scaledEqnSet : TimingEqnSet where
  num := 1
  description := ""
  specs := .ofList [("X", "ns"), ("t_per", "ns")]
  equations := .ofList [("edge", "X * 2")]
  setups :=
    { ports := []
      timingsets := ⟨[
        { TimingSet.ofNum 1 "" with
          period := some "t_per",
          edgeblocks := [⟨["P1", "P2"], .ofList [(default, "edge + 1")]⟩] },
        { TimingSet.ofNum 2 "" with period := some "fract(t_per, 2, X)" }], by decide⟩ }
  source := none

/-- Values for both specs. -/
def scaledSpecSet : SpecSet :=
  { SpecSet.ofNum 1 1 "" with specs := ⟨[.ofActual "X" 2, .ofActual "t_per" 10], by decide⟩ }

/-- A port with a value of its own for one of them. -/
def localPort : PortSet :=
  { PortSet.ofEqnSet 1 with
    port := "pA", wavetable := "wt", specs := ⟨[.ofActual "X" 2], by decide⟩ }

/-- Values for all ports, of which the port overrides one and the equation set does not declare
one. -/
def sharedValues : Container Spec :=
  ⟨[.ofActual "t_per" 10, .ofActual "X" 1, .ofActual "other" 7], by decide⟩

/-- The port alone. -/
def onePort : Specification :=
  { Specification.ofName "one" with specs := sharedValues, portsets := ⟨[localPort], by decide⟩ }

/-- The port and a second one without values of its own. -/
def twoPorts : Specification :=
  { Specification.ofName "two" with
    specs := sharedValues
    portsets := ⟨[localPort, { PortSet.ofEqnSet 1 with port := "pB" }], by decide⟩ }

/-- A timing setup with both specifications. -/
def scaledTiming : Timing where
  eqnsets := ⟨[scaledEqnSet], by decide⟩
  specsets := ⟨[scaledSpecSet], by decide⟩
  specifications := ⟨[onePort, twoPorts], by decide⟩
  wavetables := .empty

theorem localPort_splits : localPort.Splits sharedValues scaledEqnSet scaledSpecSet where
  declared := by decide
  given n hn := by
    have hkeys : scaledEqnSet.specs.keys = ["X", "t_per"] := rfl
    have hcases : n = "X" ∨ n = "t_per" := by simpa [hkeys] using hn
    rcases hcases with rfl | rfl
    · exact ⟨2, by decide, Or.inl (by decide)⟩
    · exact ⟨10, by decide, Or.inr (by decide)⟩

theorem resolveSpecification_split_scaled :
    (∃ r, (scaledTiming.resolve compute 1 1 1).result = .ok r) ∧
      ∃ m, (scaledTiming.resolveSpecification compute "one" [1]).result = .ok m := by
  have hspecset : scaledTiming.specsets.get? ⟨1, 1⟩ = some scaledSpecSet := rfl
  have hsingle : ∃ r, (scaledTiming.resolve compute 1 1 1).result = .ok r :=
    exists_eq_ok_of_isOk (by decide +kernel)
  exact ⟨hsingle, (Timing.resolveSpecification_split (p := localPort) rfl hspecset rfl rfl
    localPort_splits).1.mpr hsingle⟩

/-! ### Ports on their own -/

/-- A specification with one port set in place of all. -/
def Specification.only (s : Specification) (p : PortSet) : Specification :=
  { s with portsets := ⟨[p], List.pairwise_singleton ..⟩ }

/-- A timing setup in which a specification has one port set in place of all. -/
def Timing.isolate (timing : Timing) (s : Specification) (p : PortSet) : Timing :=
  { timing with specifications := timing.specifications.replace (s.only p) }

/-- What a port with its timing set resolves to as the only port of a specification. -/
def Timing.resolveAlone (evaluate : Evaluator) (timing : Timing) (s : Specification)
    (q : PortSet × Nat) : Except ResolveError MultiportResolution :=
  ((timing.isolate s q.1).resolveSpecification evaluate s.name [q.2]).result

theorem Timing.resolveAlone_eq {q : PortSet × Nat} (hs : s.name ∈ timing.specifications.keys) :
    timing.resolveAlone evaluate s q =
      (q.1.resolve evaluate timing s.name s.specs q.2).result.map fun r ↦
        ⟨s.name, OrderedMap.empty.insert q.1.port r⟩ := by
  have hget : (timing.isolate s q.1).specifications.get? s.name = some (s.only q.1) :=
    Container.get?_replace_self (a := s.only q.1) hs
  have hport : q.1.resolve evaluate (timing.isolate s q.1) s.name s.specs q.2 =
      q.1.resolve evaluate timing s.name s.specs q.2 :=
    PortSet.resolve_congr rfl (fun _ _ _ _ ↦ rfl) q.2
  unfold resolveAlone
  rw [result_resolveSpecification_single hget rfl, ← hport]
  rfl

/-- Other port sets, values that the port set overrides and values that its equation set does not
declare have no influence on what a port resolves to on its own. -/
theorem Timing.resolveAlone_congr {s' : Specification} {q : PortSet × Nat}
    (hs : s.name ∈ timing.specifications.keys) (hname : s'.name = s.name)
    (h : ∀ e, timing.eqnsets.get? q.1.eqnset = some e → ∀ n ∈ e.specs.keys,
      actuals q.1.specs n = none → actuals s'.specs n = actuals s.specs n) :
    timing.resolveAlone evaluate s' q = timing.resolveAlone evaluate s q := by
  have hgiven : ∀ e, timing.eqnsets.get? q.1.eqnset = some e →
      ∀ n ∈ e.specs.keys, q.1.given s'.specs n = q.1.given s.specs n := by
    intro e he n hn
    unfold PortSet.given
    cases hlocal : actuals q.1.specs n with
    | some value => rfl
    | none => rw [h e he n hn hlocal]
  rw [resolveAlone_eq hs, resolveAlone_eq (hname ▸ hs), hname,
    PortSet.resolve_congr rfl hgiven]

theorem Timing.exists_resolveAlone_iff {q : PortSet × Nat}
    (hs : s.name ∈ timing.specifications.keys) :
    (∃ alone, timing.resolveAlone evaluate s q = .ok alone) ↔
      ∃ r, (q.1.resolve evaluate timing s.name s.specs q.2).result = .ok r := by
  simp [resolveAlone_eq hs, except_map_eq_ok_iff]

/-- An entry of a resolved specification is the only entry of the port on its own. -/
theorem Timing.resolveAlone_entry_iff {q : PortSet × Nat} {entry : String × PortResolution}
    (hs : s.name ∈ timing.specifications.keys) :
    (entry.1 = q.1.port ∧ ∃ alone, timing.resolveAlone evaluate s q = .ok alone ∧
        alone.ports.entries = [entry]) ↔
      entry.1 = q.1.port ∧
        (q.1.resolve evaluate timing s.name s.specs q.2).result = .ok entry.2 := by
  simp only [resolveAlone_eq hs, except_map_eq_ok_iff]
  constructor
  · rintro ⟨hport, _, ⟨r, hr, rfl⟩, hsingle⟩
    obtain rfl : (q.1.port, r) = entry := List.singleton_inj.mp hsingle
    exact ⟨hport, hr⟩
  · rintro ⟨hport, hr⟩
    refine ⟨hport, _, ⟨entry.2, hr, rfl⟩, ?_⟩
    rw [← hport]
    rfl

theorem Timing.resolveSpecification_eq_error_iff_alone {error : ResolveError}
    (hs : timing.specifications.get? s.name = some s)
    (hgiven : given.length = 1 ∨ given.length = s.portsets.size) :
    (timing.resolveSpecification evaluate s.name given).result = .error error ↔
      ∃ before q after, s.portsWith given = before ++ q :: after ∧
        (∀ b ∈ before, ∃ alone, timing.resolveAlone evaluate s b = .ok alone) ∧
        timing.resolveAlone evaluate s q = .error error := by
  have hmem : s.name ∈ timing.specifications.keys :=
    List.mem_map_of_mem (Container.mem_of_get? hs)
  simp only [result_resolveSpecification_eq_error_iff hs hgiven, exists_resolveAlone_iff hmem]
  simp only [resolveAlone_eq hmem, except_map_eq_error_iff]

theorem Timing.exists_resolveSpecification_iff_alone
    (hs : timing.specifications.get? s.name = some s)
    (hgiven : given.length = 1 ∨ given.length = s.portsets.size) :
    (∃ m, (timing.resolveSpecification evaluate s.name given).result = .ok m) ↔
      ∀ q ∈ s.portsWith given, ∃ alone, timing.resolveAlone evaluate s q = .ok alone := by
  have hmem : s.name ∈ timing.specifications.keys :=
    List.mem_map_of_mem (Container.mem_of_get? hs)
  constructor
  · rintro ⟨m, hm⟩
    obtain ⟨-, hall⟩ := (result_resolveSpecification_eq_ok_iff hs hgiven).mp hm
    have hone := hall.imp fun q entry h ↦
      And.intro ((exists_resolveAlone_iff hmem).mpr ⟨entry.2, h.2⟩) h
    exact ((List.forall₂_and_left ..).mp hone).1
  · intro hall
    cases hrun : (timing.resolveSpecification evaluate s.name given).result with
    | ok m => exact ⟨m, rfl⟩
    | error error =>
      obtain ⟨before, q, after, hsplit, -, hfail⟩ :=
        (resolveSpecification_eq_error_iff_alone hs hgiven).mp hrun
      obtain ⟨alone, halone⟩ := hall q (by rw [hsplit]; simp)
      rw [halone] at hfail
      cases hfail

/-- Ports do not influence each other. When a timing set is given for all ports or one for each, a
specification resolves exactly when each of its ports resolves on its own with its timing set. It
then lists the ports in order with what they resolve to on their own, and else it fails as the
first port does that fails on its own. What a port resolves to on its own is a matter of its port
set, its timing set and the values for all ports under names that its equation set declares and its
port set does not value. -/
theorem Timing.resolveSpecification_portwise (hs : timing.specifications.get? name = some s)
    (hgiven : given.length = 1 ∨ given.length = s.portsets.size) :
    (s.portsWith given).map Prod.fst = s.portsets.items ∧
    ((∃ m, (timing.resolveSpecification evaluate name given).result = .ok m) ↔
      ∀ q ∈ s.portsWith given, ∃ alone, timing.resolveAlone evaluate s q = .ok alone) ∧
    (∀ m, (timing.resolveSpecification evaluate name given).result = .ok m ↔
      m.specification = name ∧
        List.Forall₂ (fun (q : PortSet × Nat) entry ↦ entry.1 = q.1.port ∧
          ∃ alone, timing.resolveAlone evaluate s q = .ok alone ∧ alone.ports.entries = [entry])
          (s.portsWith given) m.ports.entries) ∧
    (∀ error, (timing.resolveSpecification evaluate name given).result = .error error ↔
      ∃ before q after, s.portsWith given = before ++ q :: after ∧
        (∀ b ∈ before, ∃ alone, timing.resolveAlone evaluate s b = .ok alone) ∧
        timing.resolveAlone evaluate s q = .error error) ∧
    ∀ (q : PortSet × Nat) (s' : Specification), s'.name = s.name →
      (∀ e, timing.eqnsets.get? q.1.eqnset = some e → ∀ n ∈ e.specs.keys,
        actuals q.1.specs n = none → actuals s'.specs n = actuals s.specs n) →
      timing.resolveAlone evaluate s' q = timing.resolveAlone evaluate s q := by
  obtain rfl : s.name = name := Container.key_of_get? hs
  have hmem : s.name ∈ timing.specifications.keys :=
    List.mem_map_of_mem (Container.mem_of_get? hs)
  refine ⟨Specification.map_fst_portsWith hgiven, exists_resolveSpecification_iff_alone hs hgiven,
    fun m ↦ ?_, fun error ↦ resolveSpecification_eq_error_iff_alone hs hgiven,
    fun q s' hname h ↦ resolveAlone_congr hmem hname h⟩
  simp only [result_resolveSpecification_eq_ok_iff hs hgiven, resolveAlone_entry_iff hmem]

theorem resolveSpecification_portwise_scaled :
    (∃ m, (scaledTiming.resolveSpecification compute "two" [2, 1]).result = .ok m) ∧
      ∀ q ∈ twoPorts.portsWith [2, 1],
        ∃ alone, scaledTiming.resolveAlone compute twoPorts q = .ok alone := by
  have hs : scaledTiming.specifications.get? "two" = some twoPorts := rfl
  have hrun : ∃ m, (scaledTiming.resolveSpecification compute "two" [2, 1]).result = .ok m :=
    exists_eq_ok_of_isOk (by decide +kernel)
  exact ⟨hrun, (Timing.resolveSpecification_portwise hs (Or.inr rfl)).2.1.mp hrun⟩

end Specifications

end TesterSetup
