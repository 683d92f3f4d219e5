import Mathlib
import TesterSetup.Proofs.LookupLaws
import TesterSetup.Sequencer.Burst

/-!
# Costs of the ports of a burst

Costing a burst adds up the costs of the labels that its ports call. This module says what the sums
are, for any way of finding the cost of a label that has no effects: one term for each call
(`sumCalls_eq_pure`), and for each port of the burst its own sum (`portCosts_eq_pure`). A way of
finding costs that has effects goes from state to state; `runFrom` is what a computation with it
answers and leaves, and `runFrom_bind` how it goes on.
-/

set_option autoImplicit false

namespace TesterSetup

/-! ### Computations with a state -/

section Stateful

variable {σ α β : Type}

/-- The answer of a computation that starts in a state, and the state that it leaves. -/
def runFrom (x : ExceptT LabelError (StateM σ) α) (s : σ) : Except LabelError α × σ :=
  Id.run (x.run.run s)

theorem runFrom_bind (x : ExceptT LabelError (StateM σ) α)
    (f : α → ExceptT LabelError (StateM σ) β) (s : σ) :
    runFrom (x >>= f) s =
      match runFrom x s with
      | (.ok a, t) => runFrom (f a) t
      | (.error e, t) => (.error e, t) := by
  rcases h : x.run.run s with ⟨r, t⟩
  have hrun : runFrom x s = (r, t) := h
  rw [hrun]
  simp only [runFrom, ExceptT.run_bind, StateT.run_bind, h]
  cases r <;> rfl

end Stateful

/-! ### Ways of finding costs without effects -/

section Calls

variable {burst : String} {cost : String → ExceptT LabelError Id Cost}

theorem exceptT_bind_eq_pure_iff {α β : Type} {x : ExceptT LabelError Id α}
    {f : α → ExceptT LabelError Id β} {b : β} :
    x >>= f = pure b ↔ ∃ a, x = pure a ∧ f a = pure b := by
  constructor
  · intro h
    rcases hx : x.run with e | a
    · have hthrow : x = throw e := hx
      rw [hthrow] at h
      cases h
    · have hpure : x = pure a := hx
      rw [hpure] at h
      exact ⟨a, hpure, h⟩
  · rintro ⟨a, rfl, h⟩
    exact h

theorem fits?_eq_some {n m : Nat} (h : fits? n = some m) : m = n := by
  unfold fits? at h
  split at h
  · exact (Option.some.inj h).symm
  · cases h

theorem PortCost.eq_of_addLabel {total next : PortCost} {c : Cost}
    (h : total.addLabel burst c = (next, none)) :
    next = ⟨total.vectors + c.vectors, total.cycles + c.cycles, total.labels + 1⟩ := by
  unfold addLabel at h
  split at h
  · cases h
  · rename_i vectors hvectors
    split at h
    · cases h
    · rename_i cycles hcycles
      split at h
      · cases h
      · rename_i labels hlabels
        cases h
        rw [fits?_eq_some hvectors, fits?_eq_some hcycles, fits?_eq_some hlabels]

/-- Calls cost what the called labels cost together. -/
theorem sumCalls_eq_pure {total sum : PortCost} {targets : List String}
    (h : sumCalls burst cost total targets = pure sum) :
    ∃ costs, List.Forall₂ (fun target c ↦ cost target = pure c) targets costs ∧
      sum = ⟨total.vectors + (costs.map Cost.vectors).sum,
        total.cycles + (costs.map Cost.cycles).sum, total.labels + costs.length⟩ := by
  induction targets generalizing total with
  | nil =>
    cases h
    exact ⟨[], .nil, rfl⟩
  | cons target rest ih =>
    rw [sumCalls, exceptT_bind_eq_pure_iff] at h
    obtain ⟨c, hc, h⟩ := h
    rcases hadd : total.addLabel burst c with ⟨next, _ | e⟩
    · rw [hadd] at h
      obtain ⟨costs, hcosts, hsum⟩ := ih h
      refine ⟨c :: costs, .cons hc hcosts, ?_⟩
      rw [hsum, PortCost.eq_of_addLabel hadd]
      simp only [List.map_cons, List.sum_cons, List.length_cons, Nat.add_assoc, Nat.add_comm 1]
    · rw [hadd] at h
      cases h

/-- The ports of a burst are costed in order, each on its own. -/
theorem costPorts_eq_pure {costs all : OrderedMap String PortCost} {ports : List BurstPort}
    (hnodup : (costs.keys ++ ports.map BurstPort.name).Nodup)
    (h : costPorts burst cost costs ports = pure all) :
    ∃ entries, all.entries = costs.entries ++ entries ∧
      List.Forall₂ (fun port entry ↦ entry.1 = port.name ∧
        sumCalls burst cost .zero (callTargets port.program.commands.values) = pure entry.2)
        ports entries := by
  induction ports generalizing costs with
  | nil =>
    cases h
    exact ⟨[], (List.append_nil _).symm, .nil⟩
  | cons port rest ih =>
    rw [costPorts, exceptT_bind_eq_pure_iff] at h
    obtain ⟨c, hc, h⟩ := h
    obtain ⟨hport, hrest⟩ := OrderedMap.nodup_keys_insert_append hnodup c
    obtain ⟨entries, hentries, hall⟩ := ih hrest h
    refine ⟨(port.name, c) :: entries, ?_, .cons ⟨rfl, hc⟩ hall⟩
    rw [hentries, OrderedMap.entries_insert_of_notMem hport, List.append_assoc,
      List.singleton_append]

theorem BurstLabel.portCosts_eq_pure {b : BurstLabel} {costs : OrderedMap String PortCost}
    (h : b.portCosts cost = pure costs) :
    List.Forall₂ (fun port entry ↦ entry.1 = port.name ∧
      sumCalls b.name cost .zero (callTargets port.program.commands.values) = pure entry.2)
      b.ports.items costs.entries := by
  have hnodup : ((OrderedMap.empty : OrderedMap String PortCost).keys ++
      b.ports.items.map BurstPort.name).Nodup := b.ports.nodup
  obtain ⟨entries, hentries, hall⟩ := costPorts_eq_pure hnodup h
  rw [hentries]
  exact hall

end Calls

end TesterSetup
