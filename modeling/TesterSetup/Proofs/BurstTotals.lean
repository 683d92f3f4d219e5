import TesterSetup.Proofs.BurstPrograms
import TesterSetup.Proofs.ExactCounts
import TesterSetup.Proofs.SharedLabels

/-!
# Exact totals of bursts

What costing a burst comes to when the cost of a label is found in any way, with effects or without:
the function that is asked goes from state to state and may fail. `BurstLabel.askAll` asks it for
every call, port by port and call by call, and adds up nothing. Costing the burst succeeds exactly
when asking does and the exact total of every port fits its counters; it then leaves the same state
and gives these totals (`BurstLabel.runFrom_portCosts_eq_ok_iff`). When it fails, it has asked for the
first few calls only, in the same order (`exists_stopsAfter_of_costPorts`).
-/

set_option autoImplicit false

namespace TesterSetup

/-! ### What calls come to -/

namespace PortCost

/-- What the call of a label of this cost comes to. -/
def ofCost (c : Cost) : PortCost :=
  ⟨c.vectors, c.cycles, 1⟩

/-- What calls of labels of these costs come to. -/
def ofCosts (costs : List Cost) : PortCost :=
  ⟨(costs.map Cost.vectors).sum, (costs.map Cost.cycles).sum, costs.length⟩

theorem plus_ofCosts_cons (total : PortCost) (c : Cost) (rest : List Cost) :
    total.plus (ofCosts (c :: rest)) = (total.plus (ofCost c)).plus (ofCosts rest) := by
  simp only [plus, ofCosts, ofCost, List.map_cons, List.sum_cons, List.length_cons, Nat.add_assoc,
    Nat.add_comm 1]

instance (c : PortCost) : Decidable c.Fits :=
  inferInstanceAs (Decidable (_ ∧ _ ∧ _))

theorem fits_zero : zero.Fits := by decide

end PortCost

/-- The labels that a port calls up to its first `BEND`. -/
def BurstPort.calls (port : BurstPort) : List String :=
  (upToBend port.program.commands.values).filterMap Instruction.callTarget

section Totals

variable {σ α β : Type} {f : String → ExceptT LabelError (StateM σ) Cost} {burst : String}
  {s t u : σ} {e : LabelError}

/-- Asks for the costs of the calls of a burst, port by port and call by call. -/
def BurstLabel.askAll (b : BurstLabel) (f : String → ExceptT LabelError (StateM σ) Cost) :
    ExceptT LabelError (StateM σ) (List (List Cost)) :=
  b.ports.items.mapM fun port ↦ port.calls.mapM f

/-! ### Runs of sequences -/

theorem runFrom_bind_eq_ok_iff {x : ExceptT LabelError (StateM σ) α}
    {g : α → ExceptT LabelError (StateM σ) β} {b : β} :
    runFrom (x >>= g) s = (.ok b, t) ↔
      ∃ a u, runFrom x s = (.ok a, u) ∧ runFrom (g a) u = (.ok b, t) := by
  rw [runFrom_bind]
  rcases runFrom x s with ⟨e | a, u⟩
  · exact ⟨fun h ↦ (nomatch h), fun ⟨_, _, h, _⟩ ↦ (nomatch h)⟩
  · refine ⟨fun h ↦ ⟨a, u, rfl, h⟩, ?_⟩
    rintro ⟨a', u', h, hg⟩
    cases h
    exact hg

theorem runFrom_bind_eq_error_iff {x : ExceptT LabelError (StateM σ) α}
    {g : α → ExceptT LabelError (StateM σ) β} :
    runFrom (x >>= g) s = (.error e, t) ↔
      runFrom x s = (.error e, t) ∨
        ∃ a u, runFrom x s = (.ok a, u) ∧ runFrom (g a) u = (.error e, t) := by
  rw [runFrom_bind]
  rcases runFrom x s with ⟨e' | a, u⟩
  · refine ⟨fun h ↦ ?_, ?_⟩
    · cases h
      exact .inl rfl
    · rintro (h | ⟨_, _, h, _⟩)
      · cases h
        rfl
      · cases h
  · refine ⟨fun h ↦ .inr ⟨a, u, rfl, h⟩, ?_⟩
    rintro (h | ⟨a', u', h, hg⟩)
    · cases h
    · cases h
      exact hg

theorem runFrom_pure_eq_iff {a b : α} : runFrom (pure a) s = (.ok b, t) ↔ b = a ∧ t = s := by
  change ((Except.ok a, s) : Except LabelError α × σ) = (.ok b, t) ↔ _
  rw [Prod.mk.injEq, Except.ok.injEq]
  exact and_congr eq_comm eq_comm

section Sequences

variable {ι : Type} {g : ι → ExceptT LabelError (StateM σ) α}

theorem runFrom_mapM_nil_eq_iff {answers : List α} :
    runFrom (([] : List ι).mapM g) s = (.ok answers, t) ↔ answers = [] ∧ t = s := by
  rw [List.mapM_nil, runFrom_pure_eq_iff]

theorem runFrom_mapM_cons_eq_ok_iff {x : ι} {rest : List ι} {answers : List α} :
    runFrom ((x :: rest).mapM g) s = (.ok answers, t) ↔
      ∃ a u others, runFrom (g x) s = (.ok a, u) ∧ runFrom (rest.mapM g) u = (.ok others, t) ∧
        answers = a :: others := by
  rw [List.mapM_cons, runFrom_bind_eq_ok_iff]
  refine exists_congr fun a ↦ exists_congr fun u ↦ ?_
  rw [runFrom_bind_eq_ok_iff]
  constructor
  · rintro ⟨ha, others, v, hothers, hpure⟩
    obtain ⟨rfl, rfl⟩ := runFrom_pure_eq_iff.mp hpure
    exact ⟨others, ha, hothers, rfl⟩
  · rintro ⟨others, ha, hothers, rfl⟩
    exact ⟨ha, others, t, hothers, runFrom_pure_eq_iff.mpr ⟨rfl, rfl⟩⟩

theorem runFrom_mapM_cons_eq_error_iff {x : ι} {rest : List ι} :
    runFrom ((x :: rest).mapM g) s = (.error e, t) ↔
      runFrom (g x) s = (.error e, t) ∨
        ∃ a u, runFrom (g x) s = (.ok a, u) ∧ runFrom (rest.mapM g) u = (.error e, t) := by
  rw [List.mapM_cons, runFrom_bind_eq_error_iff]
  refine or_congr_right (exists_congr fun a ↦ exists_congr fun u ↦ and_congr_right fun _ ↦ ?_)
  rw [runFrom_bind_eq_error_iff]
  exact or_iff_left fun ⟨_, _, _, hpure⟩ ↦ nomatch hpure

end Sequences

/-! ### One port -/

section Port

variable {total sum : PortCost} {target : String} {rest targets asked : List String}

/-- A call is added to a total if that still fits. -/
theorem sumCalls_cons :
    sumCalls burst f total (target :: rest) = f target >>= fun c ↦
      if (total.plus (.ofCost c)).Fits then sumCalls burst f (total.plus (.ofCost c)) rest
      else throw (.countOverflow burst) := by
  rw [sumCalls]
  refine congrArg _ (funext fun c ↦ ?_)
  split_ifs with hfits
  · rw [PortCost.addLabel_of_fits burst hfits]
    rfl
  · have hover := PortCost.addLabel_of_not_fits burst hfits
    rcases hadd : total.addLabel burst c with ⟨partly, e⟩
    rw [hadd] at hover
    obtain rfl : e = some (.countOverflow burst) := hover
    rfl

theorem runFrom_sumCalls_cons_eq_ok_iff :
    runFrom (sumCalls burst f total (target :: rest)) s = (.ok sum, t) ↔
      ∃ c u, runFrom (f target) s = (.ok c, u) ∧ (total.plus (.ofCost c)).Fits ∧
        runFrom (sumCalls burst f (total.plus (.ofCost c)) rest) u = (.ok sum, t) := by
  rw [sumCalls_cons, runFrom_bind_eq_ok_iff]
  refine exists_congr fun c ↦ exists_congr fun u ↦ and_congr_right fun _ ↦ ?_
  split_ifs with hfits
  · exact (and_iff_right hfits).symm
  · exact ⟨fun h ↦ (nomatch h), fun h ↦ absurd h.1 hfits⟩

theorem runFrom_sumCalls_cons_eq_error
    (h : runFrom (sumCalls burst f total (target :: rest)) s = (.error e, t)) :
    runFrom (f target) s = (.error e, t) ∨
      ∃ c u, runFrom (f target) s = (.ok c, u) ∧
        (e = .countOverflow burst ∧ t = u ∨
          runFrom (sumCalls burst f (total.plus (.ofCost c)) rest) u = (.error e, t)) := by
  rw [sumCalls_cons, runFrom_bind_eq_error_iff] at h
  refine h.imp_right fun ⟨c, u, hc, h⟩ ↦ ⟨c, u, hc, ?_⟩
  split_ifs at h with hfits
  · exact .inr h
  · cases h
    exact .inl ⟨rfl, rfl⟩

/-- Calls are added up exactly when all of them are answered and their total fits. -/
theorem runFrom_sumCalls_eq_ok_iff (h : total.Fits) :
    runFrom (sumCalls burst f total targets) s = (.ok sum, t) ↔
      ∃ costs, runFrom (targets.mapM f) s = (.ok costs, t) ∧ sum = total.plus (.ofCosts costs) ∧
        sum.Fits := by
  induction targets generalizing total s with
  | nil =>
    rw [sumCalls, runFrom_pure_eq_iff]
    constructor
    · rintro ⟨rfl, rfl⟩
      exact ⟨[], runFrom_mapM_nil_eq_iff.mpr ⟨rfl, rfl⟩, rfl, h⟩
    · rintro ⟨costs, hcosts, rfl, -⟩
      obtain ⟨rfl, rfl⟩ := runFrom_mapM_nil_eq_iff.mp hcosts
      exact ⟨rfl, rfl⟩
  | cons target rest ih =>
    rw [runFrom_sumCalls_cons_eq_ok_iff]
    constructor
    · rintro ⟨c, u, hc, hfits, hrest⟩
      obtain ⟨costs, hcosts, hsum⟩ := (ih hfits).mp hrest
      rw [← PortCost.plus_ofCosts_cons] at hsum
      exact ⟨c :: costs, runFrom_mapM_cons_eq_ok_iff.mpr ⟨c, u, costs, hc, hcosts, rfl⟩, hsum⟩
    · rintro ⟨all, hall, hsum, hfits⟩
      obtain ⟨c, u, costs, hc, hcosts, rfl⟩ := runFrom_mapM_cons_eq_ok_iff.mp hall
      rw [PortCost.plus_ofCosts_cons] at hsum
      have hnext : (total.plus (.ofCost c)).Fits := PortCost.fits_of_plus (hsum ▸ hfits)
      exact ⟨c, u, hc, hnext, (ih hnext).mpr ⟨costs, hcosts, hsum, hfits⟩⟩

/-- After asking `f` for the costs of some labels a computation ends with an error: with that of
the label that was asked for last or, when all were answered, with an overflow. -/
def StopsAfter (f : String → ExceptT LabelError (StateM σ) Cost) (burst : String) (s : σ)
    (asked : List String) (e : LabelError) (t : σ) : Prop :=
  runFrom (asked.mapM f) s = (.error e, t) ∨
    e = .countOverflow burst ∧ ∃ costs, runFrom (asked.mapM f) s = (.ok costs, t)

theorem StopsAfter.cons {c : Cost} (hc : runFrom (f target) s = (.ok c, u))
    (h : StopsAfter f burst u asked e t) : StopsAfter f burst s (target :: asked) e t := by
  rcases h with h | ⟨rfl, costs, h⟩
  · exact .inl (runFrom_mapM_cons_eq_error_iff.mpr (.inr ⟨c, u, hc, h⟩))
  · exact .inr ⟨rfl, c :: costs, runFrom_mapM_cons_eq_ok_iff.mpr ⟨c, u, costs, hc, h, rfl⟩⟩

theorem StopsAfter.append {costs : List Cost} (hcosts : runFrom (targets.mapM f) s = (.ok costs, u))
    (h : StopsAfter f burst u asked e t) : StopsAfter f burst s (targets ++ asked) e t := by
  induction targets generalizing s costs with
  | nil =>
    obtain ⟨-, rfl⟩ := runFrom_mapM_nil_eq_iff.mp hcosts
    exact h
  | cons target rest ih =>
    obtain ⟨c, v, others, hc, hothers, -⟩ := runFrom_mapM_cons_eq_ok_iff.mp hcosts
    exact .cons hc (ih hothers)

/-- When the calls of a port are not added up, only the first few were asked for. -/
theorem exists_stopsAfter_of_sumCalls
    (h : runFrom (sumCalls burst f total targets) s = (.error e, t)) :
    ∃ asked, asked <+: targets ∧ StopsAfter f burst s asked e t := by
  induction targets generalizing total s with
  | nil => cases h
  | cons target rest ih =>
    rcases runFrom_sumCalls_cons_eq_error h with hfirst | ⟨c, u, hc, ⟨rfl, rfl⟩ | hrest⟩
    · exact ⟨[target], List.prefix_append [target] rest,
        .inl (runFrom_mapM_cons_eq_error_iff.mpr (.inl hfirst))⟩
    · refine ⟨[target], List.prefix_append [target] rest, .cons hc (.inr ⟨rfl, [], ?_⟩)⟩
      exact runFrom_mapM_nil_eq_iff.mpr ⟨rfl, rfl⟩
    · obtain ⟨asked, hasked, hstops⟩ := ih hrest
      exact ⟨target :: asked, List.cons_prefix_cons.mpr ⟨rfl, hasked⟩, hstops.cons hc⟩

end Port

/-! ### All ports -/

section Ports

variable {port : BurstPort} {ports : List BurstPort} {table all : OrderedMap String PortCost}

/-- The entries of ports with what their calls come to. -/
def portTotals (ports : List BurstPort) (costs : List (List Cost)) : List (String × PortCost) :=
  (ports.map BurstPort.name).zip (costs.map PortCost.ofCosts)

theorem runFrom_costPorts_eq_ok_iff :
    runFrom (costPorts burst f table ports) s = (.ok all, t) ↔
      ∃ costs, runFrom (ports.mapM fun port ↦ port.calls.mapM f) s = (.ok costs, t) ∧
        (∀ answers ∈ costs, (PortCost.ofCosts answers).Fits) ∧
        all = table.insertAll (portTotals ports costs) := by
  induction ports generalizing table s with
  | nil =>
    rw [costPorts, runFrom_pure_eq_iff]
    constructor
    · rintro ⟨rfl, rfl⟩
      exact ⟨[], runFrom_mapM_nil_eq_iff.mpr ⟨rfl, rfl⟩, List.forall_mem_nil _, rfl⟩
    · rintro ⟨costs, hcosts, -, rfl⟩
      obtain ⟨rfl, rfl⟩ := runFrom_mapM_nil_eq_iff.mp hcosts
      exact ⟨rfl, rfl⟩
  | cons port rest ih =>
    rw [costPorts, runFrom_bind_eq_ok_iff]
    constructor
    · rintro ⟨sum, u, hsum, hrest⟩
      rw [callTargets_eq] at hsum
      obtain ⟨answers, hanswers, rfl, hfits⟩ :=
        (runFrom_sumCalls_eq_ok_iff PortCost.fits_zero).mp hsum
      rw [PortCost.zero_plus] at hrest hfits
      obtain ⟨costs, hcosts, hall, rfl⟩ := ih.mp hrest
      exact ⟨answers :: costs,
        runFrom_mapM_cons_eq_ok_iff.mpr ⟨answers, u, costs, hanswers, hcosts, rfl⟩,
        List.forall_mem_cons.mpr ⟨hfits, hall⟩, rfl⟩
    · rintro ⟨costs, hcosts, hall, rfl⟩
      obtain ⟨answers, u, others, hanswers, hothers, rfl⟩ := runFrom_mapM_cons_eq_ok_iff.mp hcosts
      obtain ⟨hfits, hothersFit⟩ := List.forall_mem_cons.mp hall
      refine ⟨.ofCosts answers, u, ?_, ih.mpr ⟨others, hothers, hothersFit, rfl⟩⟩
      rw [callTargets_eq]
      exact (runFrom_sumCalls_eq_ok_iff PortCost.fits_zero).mpr
        ⟨answers, hanswers, (PortCost.zero_plus _).symm, hfits⟩

/-- When the ports are not all costed, only the first few of their calls were asked for. -/
theorem exists_stopsAfter_of_costPorts
    (h : runFrom (costPorts burst f table ports) s = (.error e, t)) :
    ∃ asked, asked <+: ports.flatMap BurstPort.calls ∧ StopsAfter f burst s asked e t := by
  induction ports generalizing table s with
  | nil => cases h
  | cons port rest ih =>
    rw [costPorts, runFrom_bind_eq_error_iff, callTargets_eq] at h
    rw [List.flatMap_cons]
    rcases h with hport | ⟨sum, u, hsum, hrest⟩
    · obtain ⟨asked, hasked, hstops⟩ := exists_stopsAfter_of_sumCalls hport
      exact ⟨asked, hasked.trans (List.prefix_append _ _), hstops⟩
    · obtain ⟨answers, hanswers, -, -⟩ := (runFrom_sumCalls_eq_ok_iff PortCost.fits_zero).mp hsum
      obtain ⟨asked, hasked, hstops⟩ := ih hrest
      exact ⟨port.calls ++ asked, (List.prefix_append_right_inj _).mpr hasked,
        hstops.append hanswers⟩

theorem keys_portTotals {costs : List (List Cost)} (h : costs.length = ports.length) :
    (portTotals ports costs).map Prod.fst = ports.map BurstPort.name := by
  refine List.map_fst_zip ?_
  rw [List.length_map, List.length_map, h]

end Ports

theorem length_of_runFrom_mapM {ι : Type} {g : ι → ExceptT LabelError (StateM σ) α} {xs : List ι}
    {answers : List α} (h : runFrom (xs.mapM g) s = (.ok answers, t)) :
    answers.length = xs.length := by
  induction xs generalizing s answers with
  | nil =>
    obtain ⟨rfl, -⟩ := runFrom_mapM_nil_eq_iff.mp h
    rfl
  | cons x rest ih =>
    obtain ⟨a, u, others, -, hothers, rfl⟩ := runFrom_mapM_cons_eq_ok_iff.mp h
    rw [List.length_cons, List.length_cons, ih hothers]

/-! ### Bursts -/

variable {b : BurstLabel} {table : OrderedMap String PortCost}

/-- A burst is costed exactly when all calls are answered and the total of each port fits. -/
theorem BurstLabel.runFrom_portCosts_eq_ok_iff :
    runFrom (b.portCosts f) s = (.ok table, t) ↔
      ∃ costs, runFrom (b.askAll f) s = (.ok costs, t) ∧
        (∀ answers ∈ costs, (PortCost.ofCosts answers).Fits) ∧
        table.entries = portTotals b.ports.items costs := by
  refine runFrom_costPorts_eq_ok_iff.trans (exists_congr fun costs ↦ ?_)
  refine and_congr_right fun hcosts ↦ and_congr_right fun _ ↦ ?_
  have hkeys : ((OrderedMap.empty : OrderedMap String PortCost).keys ++
      (portTotals b.ports.items costs).map Prod.fst).Nodup := by
    rw [keys_portTotals (length_of_runFrom_mapM hcosts)]
    exact b.ports.nodup
  have hentries := OrderedMap.entries_insertAll hkeys
  exact ⟨fun h ↦ h ▸ hentries, fun h ↦ OrderedMap.ext (h.trans hentries.symm)⟩

/-- Costing a burst fails exactly when a call is not answered or the total of a port does not
fit. -/
theorem BurstLabel.runFrom_portCosts_eq_error_iff :
    (∃ e t, runFrom (b.portCosts f) s = (.error e, t)) ↔
      (∃ e t, runFrom (b.askAll f) s = (.error e, t)) ∨
        ∃ costs t, runFrom (b.askAll f) s = (.ok costs, t) ∧
          ∃ answers ∈ costs, ¬(PortCost.ofCosts answers).Fits := by
  constructor
  · rintro ⟨e, t, herror⟩
    rcases hask : runFrom (b.askAll f) s with ⟨e' | costs, u⟩
    · exact .inl ⟨e', u, rfl⟩
    · refine .inr ⟨costs, u, rfl, ?_⟩
      by_contra hnot
      have hall : ∀ answers ∈ costs, (PortCost.ofCosts answers).Fits := by
        intro answers hanswers
        by_contra hover
        exact hnot ⟨answers, hanswers, hover⟩
      cases herror.symm.trans (runFrom_costPorts_eq_ok_iff.mpr ⟨costs, hask, hall, rfl⟩)
  · intro h
    rcases hcost : runFrom (b.portCosts f) s with ⟨e | table, t⟩
    · exact ⟨e, t, rfl⟩
    · obtain ⟨costs, hask, hall, -⟩ := runFrom_portCosts_eq_ok_iff.mp hcost
      rcases h with ⟨e, u, herror⟩ | ⟨costs', u, hask', answers, hanswers, hover⟩
      · cases hask.symm.trans herror
      · cases hask.symm.trans hask'
        exact absurd (hall answers hanswers) hover

end Totals

/-! ### Exact counts -/

/-- Counters are exact. A MAIN label is costed exactly when what stands before its first `STOP` has
numbers for operands and the sums of what it emits fit the counters, and then costs these sums; an
overflow is reported exactly when the instructions up to some point emit more than fits.

A burst is costed exactly when all its calls are answered and the totals of each port fit. The
answers are asked for port by port and call by call, and a port gets their sums and their number.
Costing fails when a call is not answered or the total of a port does not fit, and in no other
case; it has then asked for the first few calls only. -/
theorem counts_exact :
    (∀ (label : String) (instructions : List Instruction),
      (∀ c, interpretMain label instructions = .ok c ↔
        ∃ costs, List.Forall₂ Instruction.Emits (beforeStop instructions) costs ∧
          c = .total costs ∧ c.Fits) ∧
      ∀ name, interpretMain label instructions = .error (.countOverflow name) ↔
        name = label ∧ ∃ read costs, read <+: beforeStop instructions ∧
          List.Forall₂ Instruction.Emits read costs ∧ ¬(Cost.total costs).Fits) ∧
    ∀ (b : BurstLabel) (σ : Type) (f : String → ExceptT LabelError (StateM σ) Cost) (s : σ),
      (∀ table t, runFrom (b.portCosts f) s = (.ok table, t) ↔
        ∃ costs, runFrom (b.askAll f) s = (.ok costs, t) ∧
          (∀ answers ∈ costs, (PortCost.ofCosts answers).Fits) ∧
          table.entries = portTotals b.ports.items costs) ∧
      ((∃ e t, runFrom (b.portCosts f) s = (.error e, t)) ↔
        (∃ e t, runFrom (b.askAll f) s = (.error e, t)) ∨
          ∃ costs t, runFrom (b.askAll f) s = (.ok costs, t) ∧
            ∃ answers ∈ costs, ¬(PortCost.ofCosts answers).Fits) ∧
      ∀ e t, runFrom (b.portCosts f) s = (.error e, t) →
        ∃ asked, asked <+: b.ports.items.flatMap BurstPort.calls ∧
          StopsAfter f b.name s asked e t :=
  ⟨fun _ _ ↦ ⟨fun _ ↦ interpretMain_eq_ok_iff, fun _ ↦ interpretMain_eq_countOverflow_iff⟩,
    fun _ _ _ _ ↦ ⟨fun _ _ ↦ BurstLabel.runFrom_portCosts_eq_ok_iff,
      BurstLabel.runFrom_portCosts_eq_error_iff, fun _ _ ↦ exists_stopsAfter_of_costPorts⟩⟩

theorem counts_exact_twoCalls :
    ∃ b table, (twoCalls 1).assemble = .ok (.burst b) ∧
      runFrom (b.portCosts (recorded (answering fiveOrSeven))) [] = (.ok table, ["one", "two"]) ∧
      table.entries = [("P1", ⟨12, 12, 2⟩)] := by
  obtain ⟨b, h, hask, hitems⟩ : ∃ b, (twoCalls 1).assemble = .ok (.burst b) ∧
      runFrom (b.askAll (recorded (answering fiveOrSeven))) [] =
        (.ok [[⟨5, 5⟩, ⟨7, 7⟩]], ["one", "two"]) ∧
      b.ports.items.map BurstPort.name = ["P1"] := ⟨_, rfl, rfl, rfl⟩
  obtain ⟨-, hburst⟩ := counts_exact
  obtain ⟨hok, -, -⟩ := hburst b (List String) (recorded (answering fiveOrSeven)) []
  have hfits : (PortCost.ofCosts [⟨5, 5⟩, ⟨7, 7⟩]).Fits := by decide
  have htotals : portTotals b.ports.items [[⟨5, 5⟩, ⟨7, 7⟩]] = [("P1", ⟨12, 12, 2⟩)] := by
    rw [portTotals, hitems]
    rfl
  refine ⟨b, ⟨portTotals b.ports.items [[⟨5, 5⟩, ⟨7, 7⟩]], ?_⟩, h, (hok _ _).mpr ⟨_, hask, ?_, rfl⟩,
    htotals⟩
  · rw [htotals]
    exact List.nodup_singleton "P1"
  · exact List.forall_mem_singleton.mpr hfits

end TesterSetup
