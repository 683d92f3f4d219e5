import TesterSetup.Proofs.BurstCosts
import TesterSetup.Proofs.MainPrograms

/-!
# Programs of bursts

What a burst costs, in terms of the records of its file. A label record of a burst is about the
records of its port whose numbers are in its range, up to the first `BEND`
(`VectorFile.recordsOf`), and the port calls what the `CALL` records among them name
(`VectorFile.calledBy`). A program keeps one record for each number, so it need not count every
call. It never counts one twice: the labels that are counted are some of those that are called, and
all of them when the records have distinct numbers (`VectorFile.portCosts_of_assemble_burst`).

Here every label has a cost. Then costing a burst succeeds exactly when the totals of each port fit
the counters (`sumCalls_pure`), and nothing but these totals decides about it.
-/

set_option autoImplicit false

namespace TesterSetup

open scoped List

/-! ### The records of a port -/

/-- The instructions up to the first `BEND`, which is the last of them. -/
def upToBend : List Instruction → List Instruction
  | [] => []
  | i :: rest => if i.opcode = .bend then [i] else i :: upToBend rest

/-- The records that a label record of a burst is about: those of its port with numbers in its
range, up to the first `BEND`. -/
def VectorFile.recordsOf (f : VectorFile) (r : LabelRecord) : List Instruction :=
  upToBend (within r.start r.stop (f.instructions.filter fun i ↦ i.port == r.port))

/-- The labels that the port of a label record calls, one for each `CALL` record. -/
def VectorFile.calledBy (f : VectorFile) (r : LabelRecord) : List String :=
  (f.recordsOf r).filterMap Instruction.callTarget

section Bend

variable {i : Instruction} {taken instructions : List Instruction}

theorem upToBend_sublist (instructions : List Instruction) :
    upToBend instructions <+ instructions := by
  induction instructions with
  | nil => exact List.Sublist.slnil
  | cons i rest ih =>
    by_cases hbend : i.opcode = .bend
    · rw [upToBend, if_pos hbend]
      exact (List.nil_sublist rest).cons_cons i
    · rw [upToBend, if_neg hbend]
      exact ih.cons_cons i

theorem callTargets_eq (instructions : List Instruction) :
    callTargets instructions = (upToBend instructions).filterMap Instruction.callTarget := by
  induction instructions with
  | nil => rfl
  | cons i rest ih =>
    by_cases hbend : i.opcode = .bend
    · have hnone : i.callTarget = none := by rw [Instruction.callTarget, hbend]
      rw [callTargets, if_pos hbend, upToBend, if_pos hbend, List.filterMap_cons_none hnone]
      rfl
    · rw [callTargets, if_neg hbend, upToBend, if_neg hbend, ih, List.filterMap_cons]
      cases i.callTarget <;> rfl

/-- Instructions that end with the only `BEND` are those up to the first `BEND` of any list that
starts with them. -/
theorem EndsWith.upToBend_eq (h : EndsWith .bend taken) (hinitial : taken <+: instructions) :
    upToBend instructions = taken := by
  obtain ⟨body, last, rfl, hlast, hbody⟩ := h
  obtain ⟨rest, rfl⟩ := hinitial
  rw [List.append_assoc]
  induction body with
  | nil => exact if_pos hlast
  | cons i body ih =>
    have hi : i.opcode ≠ .bend := by
      intro heq
      have hfalse := hbody i List.mem_cons_self
      rw [heq] at hfalse
      exact absurd hfalse (by decide)
    rw [List.cons_append, upToBend, if_neg hi, ih fun j hj ↦ hbody j (List.mem_cons_of_mem i hj)]
    rfl

end Bend

/-! ### What a program keeps of its records -/

section Kept

variable {taken : List Instruction}

theorem nodup_values_ofList_numbered (taken : List Instruction) :
    (OrderedMap.ofList (numbered taken)).values.Nodup := by
  have hkeys := OrderedMap.keys_nodup (.ofList (numbered taken))
  rw [keys_ofList_numbered] at hkeys
  exact List.Nodup.of_map _ hkeys

theorem mem_of_mem_values_ofList_numbered {i : Instruction}
    (h : i ∈ (OrderedMap.ofList (numbered taken)).values) : i ∈ taken := by
  obtain ⟨e, he, rfl⟩ := List.mem_map.mp h
  rcases OrderedMap.mem_entries_insertAll he with hnil | hmem
  · exact absurd hnil List.not_mem_nil
  · obtain ⟨i, hi, rfl⟩ := List.mem_map.mp hmem
    exact hi

/-- A program keeps some of its records, none of them twice. -/
theorem values_ofList_numbered_subperm (taken : List Instruction) :
    (OrderedMap.ofList (numbered taken)).values <+~ taken :=
  List.subperm_of_subset (nodup_values_ofList_numbered taken)
    fun _ ↦ mem_of_mem_values_ofList_numbered

/-- The last record is kept, since none replaces it. -/
theorem last_mem_values_ofList_numbered (body : List Instruction) (last : Instruction) :
    last ∈ (OrderedMap.ofList (numbered (body ++ [last]))).values := by
  have hsplit : OrderedMap.ofList (numbered (body ++ [last])) =
      (OrderedMap.ofList (numbered body)).insert last.cmdNo last := by
    simp only [OrderedMap.ofList, OrderedMap.insertAll, numbered, List.map_append,
      List.foldl_append, List.map_cons, List.map_nil, List.foldl_cons, List.foldl_nil]
  have hget : (OrderedMap.ofList (numbered (body ++ [last]))).get? last.cmdNo = some last := by
    rw [hsplit, OrderedMap.get?_insert_self]
  exact List.mem_map_of_mem (OrderedMap.get?_eq_some_iff.mp hget)

end Kept

/-! ### Assembling ports -/

namespace VectorFile

variable {f : VectorFile} {r first : LabelRecord} {port : BurstPort} {b : BurstLabel}

/-- The program of a port is built from the records of the port, and all that it keeps are calls
and `BEND`. -/
theorem of_assemblePort (h : f.assemblePort r = .ok port) :
    port.name = r.port ∧
      Program.build r.name r.port (f.instructions.filter fun i ↦ i.port == r.port) r.start r.stop =
        .ok port.program ∧
      ∀ i ∈ port.program.commands.values, i.opcode = .call ∨ i.opcode = .bend := by
  unfold assemblePort at h
  split at h
  · cases h
  · obtain ⟨program, hprogram, h⟩ := except_bind_eq_ok_iff.mp h
    split at h
    · cases h
    · rename_i hnone
      cases h
      refine ⟨rfl, hprogram, fun i hi ↦ ?_⟩
      have hplain := List.find?_eq_none.mp hnone i hi
      by_contra hother
      rw [not_or] at hother
      exact hplain (by simp [hother.1, hother.2])

/-- The ports of a burst are added one for each record, in order. -/
theorem of_assemblePorts {records : List LabelRecord} {ports all : Container BurstPort}
    (h : f.assemblePorts first ports records = .ok all) :
    ∃ added, all.items = ports.items ++ added ∧
      List.Forall₂ (fun r port ↦ f.assemblePort r = .ok port) records added := by
  induction records generalizing ports with
  | nil =>
    cases h
    exact ⟨[], (List.append_nil _).symm, .nil⟩
  | cons r rest ih =>
    unfold assemblePorts at h
    split at h
    · cases h
    · obtain ⟨port, hport, h⟩ := except_bind_eq_ok_iff.mp h
      split at h
      · rename_i next hadd
        obtain ⟨added, hitems, hall⟩ := ih h
        refine ⟨port :: added, ?_, .cons hport hall⟩
        rw [hitems, Container.items_add hadd, List.append_assoc, List.singleton_append]
      · cases h

theorem of_assemble_burst (h : f.assemble = .ok (.burst b)) :
    List.Forall₂ (fun r port ↦ f.assemblePort r = .ok port) f.labels b.ports.items := by
  obtain ⟨first, -, ⟨l, -, heq⟩ | ⟨b', hb, heq⟩⟩ := of_assemble h
  · cases heq
  · cases heq
    obtain ⟨-, ports, hports, rfl⟩ := of_assembleBurst hb
    obtain ⟨added, hitems, hall⟩ := of_assemblePorts hports
    rw [hitems]
    exact hall

/-- The program of a port keeps the records that its label record is about, by number. -/
theorem commands_of_assemblePort (h : f.assemblePort r = .ok port) :
    port.program.commands = .ofList (numbered (f.recordsOf r)) ∧
      EndsWith .bend (f.recordsOf r) := by
  obtain ⟨-, hbuild, hplain⟩ := of_assemblePort h
  obtain ⟨taken, ⟨hinitial, op, hop, hends⟩, hcommands, -⟩ := Program.commands_of_build hbuild
  have hbend : op = .bend := by
    obtain ⟨body, last, rfl, rfl, -⟩ := hends
    have hlast := last_mem_values_ofList_numbered body last
    rw [← hcommands] at hlast
    rcases hplain last hlast with hcall | hbend
    · rw [hcall] at hop
      exact absurd hop (by decide)
    · exact hbend
  rw [hbend] at hends
  have hrecords : f.recordsOf r = taken := hends.upToBend_eq hinitial
  rw [hrecords]
  exact ⟨hcommands, hends⟩

/-- The calls that a port's program counts are some of those of its records; with distinct numbers
they are all of them, in order. -/
theorem callTargets_of_assemblePort (h : f.assemblePort r = .ok port) :
    callTargets port.program.commands.values <+~ f.calledBy r ∧
      (((f.recordsOf r).map Instruction.cmdNo).Nodup →
        callTargets port.program.commands.values = f.calledBy r) := by
  obtain ⟨hcommands, hends⟩ := commands_of_assemblePort h
  rw [callTargets_eq, hcommands]
  constructor
  · have hkept : upToBend (OrderedMap.ofList (numbered (f.recordsOf r))).values <+~ f.recordsOf r :=
      (upToBend_sublist _).subperm.trans (values_ofList_numbered_subperm _)
    obtain ⟨kept, hperm, hsublist⟩ := hkept
    exact ⟨kept.filterMap Instruction.callTarget, hperm.filterMap _, hsublist.filterMap _⟩
  · intro hdistinct
    rw [OrderedMap.values, entries_ofList_numbered hdistinct, map_snd_numbered,
      hends.upToBend_eq List.prefix_rfl]
    rfl

end VectorFile

/-! ### Costs of calls when every label has one -/

/-- A way of finding the cost of a label that always has an answer. -/
def answering (cost : String → Cost) (target : String) : ExceptT LabelError Id Cost :=
  pure (cost target)

namespace PortCost

/-- What called labels cost together. -/
def ofCalls (cost : String → Cost) (targets : List String) : PortCost :=
  ⟨(targets.map fun target ↦ (cost target).vectors).sum,
    (targets.map fun target ↦ (cost target).cycles).sum, targets.length⟩

/-- The sum of the costs of two lists of calls. -/
def plus (a b : PortCost) : PortCost :=
  ⟨a.vectors + b.vectors, a.cycles + b.cycles, a.labels + b.labels⟩

/-- Every counter is in range. -/
def Fits (c : PortCost) : Prop :=
  c.vectors < counterBound ∧ c.cycles < counterBound ∧ c.labels < counterBound

variable {total : PortCost} {c : Cost}

theorem fits_of_plus {a b : PortCost} (h : (a.plus b).Fits) : a.Fits := by
  obtain ⟨hvectors, hcycles, hlabels⟩ := h
  exact ⟨Nat.lt_of_le_of_lt (Nat.le_add_right _ _) hvectors,
    Nat.lt_of_le_of_lt (Nat.le_add_right _ _) hcycles,
    Nat.lt_of_le_of_lt (Nat.le_add_right _ _) hlabels⟩

theorem zero_plus (a : PortCost) : zero.plus a = a := by
  simp only [plus, zero, Nat.zero_add]

theorem plus_ofCalls_cons (cost : String → Cost) (target : String) (rest : List String) :
    total.plus (ofCalls cost (target :: rest)) =
      (total.plus ⟨(cost target).vectors, (cost target).cycles, 1⟩).plus (ofCalls cost rest) := by
  simp only [plus, ofCalls, List.map_cons, List.sum_cons, List.length_cons, Nat.add_assoc,
    Nat.add_comm 1]

theorem addLabel_of_fits (burst : String) (h : (total.plus ⟨c.vectors, c.cycles, 1⟩).Fits) :
    total.addLabel burst c = (total.plus ⟨c.vectors, c.cycles, 1⟩, none) := by
  obtain ⟨hvectors, hcycles, hlabels⟩ := h
  unfold plus at hvectors hcycles hlabels
  simp only [addLabel, fits?, if_pos hvectors, if_pos hcycles, if_pos hlabels]
  rfl

theorem addLabel_of_not_fits (burst : String)
    (h : ¬(total.plus ⟨c.vectors, c.cycles, 1⟩).Fits) :
    (total.addLabel burst c).2 = some (.countOverflow burst) := by
  unfold addLabel fits?
  by_cases hvectors : total.vectors + c.vectors < counterBound
  · by_cases hcycles : total.cycles + c.cycles < counterBound
    · have hlabels : ¬total.labels + 1 < counterBound := fun hlabels ↦
        h ⟨hvectors, hcycles, hlabels⟩
      simp only [if_pos hvectors, if_pos hcycles, if_neg hlabels]
    · simp only [if_pos hvectors, if_neg hcycles]
  · simp only [if_neg hvectors]

end PortCost

section Totals

open PortCost

/-- Calls are added up exactly when their total fits; that a sum on the way does not fit is no other
condition, since totals only grow. -/
theorem sumCalls_pure (burst : String) (cost : String → Cost) {total : PortCost} (h : total.Fits)
    (targets : List String) :
    ((total.plus (ofCalls cost targets)).Fits →
      sumCalls burst (answering cost) total targets = pure (total.plus (ofCalls cost targets))) ∧
    (¬(total.plus (ofCalls cost targets)).Fits →
      sumCalls burst (answering cost) total targets = throw (.countOverflow burst)) := by
  induction targets generalizing total with
  | nil => exact ⟨fun _ ↦ rfl, fun hnot ↦ absurd h hnot⟩
  | cons target rest ih =>
    rw [plus_ofCalls_cons]
    by_cases hnext : (total.plus ⟨(cost target).vectors, (cost target).cycles, 1⟩).Fits
    · have hstep : sumCalls burst (answering cost) total (target :: rest) =
          sumCalls burst (answering cost)
            (total.plus ⟨(cost target).vectors, (cost target).cycles, 1⟩) rest := by
        rw [sumCalls, answering, pure_bind, addLabel_of_fits burst hnext]
      rw [hstep]
      exact ih hnext
    · refine ⟨fun hfits ↦ absurd (fits_of_plus hfits) hnext, fun _ ↦ ?_⟩
      have hover := addLabel_of_not_fits burst hnext
      rcases hadd : total.addLabel burst (cost target) with ⟨partly, e⟩
      rw [hadd] at hover
      obtain rfl : e = some (.countOverflow burst) := hover
      rw [sumCalls, answering, pure_bind, hadd]

/-- What the calls of a port cost. -/
def BurstPort.callCost (cost : String → Cost) (port : BurstPort) : PortCost :=
  ofCalls cost (callTargets port.program.commands.values)

theorem sumCalls_callCost (burst : String) (cost : String → Cost) (port : BurstPort) :
    ((port.callCost cost).Fits →
      sumCalls burst (answering cost) .zero (callTargets port.program.commands.values) =
        pure (port.callCost cost)) ∧
    (¬(port.callCost cost).Fits →
      sumCalls burst (answering cost) .zero (callTargets port.program.commands.values) =
        throw (.countOverflow burst)) := by
  have hzero : PortCost.zero.Fits := by
    refine ⟨?_, ?_, ?_⟩ <;> decide
  have hsum := sumCalls_pure burst cost hzero (callTargets port.program.commands.values)
  rw [zero_plus] at hsum
  exact hsum

theorem costPorts_pure (burst : String) (cost : String → Cost)
    (costs : OrderedMap String PortCost) (ports : List BurstPort) :
    ((∀ port ∈ ports, (port.callCost cost).Fits) →
      costPorts burst (answering cost) costs ports =
        pure (costs.insertAll (ports.map fun port ↦ (port.name, port.callCost cost)))) ∧
    ((¬∀ port ∈ ports, (port.callCost cost).Fits) →
      costPorts burst (answering cost) costs ports = throw (.countOverflow burst)) := by
  induction ports generalizing costs with
  | nil => exact ⟨fun _ ↦ rfl, fun hnot ↦ absurd (List.forall_mem_nil _) hnot⟩
  | cons port rest ih =>
    obtain ⟨hsum, hover⟩ := sumCalls_callCost burst cost port
    rw [List.forall_mem_cons]
    by_cases hport : (port.callCost cost).Fits
    · have hstep : costPorts burst (answering cost) costs (port :: rest) =
          costPorts burst (answering cost)
            (costs.insert port.name (port.callCost cost)) rest := by
        rw [costPorts, hsum hport, pure_bind]
      rw [hstep]
      obtain ⟨hpure, hthrow⟩ := ih (costs.insert port.name (port.callCost cost))
      exact ⟨fun hall ↦ hpure hall.2, fun hnot ↦ hthrow fun hall ↦ hnot ⟨hport, hall⟩⟩
    · refine ⟨fun hall ↦ absurd hall.1 hport, fun _ ↦ ?_⟩
      rw [costPorts, hover hport]
      rfl

/-- The table that costing a burst gives when every label has a cost. -/
theorem BurstLabel.portCosts_pure (b : BurstLabel) (cost : String → Cost) :
    ((∀ port ∈ b.ports.items, (port.callCost cost).Fits) →
      ∃ costs, b.portCosts (answering cost) = pure costs ∧
        costs.entries = b.ports.items.map fun port ↦ (port.name, port.callCost cost)) ∧
    ((¬∀ port ∈ b.ports.items, (port.callCost cost).Fits) →
      b.portCosts (answering cost) = throw (.countOverflow b.name)) := by
  obtain ⟨hpure, hthrow⟩ := costPorts_pure b.name cost .empty b.ports.items
  refine ⟨fun hall ↦ ⟨_, hpure hall, ?_⟩, hthrow⟩
  refine (OrderedMap.entries_insertAll ?_).trans (List.nil_append _)
  rw [OrderedMap.keys_empty, List.nil_append, List.map_map]
  exact b.ports.nodup

end Totals

/-! ### Bursts -/

section Burst

variable {f : VectorFile} {b : BurstLabel}

/-- When every label has a cost, each port of an assembled burst costs what some of the labels that
its records call cost together: no call is counted twice, and when the records have distinct
numbers, every call is counted. Costing fails exactly when a total leaves the range of counters. -/
theorem VectorFile.portCosts_of_assemble_burst (h : f.assemble = .ok (.burst b))
    (cost : String → Cost) :
    ∃ counted : List (List String),
      List.Forall₂ (fun r targets ↦ targets <+~ f.calledBy r ∧
        (((f.recordsOf r).map Instruction.cmdNo).Nodup → targets = f.calledBy r))
        f.labels counted ∧
      ((∀ targets ∈ counted, (PortCost.ofCalls cost targets).Fits) →
        ∃ costs, b.portCosts (answering cost) = pure costs ∧
          costs.entries =
            (f.labels.map LabelRecord.port).zip (counted.map (PortCost.ofCalls cost))) ∧
      ((¬∀ targets ∈ counted, (PortCost.ofCalls cost targets).Fits) →
        b.portCosts (answering cost) = throw (.countOverflow b.name)) := by
  have hports := of_assemble_burst h
  obtain ⟨hpure, hthrow⟩ := b.portCosts_pure cost
  have hfits : (∀ targets ∈ b.ports.items.map fun port ↦ callTargets port.program.commands.values,
      (PortCost.ofCalls cost targets).Fits) ↔
      ∀ port ∈ b.ports.items, (port.callCost cost).Fits := List.forall_mem_map
  refine ⟨b.ports.items.map fun port ↦ callTargets port.program.commands.values, ?_, ?_, ?_⟩
  · rw [List.forall₂_map_right_iff]
    exact hports.imp fun r port hport ↦ callTargets_of_assemblePort hport
  · intro hall
    obtain ⟨costs, hcosts, hentries⟩ := hpure (hfits.mp hall)
    refine ⟨costs, hcosts, ?_⟩
    have hnames : f.labels.map LabelRecord.port = b.ports.items.map BurstPort.name := by
      refine List.forall₂_eq_eq_eq ▸ ?_
      rw [List.forall₂_map_left_iff, List.forall₂_map_right_iff]
      exact hports.imp fun r port hport ↦ (of_assemblePort hport).1.symm
    rw [hentries, hnames, List.map_map, List.zip_map']
    rfl
  · intro hnot
    exact hthrow fun hall ↦ hnot (hfits.mpr hall)

/-- A burst of two calls and `BEND` on one port; the number of the second call varies. -/
def twoCalls (second : Nat) : VectorFile where
  path := none
  memories := [⟨.sqpg, "SM", 3, "P1"⟩]
  labels := [⟨"all", .burst, 0, 2, "grp", "P1"⟩]
  instructions := [⟨0, .call, "", "one", "SM", "P1"⟩, ⟨second, .call, "", "two", "SM", "P1"⟩,
    ⟨2, .bend, "", "", "SM", "P1"⟩]

/-- Five vectors for one label, seven for any other. -/
def fiveOrSeven (target : String) : Cost :=
  if target = "one" then ⟨5, 5⟩ else ⟨7, 7⟩

theorem portCosts_of_assemble_burst_twoCalls :
    ∃ b, (twoCalls 1).assemble = .ok (.burst b) ∧
      ∃ costs, b.portCosts (answering fiveOrSeven) = pure costs ∧
        costs.entries = [("P1", ⟨12, 12, 2⟩)] := by
  obtain ⟨b, h⟩ : ∃ b, (twoCalls 1).assemble = .ok (.burst b) := ⟨_, rfl⟩
  obtain ⟨counted, hcounted, hpure, -⟩ := VectorFile.portCosts_of_assemble_burst h fiveOrSeven
  obtain ⟨targets, rfl⟩ : ∃ targets, counted = [targets] := by
    have hlength : 1 = counted.length := hcounted.length_eq
    exact List.length_eq_one_iff.mp hlength.symm
  have hall : targets = ["one", "two"] := by
    cases hcounted with
    | cons hport _ => exact hport.2 (by decide)
  rw [hall] at hpure
  obtain ⟨costs, hcosts, hentries⟩ := hpure (List.forall_mem_singleton.mpr (by
    refine ⟨?_, ?_, ?_⟩ <;> decide))
  exact ⟨b, h, costs, hcosts, hentries⟩

/-- A burst whose second call has the number of the first counts one call. -/
theorem VectorFile.not_forall_calls_counted :
    ¬∀ (f : VectorFile) (b : BurstLabel) (cost : String → Cost)
      (costs : OrderedMap String PortCost), f.assemble = .ok (.burst b) →
      b.portCosts (answering cost) = pure costs →
      List.Forall₂ (fun r entry ↦ entry = (r.port, PortCost.ofCalls cost (f.calledBy r)))
        f.labels costs.entries := by
  intro hall
  obtain ⟨b, costs, h, hcosts, hentries⟩ : ∃ (b : BurstLabel) (costs : OrderedMap String PortCost),
      (twoCalls 0).assemble = .ok (.burst b) ∧
      b.portCosts (answering fiveOrSeven) = pure costs ∧
      costs.entries = [("P1", ⟨7, 7, 1⟩)] := ⟨_, _, rfl, rfl, rfl⟩
  have hport := hall _ b fiveOrSeven costs h hcosts
  rw [hentries] at hport
  cases hport with
  | cons heq _ => exact absurd heq (by decide)

end Burst

end TesterSetup
