import TesterSetup.Proofs.ExactCounts

/-!
# Built and costed streams

Building a program and costing a MAIN label count the same instructions with two different ends:
building ends at the first `STOP` or `BEND`, costing at the first `STOP`, which is what closes a
MAIN label. So where a program can be built of a stream that is all in its range, costing the stream
gives the counters of the program if `STOP` ends it; if `BEND` does, costing starts from these
counters and goes on (`interpretMain_of_build`), and the two agree only if nothing that it then
meets emits anything.
-/

set_option autoImplicit false

namespace TesterSetup

section Streams

variable {label port : String} {start stop : Nat} {op : Opcode} {i : Instruction}
  {instructions taken rest : List Instruction} {counted total : Cost} {p q : Program}

theorem Opcode.isTerminal_iff : op.isTerminal = true ↔ op = .stop ∨ op = .bend := by
  unfold isTerminal
  rw [Bool.or_eq_true, beq_iff_eq, beq_iff_eq]

/-! ### Counting what a program takes -/

theorem CostTogether.exists_emits (h : CostTogether label taken total) :
    ∃ costs, List.Forall₂ Instruction.Emits taken costs ∧ total = .total costs := by
  induction h with
  | nil => exact ⟨[], .nil, rfl⟩
  | @cons i rest c added hi _ ih =>
    obtain ⟨costs, hcosts, rfl⟩ := ih
    exact ⟨c :: costs, .cons (Instruction.cost_eq_ok_iff.mp hi).1 hcosts,
      (Cost.total_cons c costs).symm⟩

/-- Instructions that cost something together are counted one after the other. -/
theorem CostTogether.foldlM_countOne (h : CostTogether label taken total) (hfits : total.Fits) :
    taken.foldlM (countOne label) .zero = .ok total := by
  obtain ⟨costs, hcosts, heq⟩ := h.exists_emits
  exact (foldlM_countOne_eq_ok_iff Cost.fits_zero).mpr
    ⟨costs, hcosts, heq.trans (Cost.zero_plus _).symm, hfits⟩

theorem Program.fits_of_record (h : p.record i = .ok q) : q.cost.Fits := by
  obtain ⟨c, -, h⟩ := except_bind_eq_ok_iff.mp h
  obtain ⟨total, htotal, h⟩ := except_bind_eq_ok_iff.mp h
  cases h
  exact (Cost.add_eq_ok_iff.mp htotal).2

/-- The counters of a program that was built are in range. -/
theorem Program.fits_of_extend (h : p.extend start stop instructions = .ok q) : q.cost.Fits := by
  induction instructions generalizing p with
  | nil => cases h
  | cons i rest ih =>
    unfold extend at h
    split at h
    · split at h
      · obtain ⟨next, hnext, h⟩ := except_bind_eq_ok_iff.mp h
        split at h
        · cases h
          exact fits_of_record hnext
        · exact ih h
      · cases h
    · exact ih h

/-! ### Instructions before a `STOP` -/

theorem beforeStop_append (h : ∀ i ∈ taken, i.opcode ≠ .stop) (rest : List Instruction) :
    beforeStop (taken ++ rest) = taken ++ beforeStop rest :=
  List.takeWhile_append_of_pos fun i hi ↦ decide_eq_true (h i hi)

theorem ne_stop_of_not_terminal (h : ∀ i ∈ taken, i.opcode.isTerminal = false) :
    ∀ i ∈ taken, i.opcode ≠ .stop := by
  intro i hi hstop
  exact Bool.false_ne_true ((h i hi).symm.trans (Opcode.isTerminal_iff.mpr (.inl hstop)))

/-- Instructions that end with the only `STOP` are those before it and the `STOP`. -/
theorem EndsWith.beforeStop_of_stop (h : EndsWith .stop taken) (rest : List Instruction) :
    ∃ last, taken = beforeStop (taken ++ rest) ++ [last] ∧ last.opcode = .stop := by
  obtain ⟨body, last, rfl, hlast, hbody⟩ := h
  have hnone : beforeStop (last :: rest) = [] :=
    List.takeWhile_cons_of_neg fun hne ↦ of_decide_eq_true hne hlast
  refine ⟨last, ?_, hlast⟩
  rw [List.append_assoc, beforeStop_append (ne_stop_of_not_terminal hbody), List.singleton_append,
    hnone, List.append_nil]

theorem EndsWith.beforeStop_of_bend (h : EndsWith .bend taken) (rest : List Instruction) :
    beforeStop (taken ++ rest) = taken ++ beforeStop rest := by
  obtain ⟨body, last, rfl, hlast, hbody⟩ := h
  refine beforeStop_append (fun i hi ↦ ?_) rest
  rcases List.mem_append.mp hi with hi | hi
  · exact ne_stop_of_not_terminal hbody i hi
  · rw [List.mem_singleton.mp hi, hlast]
    exact fun heq ↦ (nomatch heq)

/-! ### Counting nothing -/

theorem Cost.plus_eq_zero_iff {a b : Cost} : a.plus b = .zero ↔ a = .zero ∧ b = .zero := by
  obtain ⟨v, c⟩ := a
  obtain ⟨v', c'⟩ := b
  simp only [plus, zero, mk.injEq, Nat.add_eq_zero_iff]
  exact and_and_and_comm

theorem Cost.eq_plus_iff {a b : Cost} : a = a.plus b ↔ b = .zero := by
  obtain ⟨v, c⟩ := a
  obtain ⟨v', c'⟩ := b
  simp only [plus, zero, mk.injEq, Nat.left_eq_add]

theorem exists_emits_zero_iff :
    (∃ costs, List.Forall₂ Instruction.Emits instructions costs ∧ Cost.total costs = .zero) ↔
      ∀ i ∈ instructions, i.Emits .zero := by
  induction instructions with
  | nil => exact ⟨fun _ ↦ List.forall_mem_nil _, fun _ ↦ ⟨[], .nil, rfl⟩⟩
  | cons i rest ih =>
    rw [List.forall_mem_cons, ← ih]
    constructor
    · rintro ⟨costs, hcosts, hzero⟩
      cases hcosts with
      | cons hi hrest =>
        rw [Cost.total_cons, Cost.plus_eq_zero_iff] at hzero
        exact ⟨hzero.1 ▸ hi, _, hrest, hzero.2⟩
    · rintro ⟨hi, costs, hrest, hzero⟩
      refine ⟨.zero :: costs, .cons hi hrest, ?_⟩
      rw [Cost.total_cons, hzero]
      rfl

/-- Counting leaves a cost as it is when nothing that is counted emits anything. -/
theorem foldlM_countOne_eq_self_iff (h : counted.Fits) :
    instructions.foldlM (countOne label) counted = .ok counted ↔
      ∀ i ∈ instructions, i.Emits .zero := by
  rw [foldlM_countOne_eq_ok_iff h, ← exists_emits_zero_iff]
  refine exists_congr fun costs ↦ and_congr_right fun _ ↦ ?_
  rw [Cost.eq_plus_iff]
  exact and_iff_left h

/-! ### Built streams -/

/-- A stream that lies in the range of a program that is built of it starts with what the program
takes. When that ends with `STOP`, costing the stream gives the counters of the program. When it
ends with `BEND`, costing goes on behind it from these counters, and comes to the same only if
nothing up to the next `STOP` emits anything. -/
theorem interpretMain_of_build (hrange : ∀ i ∈ instructions, start ≤ i.cmdNo ∧ i.cmdNo ≤ stop)
    (h : Program.build label port instructions start stop = .ok p) :
    ∃ taken rest, instructions = taken ++ rest ∧
      (EndsWith .stop taken ∧ interpretMain label instructions = .ok p.cost ∨
        EndsWith .bend taken ∧
          interpretMain label instructions = costUpToStop label p.cost rest ∧
          (interpretMain label instructions = .ok p.cost ↔
            ∀ i ∈ beforeStop rest, i.Emits .zero)) := by
  obtain ⟨taken, htakes, -, -⟩ := Program.commands_of_build h
  have htogether := Program.cost_of_build h htakes
  have hfits : p.cost.Fits := Program.fits_of_extend h
  obtain ⟨⟨rest, hsplit⟩, op, hop, hends⟩ := htakes
  have hall : within start stop instructions = instructions :=
    List.filter_eq_self.mpr fun i hi ↦ decide_eq_true (hrange i hi)
  rw [hall] at hsplit
  refine ⟨taken, rest, hsplit.symm, ?_⟩
  rw [interpretMain, costUpToStop_eq, ← hsplit]
  have hcount := htogether.foldlM_countOne hfits
  rcases Opcode.isTerminal_iff.mp hop with rfl | rfl
  · obtain ⟨last, htaken, hlast⟩ := hends.beforeStop_of_stop rest
    -- the `STOP` is counted in the program, but emits nothing
    rw [htaken, List.foldlM_append, except_bind_eq_ok_iff] at hcount
    obtain ⟨counted, hcounted, hstop⟩ := hcount
    rw [List.foldlM_cons, except_bind_eq_ok_iff] at hstop
    obtain ⟨next, hnext, hstop⟩ := hstop
    cases hstop
    obtain ⟨c, hc, hsum, -⟩ := countOne_eq_ok_iff.mp hnext
    have hnothing : last.Emits .zero := .other (hlast ▸ by decide) (hlast ▸ by decide)
    rw [hc.unique hnothing] at hsum
    rw [hcounted]
    exact .inl ⟨hends, congrArg Except.ok hsum.symm⟩
  · have hgoes : (beforeStop (taken ++ rest)).foldlM (countOne label) .zero =
        costUpToStop label p.cost rest := by
      rw [hends.beforeStop_of_bend rest, List.foldlM_append, hcount, costUpToStop_eq]
      rfl
    rw [hgoes, costUpToStop_eq]
    exact .inr ⟨hends, rfl, foldlM_countOne_eq_self_iff hfits⟩

/-- Four instructions of which the second has some operation and the last is `STOP`. -/
def stoppedStream (second : Opcode) : List Instruction :=
  [⟨0, .genv, "5", "", "", "P1"⟩, ⟨1, second, "", "", "", "P1"⟩, ⟨2, .genv, "7", "", "", "P1"⟩,
    ⟨3, .stop, "", "", "", "P1"⟩]

theorem interpretMain_of_build_stoppedStream :
    ∃ p, Program.build "wave" "P1" (stoppedStream .wait) 0 3 = .ok p ∧ p.cost = ⟨12, 12⟩ ∧
      interpretMain "wave" (stoppedStream .wait) = .ok p.cost := by
  obtain ⟨p, h, hcost⟩ : ∃ p, Program.build "wave" "P1" (stoppedStream .wait) 0 3 = .ok p ∧
      p.cost = ⟨12, 12⟩ := ⟨_, rfl, rfl⟩
  refine ⟨p, h, hcost, ?_⟩
  obtain ⟨taken, rest, hsplit, ⟨-, hsame⟩ | ⟨⟨body, last, rfl, hlast, -⟩, -⟩⟩ :=
    interpretMain_of_build (by decide) h
  · exact hsame
  · -- there is no `BEND` among the instructions
    have hmem : last ∈ stoppedStream .wait := by
      rw [hsplit]
      exact List.mem_append_left _ (List.mem_append_right _ (List.mem_singleton_self last))
    have hnone : ∀ i ∈ stoppedStream .wait, i.opcode ≠ .bend := by decide
    exact absurd hlast (hnone last hmem)

/-- With a `BEND` in the middle the program counts five vectors and the MAIN label twelve. -/
theorem not_forall_interpretMain_eq_cost :
    ¬∀ (label port : String) (start stop : Nat) (instructions : List Instruction) (p : Program),
      (∀ i ∈ instructions, i.port = port) →
      (∀ i ∈ instructions, start ≤ i.cmdNo ∧ i.cmdNo ≤ stop) →
      Program.build label port instructions start stop = .ok p →
      interpretMain label instructions = .ok p.cost := by
  intro hall
  obtain ⟨p, h, hcost⟩ : ∃ p, Program.build "wave" "P1" (stoppedStream .bend) 0 3 = .ok p ∧
      p.cost = ⟨5, 5⟩ := ⟨_, rfl, rfl⟩
  have hsame := hall "wave" "P1" 0 3 (stoppedStream .bend) p (by decide) (by decide) h
  have htwelve : interpretMain "wave" (stoppedStream .bend) = .ok ⟨12, 12⟩ := rfl
  rw [htwelve, hcost] at hsame
  exact absurd (Except.ok.inj hsame) (by decide)

end Streams

end TesterSetup
