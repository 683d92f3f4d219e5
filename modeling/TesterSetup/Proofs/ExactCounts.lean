import TesterSetup.Proofs.CountedRecords

/-!
# Exact counts of instructions

What the instructions of a MAIN label emit in unbounded numbers, and when counting them succeeds.
`Instruction.Emits` gives the vectors and cycles of one instruction whose operands are numbers;
`Cost.total` adds up those of several. Counting adds instruction by instruction and fails as soon as
a sum leaves the counters (`countOne`). Sums only grow, so no sum on the way fails that the total
would not: counting gives exactly the total if that fits the counters
(`foldlM_countOne_eq_ok_iff`), and reports an overflow exactly when the instructions up to some
point have numbers for operands and come to more than fits (`foldlM_countOne_eq_countOverflow_iff`).
Costing a MAIN label is counting what stands before the first `STOP` (`costUpToStop_eq`).
-/

set_option autoImplicit false

namespace TesterSetup

/-! ### What instructions emit -/

/-- An operand is, trimmed, the numeral of a number that a counter holds. -/
def GivesCount (operand : String) (n : Nat) : Prop :=
  Text.readNat? counterBound (Text.trimmed operand) = some n

/-- What an instruction emits: `GENV n` emits `n` vectors in `n` cycles, `RPTV n,r` emits `n`
vectors in `n * r` cycles, any other instruction nothing. -/
inductive Instruction.Emits (i : Instruction) : Cost → Prop
  | genv {n : Nat} (hop : i.opcode = .genv) (hn : GivesCount i.operand1 n) : Emits i ⟨n, n⟩
  | rptv {n r : Nat} (hop : i.opcode = .rptv) (hn : GivesCount i.operand1 n)
      (hr : GivesCount i.operand2 r) : Emits i ⟨n, n * r⟩
  | other (hgenv : i.opcode ≠ .genv) (hrptv : i.opcode ≠ .rptv) : Emits i .zero

/-- The instructions before the first `STOP`. -/
def beforeStop (instructions : List Instruction) : List Instruction :=
  instructions.takeWhile fun i ↦ i.opcode ≠ .stop

/-! ### Costs in and out of range -/

namespace Cost

/-- Both counters are in range. -/
def Fits (c : Cost) : Prop :=
  c.vectors < counterBound ∧ c.cycles < counterBound

/-- What several costs come to. -/
def total (costs : List Cost) : Cost :=
  ⟨(costs.map vectors).sum, (costs.map cycles).sum⟩

variable {a b c : Cost} {label : String}

theorem total_cons (c : Cost) (rest : List Cost) : total (c :: rest) = c.plus (total rest) := by
  simp only [total, plus, List.map_cons, List.sum_cons]

theorem plus_total_cons (a c : Cost) (rest : List Cost) :
    a.plus (total (c :: rest)) = (a.plus c).plus (total rest) := by
  rw [total_cons, plus_assoc]

theorem Fits.of_plus_left (h : (a.plus b).Fits) : a.Fits :=
  ⟨Nat.lt_of_le_of_lt (Nat.le_add_right _ _) h.1, Nat.lt_of_le_of_lt (Nat.le_add_right _ _) h.2⟩

theorem Fits.of_plus_right (h : (a.plus b).Fits) : b.Fits :=
  ⟨Nat.lt_of_le_of_lt (Nat.le_add_left _ _) h.1, Nat.lt_of_le_of_lt (Nat.le_add_left _ _) h.2⟩

theorem fits_zero : zero.Fits := by
  constructor <;> decide

theorem add_of_fits (h : (a.plus b).Fits) : a.add label b = .ok (a.plus b) := by
  obtain ⟨hvectors, hcycles⟩ := h
  unfold plus at hvectors hcycles
  simp only [add, add?, fits?, if_pos hvectors, if_pos hcycles]
  rfl

theorem add_of_not_fits (h : ¬(a.plus b).Fits) : a.add label b = .error (.countOverflow label) := by
  have hnone : a.add? b = none := by
    unfold add? fits?
    by_cases hvectors : a.vectors + b.vectors < counterBound
    · have hcycles : ¬a.cycles + b.cycles < counterBound := fun hcycles ↦ h ⟨hvectors, hcycles⟩
      simp only [if_pos hvectors, if_neg hcycles]
      rfl
    · simp only [if_neg hvectors]
      rfl
  simp only [add, hnone]

theorem add_eq_ok_iff : a.add label b = .ok c ↔ c = a.plus b ∧ c.Fits := by
  by_cases h : (a.plus b).Fits
  · rw [add_of_fits h, Except.ok.injEq]
    exact ⟨fun heq ↦ ⟨heq.symm, heq ▸ h⟩, fun heq ↦ heq.1.symm⟩
  · rw [add_of_not_fits h]
    refine ⟨fun heq ↦ (nomatch heq), ?_⟩
    rintro ⟨rfl, hfits⟩
    exact absurd hfits h

theorem add_eq_error_iff {e : LabelError} :
    a.add label b = .error e ↔ ¬(a.plus b).Fits ∧ e = .countOverflow label := by
  by_cases h : (a.plus b).Fits
  · rw [add_of_fits h]
    exact ⟨fun heq ↦ (nomatch heq), fun heq ↦ absurd h heq.1⟩
  · rw [add_of_not_fits h, Except.error.injEq]
    exact ⟨fun heq ↦ ⟨h, heq.symm⟩, fun heq ↦ heq.2.symm⟩

end Cost

section Counting

variable {label name operand : String} {n : Nat} {i : Instruction} {c counted next : Cost}

/-! ### One instruction -/

theorem GivesCount.lt (h : GivesCount operand n) : n < counterBound :=
  Text.readNat?_lt h

/-- Reading an operand as a count has two ends. -/
theorem Instruction.count_cases (label : String) (i : Instruction) (operand : String) :
    (∃ n, GivesCount operand n ∧ i.count label operand = .ok n) ∨
      (∀ n, ¬GivesCount operand n) ∧
        i.count label operand = .error (.invalidOperand label i.cmdNo i.opcode operand) := by
  unfold count GivesCount
  cases Text.readNat? counterBound (Text.trimmed operand) with
  | none => exact .inr ⟨fun n h ↦ (nomatch h), rfl⟩
  | some n => exact .inl ⟨n, rfl, rfl⟩

theorem Instruction.Emits.unique {other : Cost} (h : i.Emits c) (hother : i.Emits other) :
    c = other := by
  cases h with
  | genv hop hn =>
    cases hother with
    | genv _ hn' =>
      cases hn.symm.trans hn'
      rfl
    | rptv hop' _ _ => cases hop.symm.trans hop'
    | other hgenv _ => exact absurd hop hgenv
  | rptv hop hn hr =>
    cases hother with
    | genv hop' _ => cases hop.symm.trans hop'
    | rptv _ hn' hr' =>
      cases hn.symm.trans hn'
      cases hr.symm.trans hr'
      rfl
    | other _ hrptv => exact absurd hop hrptv
  | other hgenv hrptv =>
    cases hother with
    | genv hop _ => exact absurd hop hgenv
    | rptv hop _ _ => exact absurd hop hrptv
    | other _ _ => rfl

theorem Instruction.Emits.exists_operand1 (h : i.Emits c)
    (hop : i.opcode = .genv ∨ i.opcode = .rptv) : ∃ n, GivesCount i.operand1 n := by
  cases h with
  | genv _ hn => exact ⟨_, hn⟩
  | rptv _ hn _ => exact ⟨_, hn⟩
  | other hgenv hrptv => exact absurd hop (not_or.mpr ⟨hgenv, hrptv⟩)

theorem Instruction.Emits.exists_operand2 (h : i.Emits c) (hop : i.opcode = .rptv) :
    ∃ r, GivesCount i.operand2 r := by
  cases h with
  | genv hop' _ => cases hop.symm.trans hop'
  | rptv _ _ hr => exact ⟨_, hr⟩
  | other _ hrptv => exact absurd hop hrptv

/-- Costing an instruction has three ends: it costs what it emits, it emits more than fits, or an
operand that it needs is no number. -/
theorem Instruction.cost_cases (label : String) (i : Instruction) :
    (∃ c, i.Emits c ∧ c.Fits ∧ i.cost label = .ok c) ∨
      (∃ c, i.Emits c ∧ ¬c.Fits ∧ i.cost label = .error (.countOverflow label)) ∨
      (∀ c, ¬i.Emits c) ∧
        ∃ operand, i.cost label = .error (.invalidOperand label i.cmdNo i.opcode operand) := by
  unfold cost
  split
  · rename_i hop
    rcases i.count_cases label i.operand1 with ⟨n, hn, hcount⟩ | ⟨hn, hcount⟩
    · refine .inl ⟨⟨n, n⟩, .genv hop hn, ⟨hn.lt, hn.lt⟩, ?_⟩
      rw [hcount]
      rfl
    · refine .inr (.inr ⟨fun c hc ↦ ?_, i.operand1, ?_⟩)
      · exact not_exists.mpr hn (hc.exists_operand1 (.inl hop))
      · rw [hcount]
        rfl
  · rename_i hop
    rcases i.count_cases label i.operand1 with ⟨n, hn, hcount⟩ | ⟨hn, hcount⟩
    · rcases i.count_cases label i.operand2 with ⟨r, hr, hcount'⟩ | ⟨hr, hcount'⟩
      · rw [hcount, hcount']
        by_cases hcycles : n * r < counterBound
        · refine .inl ⟨⟨n, n * r⟩, .rptv hop hn hr, ⟨hn.lt, hcycles⟩, ?_⟩
          simp only [bind, Except.bind, fits?, if_pos hcycles]
          rfl
        · refine .inr (.inl ⟨⟨n, n * r⟩, .rptv hop hn hr, fun h ↦ hcycles h.2, ?_⟩)
          simp only [bind, Except.bind, fits?, if_neg hcycles]
          rfl
      · refine .inr (.inr ⟨fun c hc ↦ ?_, i.operand2, ?_⟩)
        · exact not_exists.mpr hr (hc.exists_operand2 hop)
        · rw [hcount, hcount']
          rfl
    · refine .inr (.inr ⟨fun c hc ↦ ?_, i.operand1, ?_⟩)
      · exact not_exists.mpr hn (hc.exists_operand1 (.inr hop))
      · rw [hcount]
        rfl
  · rename_i hgenv hrptv
    exact .inl ⟨.zero, .other hgenv hrptv, Cost.fits_zero, rfl⟩

theorem Instruction.cost_eq_ok_iff : i.cost label = .ok c ↔ i.Emits c ∧ c.Fits := by
  rcases i.cost_cases label with ⟨d, hd, hfits, hcost⟩ | ⟨d, hd, hfits, hcost⟩ |
    ⟨hnone, operand, hcost⟩
  · rw [hcost, Except.ok.injEq]
    exact ⟨fun h ↦ h ▸ ⟨hd, hfits⟩, fun h ↦ hd.unique h.1⟩
  · rw [hcost]
    exact ⟨fun h ↦ (nomatch h), fun h ↦ absurd h.2 (hd.unique h.1 ▸ hfits)⟩
  · rw [hcost]
    exact ⟨fun h ↦ (nomatch h), fun h ↦ absurd h.1 (hnone c)⟩

theorem Instruction.cost_eq_countOverflow_iff :
    i.cost label = .error (.countOverflow name) ↔ name = label ∧ ∃ c, i.Emits c ∧ ¬c.Fits := by
  rcases i.cost_cases label with ⟨d, hd, hfits, hcost⟩ | ⟨d, hd, hfits, hcost⟩ |
    ⟨hnone, operand, hcost⟩
  · rw [hcost]
    exact ⟨fun h ↦ (nomatch h), fun ⟨_, c, hc, hover⟩ ↦ absurd (hd.unique hc ▸ hfits) hover⟩
  · rw [hcost, Except.error.injEq, LabelError.countOverflow.injEq]
    exact ⟨fun h ↦ ⟨h.symm, d, hd, hfits⟩, fun h ↦ h.1.symm⟩
  · rw [hcost]
    exact ⟨fun h ↦ (nomatch h), fun ⟨_, c, hc, _⟩ ↦ absurd hc (hnone c)⟩

/-! ### Several instructions -/

/-- Counts one more instruction. -/
def countOne (label : String) (counted : Cost) (i : Instruction) : Except LabelError Cost := do
  let cost ← i.cost label
  counted.add label cost

theorem countOne_eq_ok_iff :
    countOne label counted i = .ok next ↔
      ∃ c, i.Emits c ∧ next = counted.plus c ∧ next.Fits := by
  unfold countOne
  rw [except_bind_eq_ok_iff]
  constructor
  · rintro ⟨c, hc, hadd⟩
    exact ⟨c, (Instruction.cost_eq_ok_iff.mp hc).1, Cost.add_eq_ok_iff.mp hadd⟩
  · rintro ⟨c, hc, rfl, hfits⟩
    exact ⟨c, Instruction.cost_eq_ok_iff.mpr ⟨hc, hfits.of_plus_right⟩,
      Cost.add_eq_ok_iff.mpr ⟨rfl, hfits⟩⟩

theorem countOne_eq_countOverflow_iff :
    countOne label counted i = .error (.countOverflow name) ↔
      name = label ∧ ∃ c, i.Emits c ∧ ¬(counted.plus c).Fits := by
  unfold countOne
  rw [except_bind_eq_error_iff]
  constructor
  · rintro (hcost | ⟨c, hc, hadd⟩)
    · obtain ⟨rfl, c, hc, hover⟩ := Instruction.cost_eq_countOverflow_iff.mp hcost
      exact ⟨rfl, c, hc, fun hfits ↦ hover hfits.of_plus_right⟩
    · obtain ⟨hover, heq⟩ := Cost.add_eq_error_iff.mp hadd
      exact ⟨LabelError.countOverflow.inj heq, c, (Instruction.cost_eq_ok_iff.mp hc).1, hover⟩
  · rintro ⟨rfl, c, hc, hover⟩
    by_cases hfits : c.Fits
    · exact .inr ⟨c, Instruction.cost_eq_ok_iff.mpr ⟨hc, hfits⟩,
        Cost.add_eq_error_iff.mpr ⟨hover, rfl⟩⟩
    · exact .inl (Instruction.cost_eq_countOverflow_iff.mpr ⟨rfl, c, hc, hfits⟩)

variable {instructions : List Instruction}

/-- Counting instructions gives what they emit together, if that fits the counters. -/
theorem foldlM_countOne_eq_ok_iff (h : counted.Fits) :
    instructions.foldlM (countOne label) counted = .ok next ↔
      ∃ costs, List.Forall₂ Instruction.Emits instructions costs ∧
        next = counted.plus (.total costs) ∧ next.Fits := by
  induction instructions generalizing counted with
  | nil =>
    rw [List.foldlM_nil]
    constructor
    · intro heq
      cases heq
      exact ⟨[], .nil, rfl, h⟩
    · rintro ⟨costs, hcosts, rfl, -⟩
      cases hcosts
      rfl
  | cons i rest ih =>
    rw [List.foldlM_cons, except_bind_eq_ok_iff]
    constructor
    · rintro ⟨between, hone, hrest⟩
      obtain ⟨c, hc, rfl, hfits⟩ := countOne_eq_ok_iff.mp hone
      obtain ⟨costs, hcosts, hnext⟩ := (ih hfits).mp hrest
      rw [← Cost.plus_total_cons] at hnext
      exact ⟨c :: costs, .cons hc hcosts, hnext⟩
    · rintro ⟨costs, hcosts, hnext, hfits⟩
      cases hcosts with
      | @cons _ c _ costs hc hcosts =>
        rw [Cost.plus_total_cons] at hnext
        have hbetween : (counted.plus c).Fits := Cost.Fits.of_plus_left (hnext ▸ hfits)
        exact ⟨counted.plus c, countOne_eq_ok_iff.mpr ⟨c, hc, rfl, hbetween⟩,
          (ih hbetween).mpr ⟨costs, hcosts, hnext, hfits⟩⟩

/-- Counting overflows exactly when the instructions up to some point emit more than fits. -/
theorem foldlM_countOne_eq_countOverflow_iff (h : counted.Fits) :
    instructions.foldlM (countOne label) counted = .error (.countOverflow name) ↔
      name = label ∧ ∃ read costs, read <+: instructions ∧
        List.Forall₂ Instruction.Emits read costs ∧ ¬(counted.plus (.total costs)).Fits := by
  induction instructions generalizing counted with
  | nil =>
    refine ⟨fun heq ↦ (nomatch heq), ?_⟩
    rintro ⟨-, read, costs, hread, hcosts, hover⟩
    obtain rfl := List.prefix_nil.mp hread
    cases hcosts
    exact absurd h hover
  | cons i rest ih =>
    rw [List.foldlM_cons, except_bind_eq_error_iff]
    constructor
    · rintro (hone | ⟨between, hone, hrest⟩)
      · obtain ⟨rfl, c, hc, hover⟩ := countOne_eq_countOverflow_iff.mp hone
        refine ⟨rfl, [i], [c], List.prefix_append [i] rest, .cons hc .nil, ?_⟩
        rw [Cost.plus_total_cons]
        exact hover
      · obtain ⟨c, hc, rfl, hfits⟩ := countOne_eq_ok_iff.mp hone
        obtain ⟨rfl, read, costs, hread, hcosts, hover⟩ := (ih hfits).mp hrest
        rw [← Cost.plus_total_cons] at hover
        exact ⟨rfl, i :: read, c :: costs, List.cons_prefix_cons.mpr ⟨rfl, hread⟩,
          .cons hc hcosts, hover⟩
    · rintro ⟨rfl, read, costs, hread, hcosts, hover⟩
      cases hcosts with
      | nil => exact absurd h hover
      | @cons j c read costs hc hcosts =>
        obtain ⟨rfl, hrest⟩ := List.cons_prefix_cons.mp hread
        rw [Cost.plus_total_cons] at hover
        -- the overflow is in the first of the instructions or, if that fits, behind it
        by_cases hfits : (counted.plus c).Fits
        · exact .inr ⟨counted.plus c, countOne_eq_ok_iff.mpr ⟨c, hc, rfl, hfits⟩,
            (ih hfits).mpr ⟨rfl, read, costs, hrest, hcosts, hover⟩⟩
        · exact .inl (countOne_eq_countOverflow_iff.mpr ⟨rfl, c, hc, hfits⟩)

/-! ### MAIN labels -/

/-- Costing up to `STOP` counts what stands before it. -/
theorem costUpToStop_eq (label : String) (counted : Cost) (instructions : List Instruction) :
    costUpToStop label counted instructions =
      (beforeStop instructions).foldlM (countOne label) counted := by
  induction instructions generalizing counted with
  | nil => rfl
  | cons i rest ih =>
    unfold costUpToStop beforeStop
    by_cases hstop : i.opcode = .stop
    · rw [if_pos hstop, List.takeWhile_cons_of_neg (by simpa using hstop)]
      rfl
    · rw [if_neg hstop, List.takeWhile_cons_of_pos (by simpa using hstop), List.foldlM_cons,
        countOne]
      cases i.cost label with
      | error e => rfl
      | ok c =>
        change counted.add label c >>= _ = counted.add label c >>= _
        exact congrArg _ (funext ih)

theorem interpretMain_eq_ok_iff :
    interpretMain label instructions = .ok c ↔
      ∃ costs, List.Forall₂ Instruction.Emits (beforeStop instructions) costs ∧
        c = .total costs ∧ c.Fits := by
  unfold interpretMain
  rw [costUpToStop_eq, foldlM_countOne_eq_ok_iff Cost.fits_zero]
  simp only [Cost.zero_plus]

theorem interpretMain_eq_countOverflow_iff :
    interpretMain label instructions = .error (.countOverflow name) ↔
      name = label ∧ ∃ read costs, read <+: beforeStop instructions ∧
        List.Forall₂ Instruction.Emits read costs ∧ ¬(Cost.total costs).Fits := by
  unfold interpretMain
  rw [costUpToStop_eq, foldlM_countOne_eq_countOverflow_iff Cost.fits_zero]
  simp only [Cost.zero_plus]

end Counting

end TesterSetup
