import TesterSetup.Proofs.BurstPrograms

/-!
# What a program counts and what it keeps

The counters of a program grow with every record that it takes, while its commands are kept by
number. So the counters are the sums over all records that were taken (`Program.cost_of_build`), and
those of the commands together with those of the records that a later one of their number has
replaced (`Program.counted_of_build`). The two agree when no record is replaced, that is when the
numbers are distinct; nothing asks for that when a program is built
(`Program.not_forall_counted_kept`).
-/

set_option autoImplicit false

namespace TesterSetup

open scoped List

/-! ### Costs of several instructions -/

/-- The sum of two costs. -/
def Cost.plus (a b : Cost) : Cost :=
  ⟨a.vectors + b.vectors, a.cycles + b.cycles⟩

/-- Instructions have costs, which add up to a total. -/
inductive CostTogether (label : String) : List Instruction → Cost → Prop
  | nil : CostTogether label [] .zero
  | cons {i : Instruction} {rest : List Instruction} {c total : Cost} (hi : i.cost label = .ok c)
      (hrest : CostTogether label rest total) : CostTogether label (i :: rest) (c.plus total)

section Totals

variable {label : String} {instructions others : List Instruction} {total : Cost}

theorem Cost.zero_plus (a : Cost) : zero.plus a = a := by
  simp only [plus, zero, Nat.zero_add]

theorem Cost.plus_assoc (a b c : Cost) : (a.plus b).plus c = a.plus (b.plus c) := by
  simp only [plus, Nat.add_assoc]

theorem Cost.plus_left_comm (a b c : Cost) : a.plus (b.plus c) = b.plus (a.plus c) := by
  simp only [plus, Nat.add_left_comm]

theorem Cost.eq_plus_of_add {a b sum : Cost} (h : a.add label b = .ok sum) : sum = a.plus b := by
  unfold add add? at h
  split at h
  · rename_i hsum
    cases h
    obtain ⟨vectors, hvectors, hsum⟩ := Option.bind_eq_some_iff.mp hsum
    obtain ⟨cycles, hcycles, hsum⟩ := Option.bind_eq_some_iff.mp hsum
    cases hsum
    rw [plus, fits?_eq_some hvectors, fits?_eq_some hcycles]
  · cases h

theorem CostTogether.unique {other : Cost} (h : CostTogether label instructions total)
    (hother : CostTogether label instructions other) : total = other := by
  induction h generalizing other with
  | nil =>
    cases hother
    rfl
  | cons hi _ ih =>
    cases hother with
    | cons hi' hrest' =>
      cases hi.symm.trans hi'
      rw [ih hrest']

/-- The order of instructions does not matter for what they cost together. -/
theorem CostTogether.perm (h : CostTogether label instructions total)
    (hperm : instructions ~ others) : CostTogether label others total := by
  induction hperm generalizing total with
  | nil => exact h
  | cons i _ ih =>
    cases h with
    | cons hi hrest => exact .cons hi (ih hrest)
  | swap i j rest =>
    cases h with
    | cons hj hrest =>
      cases hrest with
      | cons hi hrest =>
        rw [Cost.plus_left_comm]
        exact .cons hi (.cons hj hrest)
  | trans _ _ ih ih' => exact ih' (ih h)

theorem CostTogether.of_append (h : CostTogether label (instructions ++ others) total) :
    ∃ a b, CostTogether label instructions a ∧ CostTogether label others b ∧ total = a.plus b := by
  induction instructions generalizing total with
  | nil => exact ⟨.zero, total, .nil, h, (Cost.zero_plus total).symm⟩
  | cons i rest ih =>
    cases h with
    | cons hi hrest =>
      obtain ⟨a, b, ha, hb, rfl⟩ := ih hrest
      exact ⟨_, b, .cons hi ha, hb, (Cost.plus_assoc _ a b).symm⟩

end Totals

/-! ### Building -/

namespace Program

variable {p q : Program} {i : Instruction} {start stop : Nat} {instructions : List Instruction}

theorem cost_of_record (h : p.record i = .ok q) :
    ∃ c, i.cost p.label = .ok c ∧ q.cost = p.cost.plus c ∧ q.label = p.label := by
  obtain ⟨c, hc, h⟩ := except_bind_eq_ok_iff.mp h
  obtain ⟨total, htotal, h⟩ := except_bind_eq_ok_iff.mp h
  cases h
  exact ⟨c, hc, Cost.eq_plus_of_add htotal, rfl⟩

/-- Every instruction that a program takes is added to its counters. -/
theorem cost_of_extend (h : p.extend start stop instructions = .ok q) :
    ∃ taken added, Takes start stop instructions taken ∧ CostTogether p.label taken added ∧
      q.cost = p.cost.plus added := by
  induction instructions generalizing p with
  | nil => cases h
  | cons i rest ih =>
    unfold extend at h
    split at h
    · rename_i hrange
      split at h
      · obtain ⟨next, hnext, h⟩ := except_bind_eq_ok_iff.mp h
        obtain ⟨c, hc, hcost, hlabel⟩ := cost_of_record hnext
        split at h
        · rename_i hterminal
          cases h
          exact ⟨[i], c.plus .zero, .last hrange hterminal, .cons hc .nil, hcost⟩
        · rename_i hterminal
          obtain ⟨taken, added, htakes, htaken, hadded⟩ := ih h
          rw [hlabel] at htaken
          refine ⟨i :: taken, c.plus added, htakes.cons hrange (Bool.eq_false_iff.mpr hterminal),
            .cons hc htaken, ?_⟩
          rw [hadded, hcost, Cost.plus_assoc]
      · cases h
    · rename_i hrange
      obtain ⟨taken, added, htakes, hadded⟩ := ih h
      exact ⟨taken, added, htakes.skip hrange, hadded⟩

variable {label port : String} {taken : List Instruction}

/-- The counters of a program are the sums over the instructions that it takes. -/
theorem cost_of_build (h : build label port instructions start stop = .ok p)
    (htakes : Takes start stop instructions taken) : CostTogether label taken p.cost := by
  obtain ⟨taken', added, htakes', hadded, hcost⟩ := cost_of_extend h
  obtain rfl := htakes'.unique htakes
  have hadded' : p.cost = added := hcost.trans (Cost.zero_plus added)
  rw [hadded']
  exact hadded

/-- A program keeps all instructions exactly when their numbers are distinct. -/
theorem values_ofList_numbered_eq_iff :
    (OrderedMap.ofList (numbered taken)).values = taken ↔
      (taken.map Instruction.cmdNo).Nodup := by
  constructor
  · intro h
    have hkeys := OrderedMap.keys_nodup (.ofList (numbered taken))
    rwa [keys_ofList_numbered, h] at hkeys
  · intro h
    rw [OrderedMap.values, entries_ofList_numbered h, map_snd_numbered]

/-- The counters of a program are the sums over its commands and over the instructions that were
replaced by a later one of their number. None was replaced exactly when the instructions in the
range up to the first terminal one have distinct numbers; then these are the commands of the
program, and its counters are their sums. -/
theorem counted_of_build (h : build label port instructions start stop = .ok p) :
    ∃ taken replaced kept lost, Takes start stop instructions taken ∧
      p.commands = .ofList (numbered taken) ∧ taken ~ p.commands.values ++ replaced ∧
      CostTogether label p.commands.values kept ∧ CostTogether label replaced lost ∧
      p.cost = kept.plus lost ∧
      (replaced = [] ↔ (taken.map Instruction.cmdNo).Nodup) ∧
      ((taken.map Instruction.cmdNo).Nodup → p.commands.values = taken ∧ p.cost = kept) := by
  obtain ⟨taken, htakes, hcommands, -⟩ := commands_of_build h
  obtain ⟨values, hvalues, hsublist⟩ := values_ofList_numbered_subperm taken
  obtain ⟨replaced, hsplit⟩ := hsublist.exists_perm_append
  have hperm : taken ~ p.commands.values ++ replaced := by
    rw [hcommands]
    exact hsplit.trans (hvalues.append_right replaced)
  obtain ⟨kept, lost, hkept, hlost, hcost⟩ :=
    ((cost_of_build h htakes).perm hperm).of_append
  have hdistinct : (taken.map Instruction.cmdNo).Nodup ↔ p.commands.values = taken := by
    rw [hcommands]
    exact values_ofList_numbered_eq_iff.symm
  have hreplaced : replaced = [] ↔ (taken.map Instruction.cmdNo).Nodup := by
    constructor
    · rintro rfl
      rw [List.append_nil] at hperm
      have hkeys := OrderedMap.keys_nodup p.commands
      rw [hcommands, keys_ofList_numbered, ← hcommands] at hkeys
      exact (hperm.map Instruction.cmdNo).nodup_iff.mpr hkeys
    · intro hnumbers
      have hlength := hperm.length_eq
      rw [hdistinct.mp hnumbers, List.length_append, Nat.left_eq_add] at hlength
      exact List.length_eq_zero_iff.mp hlength
  refine ⟨taken, replaced, kept, lost, htakes, hcommands, hperm, hkept, hlost, hcost, hreplaced,
    fun hnumbers ↦ ⟨hdistinct.mp hnumbers, ?_⟩⟩
  obtain rfl := hreplaced.mpr hnumbers
  cases hlost
  exact hcost

theorem counted_of_build_threeRecords :
    ∃ p, build "wave" "P1" (threeRecords 1).instructions 0 2 = .ok p ∧
      p.commands.values = (threeRecords 1).instructions ∧
      CostTogether "wave" p.commands.values p.cost := by
  obtain ⟨p, h⟩ : ∃ p, build "wave" "P1" (threeRecords 1).instructions 0 2 = .ok p := ⟨_, rfl⟩
  obtain ⟨taken, replaced, kept, lost, htakes, -, -, hkept, -, -, -, hcounted⟩ :=
    counted_of_build h
  have hall : Takes 0 2 (threeRecords 1).instructions (threeRecords 1).instructions :=
    ⟨List.prefix_rfl, .stop, rfl, [_, _], _, rfl, rfl, by decide⟩
  obtain rfl := htakes.unique hall
  obtain ⟨hvalues, hcost⟩ := hcounted (by decide)
  exact ⟨p, h, hvalues, hcost.symm ▸ hkept⟩

/-- When the second record has the number of the first, the program counts both and keeps one. -/
theorem not_forall_counted_kept :
    (¬∀ (label port : String) (instructions : List Instruction) (start stop : Nat) (p : Program),
      build label port instructions start stop = .ok p →
        CostTogether label p.commands.values p.cost) ∧
    ¬∀ (label port : String) (instructions taken : List Instruction) (start stop : Nat)
      (p : Program), build label port instructions start stop = .ok p →
        Takes start stop instructions taken → ∀ i ∈ taken, i ∈ p.commands.values := by
  obtain ⟨p, h, hvectors, hvalues⟩ : ∃ p,
      build "wave" "P1" (threeRecords 0).instructions 0 2 = .ok p ∧ p.cost = ⟨12, 12⟩ ∧
      p.commands.values = (threeRecords 0).instructions.tail := ⟨_, rfl, rfl, rfl⟩
  constructor
  · intro hall
    have htogether := hall _ _ _ _ _ p h
    rw [hvalues, hvectors] at htogether
    -- the two commands that are kept cost seven vectors
    have hseven : CostTogether "wave" (threeRecords 0).instructions.tail
        ((⟨7, 7⟩ : Cost).plus (Cost.zero.plus .zero)) := .cons rfl (.cons rfl .nil)
    exact absurd (htogether.unique hseven) (by decide)
  · intro hall
    have hall' : Takes 0 2 (threeRecords 0).instructions (threeRecords 0).instructions :=
      ⟨List.prefix_rfl, .stop, rfl, [_, _], _, rfl, rfl, by decide⟩
    have hmem := hall _ _ _ _ _ _ p h hall' ⟨0, .genv, "5", "", "SM", "P1"⟩ (by decide)
    rw [hvalues] at hmem
    exact absurd hmem (by decide)

end Program

end TesterSetup
