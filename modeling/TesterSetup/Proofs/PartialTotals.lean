import TesterSetup.Proofs.BurstTotals

/-!
# Totals after a failed addition

A called label is added to the total of a port one counter after the other. When every sum fits, the
total is the exact sum (`PortCost.addLabel_of_fits`). A sum that does not fit ends the addition with
an overflow, but the counters in front of it have their sums by then: what is left holds the sums up
to the first that does not fit and the old counters from there on (`PortCost.counters_addLabel`).
Such a total counts vectors or cycles of a label that it does not count, unless nothing was written
or what was written added nothing (`PortCost.addLabel_leaves`,
`PortCost.not_forall_adds_or_leaves`). Costing a burst gives up with the first failed addition and
drops the total with it.
-/

set_option autoImplicit false

namespace TesterSetup

namespace PortCost

/-- The counters of a total in the order in which they are added to. -/
def counters (t : PortCost) : List Nat :=
  [t.vectors, t.cycles, t.labels]

/-- The sums of a total and a label's cost in front of the first that does not fit. -/
def written (total : PortCost) (c : Cost) : List Nat :=
  (total.plus (.ofCost c)).counters.takeWhile (· < counterBound)

/-- What is written of a label that does not fit adds nothing to a total. -/
def Untouched (total : PortCost) (c : Cost) : Prop :=
  counterBound ≤ total.vectors + c.vectors ∨
    c.vectors = 0 ∧ (counterBound ≤ total.cycles + c.cycles ∨ c.cycles = 0)

variable {total : PortCost} {c : Cost}

theorem eq_iff_counters {a b : PortCost} : a = b ↔ a.counters = b.counters := by
  cases a
  cases b
  simp [counters]

/-- Adding a label leaves the sums in front of the first that does not fit, and the old counters
behind them. -/
theorem counters_addLabel (burst : String) (total : PortCost) (c : Cost) :
    (total.addLabel burst c).1.counters =
      total.written c ++ total.counters.drop (total.written c).length := by
  unfold written addLabel fits?
  by_cases hvectors : total.vectors + c.vectors < counterBound
  · by_cases hcycles : total.cycles + c.cycles < counterBound
    · by_cases hlabels : total.labels + 1 < counterBound <;>
        simp [counters, plus, ofCost, hvectors, hcycles, hlabels]
    · simp [counters, plus, ofCost, hvectors, hcycles]
  · simp [counters, plus, ofCost, hvectors]

/-- A failed addition leaves a total as it was exactly when nothing was added before the sum that
does not fit. It never counts the label. -/
theorem addLabel_eq_self_iff (burst : String) (h : ¬(total.plus (.ofCost c)).Fits) :
    ((total.addLabel burst c).1 = total ↔ total.Untouched c) ∧
      (total.addLabel burst c).1.labels = total.labels := by
  unfold Untouched addLabel fits?
  by_cases hvectors : total.vectors + c.vectors < counterBound
  · by_cases hcycles : total.cycles + c.cycles < counterBound
    · have hlabels : ¬total.labels + 1 < counterBound := fun hlabels ↦
        h ⟨hvectors, hcycles, hlabels⟩
      simp [eq_iff_counters, counters, hvectors, hcycles, hlabels, Nat.not_le.mpr]
    · simp [eq_iff_counters, counters, hvectors, hcycles, Nat.not_le.mpr, Nat.le_of_not_lt]
  · simp [hvectors, Nat.le_of_not_lt]

/-- Adding a label to a total gives the exact sum when that fits the counters. Otherwise it fails
with an overflow for the burst, counts no label, and leaves the sums in front of the first that does
not fit and the old counters behind them; so the total is as it was exactly when these sums added
nothing. -/
theorem addLabel_adds_or_leaves (burst : String) (total : PortCost) (c : Cost) :
    ((total.plus (.ofCost c)).Fits → total.addLabel burst c = (total.plus (.ofCost c), none)) ∧
      (¬(total.plus (.ofCost c)).Fits →
        ∃ left, total.addLabel burst c = (left, some (.countOverflow burst)) ∧
          left.labels = total.labels ∧
          left.counters = total.written c ++ total.counters.drop (total.written c).length ∧
          (left = total ↔ total.Untouched c)) := by
  refine ⟨fun hfits ↦ addLabel_of_fits burst hfits, fun hover ↦ ?_⟩
  obtain ⟨hself, hlabels⟩ := addLabel_eq_self_iff burst hover
  have hcomplaint := addLabel_of_not_fits burst hover
  exact ⟨(total.addLabel burst c).1, Prod.ext rfl hcomplaint, hlabels,
    counters_addLabel burst total c, hself⟩

/-- A port has called one label of as many cycles as a counter holds, and calls one of a single
vector and cycle. -/
def manyCycles : PortCost :=
  ⟨1, counterBound - 1, 1⟩

theorem addLabel_adds_or_leaves_manyCycles :
    ¬(manyCycles.plus (.ofCost ⟨1, 1⟩)).Fits ∧
      (∃ left, manyCycles.addLabel "all" ⟨1, 1⟩ = (left, some (.countOverflow "all")) ∧
        left.counters = [2, counterBound - 1, 1] ∧ left ≠ manyCycles) ∧
      (manyCycles.plus (.ofCost ⟨1, 0⟩)).Fits ∧
      manyCycles.addLabel "all" ⟨1, 0⟩ = (⟨2, counterBound - 1, 2⟩, none) := by
  have hover : ¬(manyCycles.plus (.ofCost ⟨1, 1⟩)).Fits := by decide
  have hfits : (manyCycles.plus (.ofCost ⟨1, 0⟩)).Fits := by decide
  obtain ⟨left, hadd, -, hleft, hself⟩ :=
    (addLabel_adds_or_leaves "all" manyCycles ⟨1, 1⟩).2 hover
  have htouched : ¬manyCycles.Untouched ⟨1, 1⟩ := by
    unfold Untouched
    decide
  exact ⟨hover, ⟨left, hadd, hleft, fun heq ↦ htouched (hself.mp heq)⟩, hfits,
    (addLabel_adds_or_leaves "all" manyCycles ⟨1, 0⟩).1 hfits⟩

/-- After the cycles have left the counters, the vectors of the label stay counted. -/
theorem not_forall_adds_or_leaves :
    ¬∀ (burst : String) (total : PortCost) (c : Cost), total.Fits → c.Fits →
      total.addLabel burst c = (total.plus (.ofCost c), none) ∨
        total.addLabel burst c = (total, some (.countOverflow burst)) := by
  intro hall
  have hadd : manyCycles.addLabel "all" ⟨1, 1⟩ =
      (⟨2, counterBound - 1, 1⟩, some (.countOverflow "all")) := rfl
  have hkept := hall "all" manyCycles ⟨1, 1⟩ (by decide) (by constructor <;> decide)
  rw [hadd] at hkept
  exact absurd hkept (by decide)

end PortCost

end TesterSetup
