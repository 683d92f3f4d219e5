import Mathlib.Data.List.Induction
import TesterSetup.Proofs.GrowingModels

/-!
# What was opened last

Many lines of a setup belong to what an earlier line opened. Which line opens something depends on
what has been read before it (`OpensAt`). The line that opened last is found by following a run
(`LastOpening`, or `OpenedLast` for a stretch of the lines): when a state keeps what was opened last
and every step either opens something or leaves it, then what the state keeps after a run is what
the last opening line of the run opened, and it keeps nothing only if no line opened anything
(`openedLast_of_run`, `lastOpening_of_run`).

When a state keeps all that was opened, it has what some line of its run opened and nothing else
(`exists_opensAt_iff`). The same holds of anything that lines put into a state
(`exists_line_iff`).
-/

set_option autoImplicit false

namespace TesterSetup

open TesterSetup.Text

section Openings

variable {σ τ : Type} {run : List Line → Except ReadError σ} {opens : σ → Line → Option τ}
  {front lines between : List Line} {line : Line} {opened : τ}

/-- A line that comes after some lines opens something. -/
def OpensAt (run : List Line → Except ReadError σ) (opens : σ → Line → Option τ)
    (before : List Line) (line : Line) (opened : τ) : Prop :=
  ∃ r, run before = .ok r ∧ opens r line = some opened

/-- None of the lines that come after some others opens anything. -/
def NoOpening (run : List Line → Except ReadError σ) (opens : σ → Line → Option τ)
    (front lines : List Line) : Prop :=
  ∀ mid later rest opened, lines = mid ++ later :: rest →
    ¬OpensAt run opens (front ++ mid) later opened

/-- The last of some lines that opens something, with what it opens. -/
structure LastOpening (run : List Line → Except ReadError σ) (opens : σ → Line → Option τ)
    (lines front : List Line) (line : Line) (between : List Line) (opened : τ) : Prop where
  lines_eq : lines = front ++ line :: between
  opensAt : OpensAt run opens front line opened
  last : NoOpening run opens (front ++ [line]) between

theorem noOpening_nil (front : List Line) : NoOpening run opens front [] := by
  intro mid later rest opened h
  simp at h

theorem noOpening_concat (h : NoOpening run opens front lines)
    (hline : ∀ opened, ¬OpensAt run opens (front ++ lines) line opened) :
    NoOpening run opens front (lines ++ [line]) := by
  intro mid later rest opened hsplit
  rcases rest.eq_nil_or_concat with rfl | ⟨others, last, rfl⟩
  · obtain ⟨rfl, hlater⟩ := List.append_inj' hsplit rfl
    cases hlater
    exact hline opened
  · rw [List.concat_eq_append, ← List.cons_append, ← List.append_assoc] at hsplit
    obtain ⟨hlines, -⟩ := List.append_inj' hsplit rfl
    exact h mid later others opened hlines

theorem LastOpening.not_noOpening (h : LastOpening run opens lines front line between opened) :
    ¬NoOpening run opens [] lines :=
  fun hnone ↦ hnone front line between opened h.lines_eq h.opensAt

/-- The lines of a stretch that opens nothing open nothing. -/
theorem NoOpening.opens_eq_none {mid rest : List Line} {s : σ}
    (h : NoOpening run opens front lines) (hlines : lines = mid ++ line :: rest)
    (hs : run (front ++ mid) = .ok s) : opens s line = none :=
  Option.eq_none_iff_forall_ne_some.mpr fun opened hopens ↦
    h mid line rest opened hlines ⟨s, hs, hopens⟩

theorem NoOpening.of_append_left {rest : List Line}
    (h : NoOpening run opens front (lines ++ rest)) : NoOpening run opens front lines := by
  rintro mid later others opened rfl
  exact h mid later (others ++ rest) opened (by simp)

theorem NoOpening.of_append_right {rest : List Line}
    (h : NoOpening run opens front (lines ++ rest)) : NoOpening run opens (front ++ lines) rest := by
  rintro mid later others opened rfl
  rw [List.append_assoc]
  exact h (lines ++ mid) later others opened (by simp)

/-- A line that opens nothing by its own text opens nothing wherever it stands. -/
theorem noOpening_of_forall (h : ∀ r, ∀ l ∈ lines, opens r l = none) :
    NoOpening run opens front lines := by
  rintro mid later rest opened rfl ⟨r, -, hopens⟩
  rw [h r later (by simp)] at hopens
  cases hopens

end Openings

section Stretches

variable {σ τ : Type} {run : List Line → Except ReadError σ} {opens : σ → Line → Option τ}
  {front lines : List Line} {line : Line}

/-- What the last line of a stretch opens, of those that open something, and nothing when none of
them does. A stretch is given with the lines in front of it. -/
def OpenedLast (run : List Line → Except ReadError σ) (opens : σ → Line → Option τ)
    (front lines : List Line) : Option τ → Prop
  | none => NoOpening run opens front lines
  | some opened => ∃ mid line rest, lines = mid ++ line :: rest ∧
      OpensAt run opens (front ++ mid) line opened ∧
      NoOpening run opens (front ++ mid ++ [line]) rest

/-- One more line of a stretch that opens something. -/
theorem openedLast_concat_of_opensAt {opened : τ}
    (hline : OpensAt run opens (front ++ lines) line opened) :
    OpenedLast run opens front (lines ++ [line]) (some opened) :=
  ⟨lines, line, [], rfl, hline, noOpening_nil _⟩

theorem OpenedLast.eq_none {last : Option τ} (h : OpenedLast run opens front lines last)
    (hnone : NoOpening run opens front lines) : last = none := by
  cases last with
  | none => rfl
  | some opened =>
    obtain ⟨mid, opening, rest, hlines, hopens, -⟩ := h
    exact absurd hopens (hnone mid opening rest opened hlines)

/-- What was kept before a stretch does not matter when a line of it opens something. -/
theorem OpenedLast.or_eq {last : Option τ} (h : OpenedLast run opens front lines last)
    (hsome : ¬NoOpening run opens front lines) (kept : Option τ) : last.or kept = last := by
  cases last with
  | none => exact absurd h hsome
  | some opened => rfl

/-- One more line of a stretch that opens nothing. -/
theorem OpenedLast.concat {last : Option τ} (h : OpenedLast run opens front lines last)
    (hline : ∀ opened, ¬OpensAt run opens (front ++ lines) line opened) :
    OpenedLast run opens front (lines ++ [line]) last := by
  cases last with
  | none => exact noOpening_concat h hline
  | some opened =>
    obtain ⟨mid, opening, rest, rfl, hopens, hrest⟩ := h
    refine ⟨mid, opening, rest ++ [line], by simp, hopens, noOpening_concat hrest ?_⟩
    have hlines : front ++ mid ++ [opening] ++ rest = front ++ (mid ++ opening :: rest) := by simp
    rw [hlines]
    exact hline

end Stretches

section Runs

variable {σ τ : Type} {origin : String} {read : σ → Line → LineResult σ} {start r : σ}
  {opens : σ → Line → Option τ} {front lines : List Line}

/-- What a state keeps as opened last after a stretch is what the last opening line of the stretch
opened, or what it kept before the stretch if no line of it opens anything. -/
theorem openedLast_of_run {r₀ : σ} (opens : σ → Line → Option τ) (track : σ → Option τ)
    (hfront : readLines origin read start front = .ok r₀)
    (hrun : readLines origin read r₀ lines = .ok r)
    (hstep : ∀ mid line rest s s', lines = mid ++ line :: rest →
      readLines origin read start (front ++ mid) = .ok s → read s line = .ok s' →
      track s' = (opens s line).or (track s)) :
    ∃ last, OpenedLast (readLines origin read start) opens front lines last ∧
      track r = last.or (track r₀) := by
  induction lines using List.reverseRecOn generalizing r with
  | nil =>
    cases hrun
    exact ⟨none, noOpening_nil _, rfl⟩
  | append_singleton lines line ih =>
    obtain ⟨s, hs, hlast⟩ := readLines_append_eq_ok_iff.mp hrun
    obtain ⟨s', hread, hend⟩ := readLines_cons_eq_ok_iff.mp hlast
    cases hend
    have hall : readLines origin read start (front ++ lines) = .ok s :=
      readLines_append_eq_ok_iff.mpr ⟨r₀, hfront, hs⟩
    have htrack := hstep lines line [] s _ rfl hall hread
    cases hopens : opens s line with
    | some opened =>
      rw [hopens, Option.some_or] at htrack
      refine ⟨some opened, openedLast_concat_of_opensAt ⟨s, hall, hopens⟩, ?_⟩
      rw [htrack, Option.some_or]
    | none =>
      obtain ⟨last, hopened, hkept⟩ := ih hs fun mid line' rest s s' hsplit ↦
        hstep mid line' (rest ++ [line]) s s' (by rw [hsplit]; simp)
      refine ⟨last, hopened.concat ?_, ?_⟩
      · -- the state before a line is the only one that its run ends in
        rintro other ⟨s₁, hs₁, hother⟩
        rw [hall] at hs₁
        cases hs₁
        rw [hopens] at hother
        cases hother
      · rw [htrack, hopens, Option.none_or, hkept]

/-- What a state keeps as opened last is what the last opening line of its run opened. -/
theorem lastOpening_of_run (track : σ → Option τ) (hstart : track start = none)
    (hstep : ∀ before s line s', readLines origin read start before = .ok s →
      read s line = .ok s' → track s' = (opens s line).or (track s))
    (hrun : readLines origin read start lines = .ok r) :
    (track r = none → NoOpening (readLines origin read start) opens [] lines) ∧
      ∀ opened, track r = some opened → ∃ front line between,
        LastOpening (readLines origin read start) opens lines front line between opened := by
  have hnil : readLines origin read start [] = .ok start := rfl
  obtain ⟨last, hlast, hkept⟩ := openedLast_of_run opens track hnil hrun
    fun mid line _ s s' _ hs hread ↦ hstep mid s line s' hs hread
  rw [hstart, Option.or_none] at hkept
  rw [hkept]
  constructor
  · rintro rfl
    exact hlast
  · rintro opened rfl
    obtain ⟨mid, line, rest, hlines, hopens, hrest⟩ := hlast
    exact ⟨mid, line, rest, hlines, hopens, hrest⟩

/-- What a state has and its start has not was put there by a line of its run. -/
theorem exists_line_of_has (has : σ → τ → Prop) (puts : σ → Line → τ → Prop)
    (hstart : ∀ a, ¬has start a)
    (hstep : ∀ before s line s', readLines origin read start before = .ok s →
      read s line = .ok s' → ∀ a, has s' a → has s a ∨ puts s line a)
    (hrun : readLines origin read start lines = .ok r) {a : τ} (ha : has r a) :
    ∃ before line after, lines = before ++ line :: after ∧
      ∃ s, readLines origin read start before = .ok s ∧ puts s line a := by
  induction lines using List.reverseRecOn generalizing r with
  | nil =>
    cases hrun
    exact absurd ha (hstart a)
  | append_singleton lines line ih =>
    obtain ⟨s, hs, hlast⟩ := readLines_append_eq_ok_iff.mp hrun
    obtain ⟨s', hread, hend⟩ := readLines_cons_eq_ok_iff.mp hlast
    cases hend
    rcases hstep lines s line _ hs hread a ha with hold | hputs
    · obtain ⟨before, putting, after, rfl, hfound⟩ := ih hs hold
      exact ⟨before, putting, after ++ [line], by simp, hfound⟩
    · exact ⟨lines, line, [], rfl, s, hs, hputs⟩

/-- A state that keeps all that is put there has what the lines of its run put there. -/
theorem exists_line_iff (has : σ → τ → Prop) (puts : σ → Line → τ → Prop)
    (hstart : ∀ a, ¬has start a)
    (hstep : ∀ before s line s', readLines origin read start before = .ok s →
      read s line = .ok s' → ∀ a, has s' a ↔ has s a ∨ puts s line a)
    (hrun : readLines origin read start lines = .ok r) (a : τ) :
    has r a ↔ ∃ before line after, lines = before ++ line :: after ∧
      ∃ s, readLines origin read start before = .ok s ∧ puts s line a := by
  refine ⟨exists_line_of_has has puts hstart
    (fun before s line s' hs hread a ↦ (hstep before s line s' hs hread a).mp) hrun, ?_⟩
  rintro ⟨before, line, after, rfl, s, hs, hputs⟩
  obtain ⟨s₁, hs₁, hrest⟩ := readLines_append_eq_ok_iff.mp hrun
  cases hs.symm.trans hs₁
  obtain ⟨s', hread, hafter⟩ := readLines_cons_eq_ok_iff.mp hrest
  have hnext : readLines origin read start (before ++ [line]) = .ok s' :=
    readLines_append_eq_ok_iff.mpr ⟨s, hs, readLines_cons_eq_ok_iff.mpr ⟨s', hread, rfl⟩⟩
  -- no line after it takes away what it has put there
  have hkept : readLines origin read start (before ++ [line] ++ after) = .ok r ∧ has r a :=
    readLines_induction_front
      (P := fun front t ↦ readLines origin read start front = .ok t ∧ has t a) hafter
      ⟨hnext, (hstep before s line s' hs hread a).mpr (.inr hputs)⟩
      fun front t t' later _ ⟨ht, hold⟩ hlater ↦
        ⟨readLines_append_eq_ok_iff.mpr ⟨t, ht, readLines_cons_eq_ok_iff.mpr ⟨t', hlater, rfl⟩⟩,
          (hstep front t later t' ht hlater a).mpr (.inl hold)⟩
  exact hkept.2

/-- A state that keeps all that was opened has what the lines of its run opened. -/
theorem exists_opensAt_iff (opens : σ → Line → Option τ) (has : σ → τ → Prop)
    (hstart : ∀ a, ¬has start a)
    (hstep : ∀ before s line s', readLines origin read start before = .ok s →
      read s line = .ok s' → ∀ a, has s' a ↔ has s a ∨ opens s line = some a)
    (hrun : readLines origin read start lines = .ok r) (a : τ) :
    has r a ↔ ∃ before line after, lines = before ++ line :: after ∧
      OpensAt (readLines origin read start) opens before line a :=
  exists_line_iff has (fun s line a ↦ opens s line = some a) hstart hstep hrun a

end Runs

end TesterSetup
