import Mathlib.Data.Finset.Card
import Mathlib.Data.Finset.Dedup

/-!
# Repeated requests

How often a cache that keeps every success and no failure has the answer. Requests are taken in
order and `ok` says which of them succeed. A request is a repetition when an equal one before it
succeeded (`repeats`); all others have to be worked out (`workedOut`). `CacheCounts` says that the
counters of a cache are what these notions give, and there is one lemma for each way in which a
request can go: the answer is kept, it is found, there is none.
-/

set_option autoImplicit false

namespace TesterSetup

variable {α : Type} [DecidableEq α] (ok : α → Bool)

/-- Whether the request at a place repeats one before it that succeeded. -/
def repeats (asked : List α) (place : Nat) : Bool :=
  asked[place]?.any fun a ↦ ok a && (asked.take place).contains a

/-- The number of requests that repeat one before them that succeeded. -/
def repeatCount (asked : List α) : Nat :=
  (List.range asked.length).countP (repeats ok asked)

/-- The requests that repeat no success, in order. -/
def workedOut (asked : List α) : List α :=
  ((List.range asked.length).filter fun place ↦ !repeats ok asked place).filterMap
    fun place ↦ asked[place]?

/-- The distinct requests that succeeded. -/
def successes (asked : List α) : Finset α :=
  (asked.filter ok).toFinset

variable {ok} {asked : List α} {a : α}

theorem mem_successes_iff : a ∈ successes ok asked ↔ a ∈ asked ∧ ok a = true := by
  rw [successes, List.mem_toFinset, List.mem_filter]

/-! ### One more request -/

theorem repeats_append_of_lt {place : Nat} (h : place < asked.length) :
    repeats ok (asked ++ [a]) place = repeats ok asked place := by
  rw [repeats, repeats, List.getElem?_append_left h, List.take_append_of_le_length (Nat.le_of_lt h)]

theorem repeats_append_length :
    repeats ok (asked ++ [a]) asked.length = (ok a && asked.contains a) := by
  rw [repeats, List.getElem?_concat_length, List.take_left]
  rfl

theorem repeatCount_append :
    repeatCount ok (asked ++ [a]) =
      repeatCount ok asked + if ok a = true ∧ a ∈ asked then 1 else 0 := by
  have hbefore : (List.range asked.length).countP (repeats ok (asked ++ [a])) =
      repeatCount ok asked := by
    refine List.countP_congr fun place hplace ↦ ?_
    rw [repeats_append_of_lt (List.mem_range.mp hplace)]
  rw [repeatCount, List.length_append, List.length_singleton, List.range_succ, List.countP_append,
    hbefore, List.countP_singleton, repeats_append_length]
  simp only [Bool.and_eq_true, List.contains_iff_mem]

theorem workedOut_append :
    workedOut ok (asked ++ [a]) =
      workedOut ok asked ++ if ok a = true ∧ a ∈ asked then [] else [a] := by
  have hbefore : ((List.range asked.length).filter fun place ↦
        !repeats ok (asked ++ [a]) place).filterMap (fun place ↦ (asked ++ [a])[place]?) =
      workedOut ok asked := by
    rw [workedOut, List.filter_congr fun place hplace ↦ by
      rw [repeats_append_of_lt (List.mem_range.mp hplace)]]
    refine List.filterMap_congr fun place hplace ↦ ?_
    exact List.getElem?_append_left (List.mem_range.mp (List.mem_filter.mp hplace).1)
  rw [workedOut, List.length_append, List.length_singleton, List.range_succ, List.filter_append,
    List.filterMap_append, hbefore]
  by_cases hrepeat : ok a = true ∧ a ∈ asked
  · have hplace : repeats ok (asked ++ [a]) asked.length = true := by
      rw [repeats_append_length, hrepeat.1, Bool.true_and]
      exact List.contains_iff_mem.mpr hrepeat.2
    rw [if_pos hrepeat]
    simp [hplace]
  · have hplace : repeats ok (asked ++ [a]) asked.length = false := by
      rw [repeats_append_length, Bool.eq_false_iff, ne_eq, Bool.and_eq_true,
        List.contains_iff_mem]
      exact hrepeat
    rw [if_neg hrepeat]
    simp [hplace]

theorem successes_append :
    successes ok (asked ++ [a]) =
      if ok a = true then insert a (successes ok asked) else successes ok asked := by
  ext b
  by_cases ha : ok a = true
  · rw [if_pos ha, Finset.mem_insert, mem_successes_iff, mem_successes_iff, List.mem_append,
      List.mem_singleton]
    constructor
    · rintro ⟨hmem | rfl, hb⟩
      · exact .inr ⟨hmem, hb⟩
      · exact .inl rfl
    · rintro (rfl | ⟨hmem, hb⟩)
      · exact ⟨.inr rfl, ha⟩
      · exact ⟨.inl hmem, hb⟩
  · rw [if_neg ha, mem_successes_iff, mem_successes_iff, List.mem_append, List.mem_singleton]
    constructor
    · rintro ⟨hmem | rfl, hb⟩
      · exact ⟨hmem, hb⟩
      · exact absurd hb ha
    · exact fun ⟨hmem, hb⟩ ↦ ⟨.inl hmem, hb⟩

/-! ### Counters -/

/-- The counters of a cache that keeps every success and no failure. -/
structure CacheCounts (ok : α → Bool) (asked : List α) (hits misses entries : Nat) : Prop where
  hits_eq : hits = repeatCount ok asked
  total : hits + misses = asked.length
  entries_eq : entries = (successes ok asked).card

namespace CacheCounts

variable {hits misses entries : Nat}

theorem nil (ok : α → Bool) : CacheCounts ok [] 0 0 0 :=
  ⟨rfl, rfl, rfl⟩

/-- The answer is kept. -/
theorem hit (h : CacheCounts ok asked hits misses entries) (ha : ok a = true)
    (hmem : a ∈ asked) : CacheCounts ok (asked ++ [a]) (hits + 1) misses entries where
  hits_eq := by rw [repeatCount_append, if_pos ⟨ha, hmem⟩, h.hits_eq]
  total := by
    rw [List.length_append, List.length_singleton, ← h.total, Nat.add_right_comm]
  entries_eq := by
    rw [successes_append, if_pos ha, Finset.insert_eq_of_mem (mem_successes_iff.mpr ⟨hmem, ha⟩),
      h.entries_eq]

/-- The answer is found, and kept from then on. -/
theorem found (h : CacheCounts ok asked hits misses entries) (ha : ok a = true)
    (hmem : a ∉ asked) : CacheCounts ok (asked ++ [a]) hits (misses + 1) (entries + 1) where
  hits_eq := by
    rw [repeatCount_append, if_neg fun hrepeat ↦ hmem hrepeat.2, h.hits_eq, Nat.add_zero]
  total := by
    rw [List.length_append, List.length_singleton, ← h.total, Nat.add_assoc]
  entries_eq := by
    rw [successes_append, if_pos ha,
      Finset.card_insert_of_notMem fun hin ↦ hmem (mem_successes_iff.mp hin).1, h.entries_eq]

/-- There is no answer. -/
theorem failed (h : CacheCounts ok asked hits misses entries) (ha : ok a = false) :
    CacheCounts ok (asked ++ [a]) hits (misses + 1) entries where
  hits_eq := by
    rw [repeatCount_append, if_neg fun hrepeat ↦ Bool.eq_false_iff.mp ha hrepeat.1, h.hits_eq,
      Nat.add_zero]
  total := by
    rw [List.length_append, List.length_singleton, ← h.total, Nat.add_assoc]
  entries_eq := by
    rw [successes_append, if_neg (Bool.eq_false_iff.mp ha), h.entries_eq]

end CacheCounts

end TesterSetup
