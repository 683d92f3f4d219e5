import TesterSetup.Container
import TesterSetup.OrderedMap

/-!
# Laws of look-ups

What the proofs about resolutions use of ordered maps and containers. An ordered map is determined
by its keys and its look-ups (`OrderedMap.eq_of_get?`), so a map is described completely by saying
which keys it has, in which order, and what stands under each. A container finds a part under its
own key only (`Container.key_of_get?`).
-/

set_option autoImplicit false

namespace TesterSetup

namespace OrderedMap

variable {α β : Type}

theorem keys_nodup (m : OrderedMap α β) : m.keys.Nodup :=
  m.nodup

@[simp] theorem keys_empty : (empty : OrderedMap α β).keys = [] := rfl

theorem keys_map {γ : Type} (f : β → γ) (m : OrderedMap α β) : (m.map f).keys = m.keys := by
  simp [keys, map, Function.comp_def]

variable [DecidableEq α]

theorem lookup_eq_some_iff {k : α} {v : β} {l : List (α × β)} (h : (l.map Prod.fst).Nodup) :
    lookup k l = some v ↔ (k, v) ∈ l := by
  induction l with
  | nil => simp [lookup]
  | cons e rest ih =>
    obtain ⟨a, b⟩ := e
    rw [List.map_cons, List.nodup_cons] at h
    by_cases hk : a = k
    · subst hk
      have hrest : (a, v) ∉ rest := fun hmem ↦ h.1 (List.mem_map.mpr ⟨_, hmem, rfl⟩)
      simp [lookup, hrest, eq_comm]
    · have hk' : ¬k = a := fun e ↦ hk e.symm
      simp [lookup, hk, hk', ih h.2]

theorem get?_eq_some_iff {m : OrderedMap α β} {k : α} {v : β} :
    m.get? k = some v ↔ (k, v) ∈ m.entries :=
  lookup_eq_some_iff m.nodup

theorem get?_insert_of_ne {m : OrderedMap α β} {k k' : α} (h : k ≠ k') (v : β) :
    (m.insert k v).get? k' = m.get? k' := by
  rw [get?_insert, if_neg h]

/-- Two maps with the same keys in the same order and the same look-ups are the same map. -/
theorem eq_of_get? {m n : OrderedMap α β} (hkeys : m.keys = n.keys)
    (hget : ∀ k, m.get? k = n.get? k) : m = n := by
  refine OrderedMap.ext (List.ext_getElem? fun i ↦ ?_)
  have hkey := congrArg (·[i]?) hkeys
  simp only [keys, List.getElem?_map] at hkey
  cases hm : m.entries[i]? with
  | none =>
    rw [hm, Option.map_none, eq_comm, Option.map_eq_none_iff] at hkey
    exact hkey.symm
  | some e =>
    rw [hm, Option.map_some, eq_comm, Option.map_eq_some_iff] at hkey
    obtain ⟨f, hf, hfst⟩ := hkey
    have hme := get?_eq_some_iff.mpr (List.mem_of_getElem? hm)
    have hnf := get?_eq_some_iff.mpr (List.mem_of_getElem? hf)
    rw [← hget, hfst, hme] at hnf
    rw [hf, Prod.ext hfst (Option.some.inj hnf).symm]

theorem write_of_notMem {k : α} {l : List (α × β)} (h : k ∉ l.map Prod.fst) (v : β) :
    write k v l = l ++ [(k, v)] := by
  induction l with
  | nil => rfl
  | cons e rest ih =>
    obtain ⟨a, b⟩ := e
    rw [List.map_cons, List.mem_cons, not_or] at h
    rw [write, if_neg (Ne.symm h.1), ih h.2, List.cons_append]

theorem entries_insert_of_notMem {m : OrderedMap α β} {k : α} (h : k ∉ m.keys) (v : β) :
    (m.insert k v).entries = m.entries ++ [(k, v)] :=
  write_of_notMem h v

theorem size_insert_of_get?_eq_none {m : OrderedMap α β} {k : α} (h : m.get? k = none) (v : β) :
    (m.insert k v).size = m.size + 1 := by
  rw [size, entries_insert_of_notMem (get?_eq_none_iff.mp h), List.length_append]
  rfl

theorem mem_keys_insert {m : OrderedMap α β} {k k' : α} {v : β} :
    k' ∈ (m.insert k v).keys ↔ k' ∈ m.keys ∨ k' = k := by
  rw [keys_insert]
  split
  · rename_i hk
    exact ⟨.inl, fun h ↦ h.elim id fun heq ↦ heq ▸ hk⟩
  · rw [List.mem_append, List.mem_singleton]

/-- Of distinct keys the first new one may be written at once. -/
theorem nodup_keys_insert_append {m : OrderedMap α β} {k : α} {keys : List α}
    (h : (m.keys ++ k :: keys).Nodup) (v : β) :
    k ∉ m.keys ∧ ((m.insert k v).keys ++ keys).Nodup := by
  have hnew : k ∉ m.keys := fun hmem ↦
    (List.nodup_append.mp h).2.2 k hmem k List.mem_cons_self rfl
  refine ⟨hnew, ?_⟩
  rwa [keys_insert, if_neg hnew, List.append_assoc]

theorem map_write {γ : Type} (f : β → γ) (k : α) (v : β) (l : List (α × β)) :
    (write k v l).map (fun e ↦ (e.1, f e.2)) = write k (f v) (l.map fun e ↦ (e.1, f e.2)) := by
  induction l with
  | nil => rfl
  | cons e rest ih =>
    obtain ⟨a, b⟩ := e
    by_cases h : a = k
    · simp [write, h]
    · simp [write, h, ih]

/-- A value is written before all are changed, or changed as it is written. -/
theorem map_insert {γ : Type} (f : β → γ) (m : OrderedMap α β) (k : α) (v : β) :
    (m.insert k v).map f = (m.map f).insert k (f v) :=
  OrderedMap.ext (map_write f k v m.entries)

theorem contains_map {γ : Type} (f : β → γ) (m : OrderedMap α β) (k : α) :
    (m.map f).contains k = m.contains k := by
  rw [Bool.eq_iff_iff, contains_iff, contains_iff, keys_map]

theorem mem_entries_insert {m : OrderedMap α β} {k : α} {v : β} {e : α × β}
    (h : e ∈ (m.insert k v).entries) : e = (k, v) ∨ e ∈ m.entries := by
  obtain ⟨a, b⟩ := e
  rw [← get?_eq_some_iff, get?_insert] at h
  split at h
  · rename_i hk
    rw [hk, Option.some.inj h]
    exact .inl rfl
  · exact .inr (get?_eq_some_iff.mp h)

theorem mem_entries_insertAll {m : OrderedMap α β} {l : List (α × β)} {e : α × β}
    (h : e ∈ (m.insertAll l).entries) : e ∈ m.entries ∨ e ∈ l := by
  induction l generalizing m with
  | nil => exact .inl h
  | cons f rest ih =>
    rcases ih h with hmem | hmem
    · rcases mem_entries_insert hmem with rfl | hmem
      · exact .inr List.mem_cons_self
      · exact .inl hmem
    · exact .inr (List.mem_cons_of_mem f hmem)

/-- Entries whose keys are new and distinct are appended. -/
theorem entries_insertAll {m : OrderedMap α β} {l : List (α × β)}
    (h : (m.keys ++ l.map Prod.fst).Nodup) : (m.insertAll l).entries = m.entries ++ l := by
  induction l generalizing m with
  | nil => exact (List.append_nil m.entries).symm
  | cons e rest ih =>
    obtain ⟨hnew, hrest⟩ := nodup_keys_insert_append h e.2
    calc ((m.insert e.1 e.2).insertAll rest).entries
        = (m.insert e.1 e.2).entries ++ rest := ih hrest
      _ = m.entries ++ e :: rest := by
          rw [entries_insert_of_notMem hnew, List.append_assoc, List.singleton_append]

end OrderedMap

namespace Container

variable {α κ : Type} [Keyed α κ] [DecidableEq κ]

theorem key_of_get? {c : Container α} {k : κ} {a : α} (h : c.get? k = some a) :
    Keyed.key a = k := by
  simpa using List.find?_some h

theorem mem_of_get? {c : Container α} {k : κ} {a : α} (h : c.get? k = some a) : a ∈ c.items :=
  List.mem_of_find?_eq_some h

theorem get?_eq_none_iff {c : Container α} {k : κ} : c.get? k = none ↔ k ∉ c.keys := by
  simp [get?, keys]

theorem find?_put_self {items : List α} {a : α} (h : Keyed.key a ∈ items.map Keyed.key) :
    (put a items).find? (fun b ↦ Keyed.key b = Keyed.key a) = some a := by
  unfold put
  induction items with
  | nil => simp at h
  | cons first rest ih =>
    by_cases hfirst : Keyed.key first = Keyed.key a
    · simp [hfirst]
    · rw [List.map_cons, List.mem_cons] at h
      rw [List.map_cons, if_neg hfirst, List.find?_cons_of_neg (by simpa using hfirst)]
      exact ih (h.resolve_left (Ne.symm hfirst))

/-- A part that takes the place of another is found under its key. -/
theorem get?_replace_self {c : Container α} {a : α} (h : Keyed.key a ∈ c.keys) :
    (c.replace a).get? (Keyed.key a) = some a :=
  find?_put_self h

end Container

end TesterSetup
