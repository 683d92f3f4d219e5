/-!
# Ordered maps

A finite map whose entries stand in the order in which their keys were first written. Writing a
present key replaces its value in place, writing a new one appends. That keys are distinct is part
of the type, so the entries are all there is to a map (`OrderedMap.ext`). Every operation has one
lemma about the keys and one about look-up.
-/

set_option autoImplicit false

namespace TesterSetup

/-- A map in the order of first writes. -/
structure OrderedMap (α β : Type) where
  entries : List (α × β)
  nodup : (entries.map Prod.fst).Nodup

namespace OrderedMap

variable {α β γ : Type}

@[ext]
theorem ext {m n : OrderedMap α β} (h : m.entries = n.entries) : m = n := by
  cases m; cases n; simp_all

theorem nodup_nil : (([] : List (α × β)).map Prod.fst).Nodup := List.Pairwise.nil

/-- The map without entries. -/
def empty : OrderedMap α β := ⟨[], nodup_nil⟩

instance : Inhabited (OrderedMap α β) := ⟨empty⟩

instance : EmptyCollection (OrderedMap α β) := ⟨empty⟩

/-- The keys in order. -/
def keys (m : OrderedMap α β) : List α :=
  m.entries.map Prod.fst

/-- The values in order. -/
def values (m : OrderedMap α β) : List β :=
  m.entries.map Prod.snd

/-- The number of entries. -/
def size (m : OrderedMap α β) : Nat :=
  m.entries.length

/-- Whether there is no entry. -/
def isEmpty (m : OrderedMap α β) : Bool :=
  m.entries.isEmpty

/-- Applies a function to every value. -/
def map (f : β → γ) (m : OrderedMap α β) : OrderedMap α γ where
  entries := m.entries.map fun e => (e.1, f e.2)
  nodup := by simpa [Function.comp_def] using m.nodup

section Lookup

variable [DecidableEq α]

/-- The value under a key in a list of entries. -/
def lookup (k : α) : List (α × β) → Option β
  | [] => none
  | (a, b) :: rest => if a = k then some b else lookup k rest

/-- The value under a key. -/
def get? (m : OrderedMap α β) (k : α) : Option β :=
  lookup k m.entries

/-- Whether a key has a value. -/
def contains (m : OrderedMap α β) (k : α) : Bool :=
  (m.get? k).isSome

/-- The entries after a key was written. -/
def write (k : α) (v : β) : List (α × β) → List (α × β)
  | [] => [(k, v)]
  | (a, b) :: rest => if a = k then (a, v) :: rest else (a, b) :: write k v rest

theorem lookup_eq_none_iff {k : α} {l : List (α × β)} :
    lookup k l = none ↔ k ∉ l.map Prod.fst := by
  induction l with
  | nil => simp [lookup]
  | cons e rest ih =>
    obtain ⟨a, b⟩ := e
    by_cases h : a = k
    · simp [lookup, h]
    · have h' : ¬k = a := fun e => h e.symm
      simp [lookup, h, h', ih]

theorem map_fst_write (k : α) (v : β) (l : List (α × β)) :
    (write k v l).map Prod.fst =
      if k ∈ l.map Prod.fst then l.map Prod.fst else l.map Prod.fst ++ [k] := by
  induction l with
  | nil => simp [write]
  | cons e rest ih =>
    obtain ⟨a, b⟩ := e
    by_cases h : a = k
    · simp [write, h]
    · have h' : ¬k = a := fun e => h e.symm
      simp only [write, h, if_false, List.map_cons, ih, List.mem_cons, h', false_or]
      split <;> simp

theorem lookup_write (k : α) (v : β) (l : List (α × β)) (k' : α) :
    lookup k' (write k v l) = if k = k' then some v else lookup k' l := by
  induction l with
  | nil => simp [write, lookup]
  | cons e rest ih =>
    obtain ⟨a, b⟩ := e
    by_cases h : a = k
    · subst h
      by_cases h' : a = k' <;> simp [write, lookup, h']
    · simp only [write, h, if_false, lookup, ih]
      by_cases h' : a = k'
      · have : ¬k = k' := fun e => h (h'.trans e.symm)
        simp [h', this]
      · simp [h']

theorem nodup_write {k : α} {v : β} {l : List (α × β)} (h : (l.map Prod.fst).Nodup) :
    ((write k v l).map Prod.fst).Nodup := by
  rw [map_fst_write]
  split
  · exact h
  · rename_i hk
    refine List.nodup_append.2 ⟨h, by simp, fun a ha b hb heq => ?_⟩
    simp only [List.mem_singleton] at hb
    exact hk (hb ▸ heq ▸ ha)

/-- Writes a value under a key. -/
def insert (m : OrderedMap α β) (k : α) (v : β) : OrderedMap α β :=
  ⟨write k v m.entries, nodup_write m.nodup⟩

/-- Writes the entries of a list one after the other. -/
def insertAll (m : OrderedMap α β) (l : List (α × β)) : OrderedMap α β :=
  l.foldl (fun m e => m.insert e.1 e.2) m

/-- The map of a list of entries, of which the last under a key counts. -/
def ofList (l : List (α × β)) : OrderedMap α β :=
  empty.insertAll l

@[simp]
theorem get?_empty (k : α) : (empty : OrderedMap α β).get? k = none := rfl

theorem get?_insert (m : OrderedMap α β) (k : α) (v : β) (k' : α) :
    (m.insert k v).get? k' = if k = k' then some v else m.get? k' :=
  lookup_write k v m.entries k'

@[simp]
theorem get?_insert_self (m : OrderedMap α β) (k : α) (v : β) :
    (m.insert k v).get? k = some v := by
  simp [get?_insert]

theorem get?_eq_none_iff {m : OrderedMap α β} {k : α} : m.get? k = none ↔ k ∉ m.keys :=
  lookup_eq_none_iff

theorem contains_iff {m : OrderedMap α β} {k : α} : m.contains k = true ↔ k ∈ m.keys := by
  rw [contains, Option.isSome_iff_ne_none, Ne, get?_eq_none_iff, Classical.not_not]

theorem keys_insert (m : OrderedMap α β) (k : α) (v : β) :
    (m.insert k v).keys = if k ∈ m.keys then m.keys else m.keys ++ [k] :=
  map_fst_write k v m.entries

end Lookup

end OrderedMap

end TesterSetup
