import TesterSetup.Model.Error

/-!
# Containers

A `Container` holds the parts of a setup that carry their own key (a number or a name), in the
order in which they were added. Keys are distinct by type. Adding a part whose key is taken fails;
`replace` puts a changed part in the place of the one with its key.
-/

set_option autoImplicit false

namespace TesterSetup

/-- A part of a setup that is stored under a key of its own. -/
class Keyed (α : Type) (κ : outParam Type) where
  /-- The key of a part. -/
  key : α → κ
  /-- What a part is called in messages. -/
  kind : String
  /-- A key as messages show it. -/
  keyText : κ → String

/-- Parts with distinct keys, in the order in which they were added. -/
structure Container (α : Type) {κ : Type} [Keyed α κ] where
  items : List α
  nodup : (items.map Keyed.key).Nodup

namespace Container

variable {α κ : Type} [Keyed α κ]

@[ext]
theorem ext {c d : Container α} (h : c.items = d.items) : c = d := by
  cases c; cases d; simp_all

/-- The container without parts. -/
def empty : Container α := ⟨[], .nil⟩

instance : Inhabited (Container α) := ⟨empty⟩

instance : EmptyCollection (Container α) := ⟨empty⟩

/-- The keys in order. -/
def keys (c : Container α) : List κ :=
  c.items.map Keyed.key

/-- The number of parts. -/
def size (c : Container α) : Nat :=
  c.items.length

/-- Whether there is no part. -/
def isEmpty (c : Container α) : Bool :=
  c.items.isEmpty

/-- The part that was added last. -/
def last? (c : Container α) : Option α :=
  c.items.getLast?

section Lookup

variable [DecidableEq κ]

/-- The part under a key. -/
def get? (c : Container α) (k : κ) : Option α :=
  c.items.find? fun a => Keyed.key a = k

/-- Whether a key is taken. -/
def contains (c : Container α) (k : κ) : Bool :=
  c.keys.contains k

/-- The part under a key, which has to be there. -/
def require (c : Container α) (k : κ) : Except ModelError α :=
  match c.get? k with
  | some a => .ok a
  | none => .error (.notFound (Keyed.kind α) (Keyed.keyText α k))

theorem nodup_append_singleton {c : Container α} {a : α} (h : ¬c.contains (Keyed.key a) = true) :
    ((c.items ++ [a]).map Keyed.key).Nodup := by
  simp only [contains, List.contains_iff_mem] at h
  simp only [List.map_append, List.map_cons, List.map_nil]
  refine List.nodup_append.2 ⟨c.nodup, by simp, fun x hx y hy heq => ?_⟩
  simp only [List.mem_singleton] at hy
  exact h (hy ▸ heq ▸ hx)

/-- Adds a part at the end, unless its key is taken. -/
def add (c : Container α) (a : α) : Except ModelError (Container α) :=
  if h : c.contains (Keyed.key a) = true then
    .error (.duplicate (Keyed.kind α) (Keyed.keyText α (Keyed.key a)))
  else .ok ⟨c.items ++ [a], nodup_append_singleton h⟩

/-- Adds parts one after the other, up to the first that fails. -/
def absorb (c : Container α) : List α → Container α × Option ModelError
  | [] => (c, none)
  | a :: rest =>
    match c.add a with
    | .ok d => d.absorb rest
    | .error e => (c, some e)

/-- The items with the one that has the key of `a` replaced by `a`. -/
def put (a : α) (items : List α) : List α :=
  items.map fun b => if Keyed.key b = Keyed.key a then a else b

theorem map_key_put (a : α) (items : List α) :
    (put a items).map Keyed.key = items.map Keyed.key := by
  induction items with
  | nil => rfl
  | cons b rest ih =>
    simp only [put, List.map_cons, List.map_map] at ih ⊢
    refine List.cons_eq_cons.2 ⟨?_, ih⟩
    split
    · rename_i h; exact h.symm
    · rfl

/-- Puts a part in the place of the one that has its key. -/
def replace (c : Container α) (a : α) : Container α :=
  ⟨put a c.items, by rw [map_key_put]; exact c.nodup⟩

/-- Changes the part under a key, which has to be there. -/
def update (c : Container α) (k : κ) (f : α → Except ModelError α) :
    Except ModelError (Container α) := do
  let a ← c.require k
  return c.replace (← f a)

@[simp]
theorem keys_replace (c : Container α) (a : α) : (c.replace a).keys = c.keys :=
  map_key_put a c.items

theorem contains_iff {c : Container α} {k : κ} : c.contains k = true ↔ k ∈ c.keys := by
  simp [contains]

theorem items_add {c d : Container α} {a : α} (h : c.add a = .ok d) :
    d.items = c.items ++ [a] := by
  by_cases hk : c.contains (Keyed.key a) = true
  · simp [add, hk] at h
  · simp only [add, hk] at h
    cases h; rfl

theorem add_eq_error_iff {c : Container α} {a : α} {e : ModelError} :
    c.add a = .error e ↔ Keyed.key a ∈ c.keys ∧
      e = .duplicate (Keyed.kind α) (Keyed.keyText α (Keyed.key a)) := by
  rw [← contains_iff]
  by_cases hk : c.contains (Keyed.key a) = true
  · simp [add, hk, eq_comm]
  · simp [add, hk]

end Lookup

end Container

end TesterSetup
