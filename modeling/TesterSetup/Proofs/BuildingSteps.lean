import Mathlib.Data.List.Nodup
import TesterSetup.Proofs.InPlace

/-!
# Building step by step

A setup is built by steps that reach into its parts. What the parts hold are ordered collections:
containers of parts with keys of their own, and maps. A type is `Building` when it is said which
steps there are, what each of them does in place, which collections a value holds, and what a step
is meant to write to each of them. It is `Building.Lawful` when a step that fails leaves the value
as it was, and one that succeeds does these writes and nothing else. A step that reaches a part puts
it back in whatever state it leaves it, so the laws are proved from the parts up: for maps and
containers because a key is looked for before anything is written, and from there for containers,
lists and records of things that are built.

`content_run` is what follows for every run: each collection is what the writes of the successful
steps make of it, one after the other. In particular its keys stand in the order in which they were
first added (`keys_replay`).
-/

set_option autoImplicit false

namespace TesterSetup

/-! ### Writes to an ordered collection -/

/-- One write to an ordered collection. -/
inductive Write (κ β : Type) where
  /-- Something is added. It takes the place of what stands under its key. -/
  | add (key : κ) (value : β)
  /-- What stands under a key is changed. -/
  | change (key : κ) (value : β)
  /-- The collection is replaced as a whole. -/
  | renew (all : OrderedMap κ β)

section Writes

variable {κ β : Type} [DecidableEq κ]

/-- Does a write. A change reaches only what is there. -/
def Write.on (m : OrderedMap κ β) : Write κ β → OrderedMap κ β
  | .add k v => m.insert k v
  | .change k v => if m.contains k then m.insert k v else m
  | .renew all => all

/-- Does writes one after the other. -/
def replay (m : OrderedMap κ β) (writes : List (Write κ β)) : OrderedMap κ β :=
  writes.foldl Write.on m

/-- The keys that were added when a write is done, one after the other. -/
def Write.addKeys (keys : List κ) : Write κ β → List κ
  | .add k _ => keys ++ [k]
  | .change _ _ => keys
  | .renew all => all.keys

/-- The keys that writes add, one after the other. -/
def addedKeys (keys : List κ) (writes : List (Write κ β)) : List κ :=
  writes.foldl Write.addKeys keys

theorem eraseDups_eq_self {l : List κ} (h : l.Nodup) : l.eraseDups = l := by
  induction l with
  | nil => rfl
  | cons a rest ih =>
    rw [List.nodup_cons] at h
    have hrest : rest.filter (fun b ↦ !b == a) = rest := by
      refine List.filter_eq_self.mpr fun b hb ↦ ?_
      simpa using ne_of_mem_of_not_mem hb h.1
    rw [List.eraseDups_cons, hrest, ih h.2]

theorem eraseDups_concat (l : List κ) (k : κ) :
    (l ++ [k]).eraseDups = if k ∈ l.eraseDups then l.eraseDups else l.eraseDups ++ [k] := by
  rw [List.eraseDups_append]
  by_cases hk : k ∈ l
  · simp [List.removeAll, hk]
  · simp [List.removeAll, hk, List.eraseDups_cons]

/-- The keys of a collection are those that were added, each where it was added first. -/
theorem keys_replay {m : OrderedMap κ β} {keys : List κ} (hm : m.keys = keys.eraseDups)
    (writes : List (Write κ β)) :
    (replay m writes).keys = (addedKeys keys writes).eraseDups := by
  induction writes generalizing m keys with
  | nil => exact hm
  | cons w rest ih =>
    have hkeys : (w.on m).keys = (w.addKeys keys).eraseDups := by
      cases w with
      | add k v =>
        rw [Write.on, OrderedMap.keys_insert, Write.addKeys, eraseDups_concat, hm]
      | change k v =>
        rw [Write.on, Write.addKeys]
        split
        · rename_i hk
          rw [OrderedMap.keys_insert, if_pos (OrderedMap.contains_iff.mp hk), hm]
        · exact hm
      | renew all => exact (eraseDups_eq_self all.keys_nodup).symm
    exact ih hkeys

end Writes

/-! ### Containers as maps -/

namespace Container

variable {α κ : Type} [Keyed α κ]

/-- The items of a container under their keys. -/
def asMap (c : Container α) : OrderedMap κ α :=
  ⟨c.items.map fun a ↦ (Keyed.key a, a), by simpa [Function.comp_def] using c.nodup⟩

theorem keys_asMap (c : Container α) : c.asMap.keys = c.keys := by
  simp [asMap, OrderedMap.keys, keys, Function.comp_def]

variable [DecidableEq κ] {c d : Container α} {a b : α}

theorem get?_asMap (c : Container α) (k : κ) : c.asMap.get? k = c.get? k := by
  refine Option.ext fun a ↦ ?_
  rw [OrderedMap.get?_eq_some_iff, get?_eq_some_iff]
  simp only [asMap, List.mem_map, Prod.mk.injEq]
  constructor
  · rintro ⟨a', ha', hkey, rfl⟩
    exact ⟨ha', hkey⟩
  · rintro ⟨ha, hkey⟩
    exact ⟨a, ha, hkey, rfl⟩

theorem asMap_add (h : c.add a = .ok d) : d.asMap = c.asMap.insert (Keyed.key a) a := by
  have hnew : Keyed.key a ∉ c.asMap.keys := by
    rw [keys_asMap]
    exact key_notMem_of_add h
  refine OrderedMap.ext ?_
  rw [OrderedMap.entries_insert_of_notMem hnew]
  change d.items.map _ = c.items.map _ ++ [_]
  rw [items_add h, List.map_append, List.map_singleton]

theorem asMap_replace (h : Keyed.key a ∈ c.keys) :
    (c.replace a).asMap = c.asMap.insert (Keyed.key a) a := by
  refine OrderedMap.eq_of_get? ?_ fun k ↦ ?_
  · rw [keys_asMap, keys_replace, OrderedMap.keys_insert, keys_asMap, if_pos h]
  · rw [get?_asMap, OrderedMap.get?_insert, get?_asMap]
    split
    · rename_i hkey
      rw [← hkey]
      exact get?_replace_self h
    · rename_i hkey
      exact get?_replace_of_ne hkey

/-- A part that takes its own place changes nothing. -/
theorem replace_self (h : c.get? (Keyed.key a) = some a) : c.replace a = c := by
  refine Container.ext ?_
  calc (c.items.map fun b ↦ if Keyed.key b = Keyed.key a then a else b) = c.items.map id := by
        refine List.map_congr_left fun b hb ↦ ?_
        split
        · rename_i hkey
          have hget : c.get? (Keyed.key a) = some b := get?_eq_some_iff.mpr ⟨hb, hkey⟩
          exact Option.some.inj (h.symm.trans hget)
        · rfl
    _ = c.items := List.map_id _

end Container

/-! ### Things that are built -/

/-- A kind of things that are built step by step, with the ordered collections that such a thing
holds. -/
class Building (α : Type) where
  /-- The building steps. -/
  Step : Type
  /-- What a step does. -/
  take : Step → InPlace α Unit
  /-- The collections that a thing holds, directly or in its parts. -/
  Slot : Type
  Key : Slot → Type
  Value : Slot → Type
  [keyEq : ∀ p, DecidableEq (Key p)]
  /-- The collection in a slot. -/
  content : ∀ p, α → OrderedMap (Key p) (Value p)
  /-- What a step writes to the collection in a slot. -/
  writes : ∀ p, Step → α → List (Write (Key p) (Value p))

namespace Building

attribute [reducible, instance] Building.keyEq

/-- Things that a step changes by its writes, or not at all. -/
class Lawful (α : Type) [Building α] : Prop where
  /-- A step that fails changes nothing. -/
  take_error : ∀ (s : Step α) (a : α) (e : ModelError),
    (outcome (take s) a).1 = .error e → (outcome (take s) a).2 = a
  /-- A step that succeeds does its writes. -/
  content_take : ∀ (p : Slot α) (s : Step α) (a : α), (outcome (take s) a).1 = .ok () →
    content p (outcome (take s) a).2 = replay (content p a) (writes p s a)

section Runs

variable {α : Type} [Building α]

/-- Takes steps one after the other. A step that fails is followed by the next. -/
def run (a : α) (steps : List (Step α)) : α :=
  steps.foldl (fun a s ↦ (outcome (take s) a).2) a

/-- What the steps that succeed write to a collection. -/
def history (p : Slot α) (a : α) : List (Step α) → List (Write (Key p) (Value p))
  | [] => []
  | s :: rest =>
    (if (outcome (take s) a).1.isOk then writes p s a else []) ++
      history p (outcome (take s) a).2 rest

/-- A collection is what the writes of all steps make of it. -/
theorem content_run [Lawful α] (p : Slot α) (a : α) (steps : List (Step α)) :
    content p (run a steps) = replay (content p a) (history p a steps) := by
  induction steps generalizing a with
  | nil => rfl
  | cons s rest ih =>
    have hstep : content p (outcome (take s) a).2 =
        replay (content p a) (if (outcome (take s) a).1.isOk then writes p s a else []) := by
      cases hanswer : (outcome (take s) a).1 with
      | ok done => exact Lawful.content_take p s a hanswer
      | error e => exact congrArg (content p) (Lawful.take_error s a e hanswer)
    calc content p (run (outcome (take s) a).2 rest)
        = replay (content p (outcome (take s) a).2) (history p (outcome (take s) a).2 rest) := ih _
      _ = replay (content p a) (history p a (s :: rest)) := by
          rw [hstep, history, replay, replay, replay, List.foldl_append]

end Runs

/-! ### Parts without steps -/

/-- Parts that hold no collections. -/
@[reducible]
def leaf (α : Type) : Building α where
  Step := Empty
  take := nofun
  Slot := Empty
  Key := nofun
  Value := nofun
  keyEq := nofun
  content := nofun
  writes := nofun

theorem lawful_leaf (α : Type) : @Lawful α (leaf α) :=
  @Lawful.mk α (leaf α) nofun nofun

/-! ### Maps that take each key once -/

section Entries

variable {α κ β : Type} [DecidableEq κ]

/-- A thing that holds one map, to which a step adds an entry. -/
@[reducible]
def ofEntries (map : Lens α (OrderedMap κ β)) (taken : α → κ → ModelError) : Building α where
  Step := κ × β
  take s := addEntry map taken s.1 s.2
  Slot := Unit
  Key _ := κ
  Value _ := β
  content _ := map.read
  writes _ s _ := [.add s.1 s.2]

theorem lawful_ofEntries (map : Lens α (OrderedMap κ β)) (taken : α → κ → ModelError) :
    @Lawful α (ofEntries map taken) :=
  @Lawful.mk α (ofEntries map taken)
    (fun s a _ h ↦ snd_eq_of_outcome (outcome_addEntry map taken s.1 s.2 a) h)
    (fun _ s _ h ↦ read_outcome_addEntry map taken s.1 s.2 h)

end Entries

/-! ### Records -/

section Records

variable {α β γ : Type} [Building β] [Building γ]

instance : Building (β × γ) where
  Step := Step β ⊕ Step γ
  take
    | .inl s => Lens.fst.change (take s)
    | .inr s => Lens.snd.change (take s)
  Slot := Slot β ⊕ Slot γ
  Key
    | .inl p => Key p
    | .inr p => Key p
  Value
    | .inl p => Value p
    | .inr p => Value p
  keyEq
    | .inl p => keyEq p
    | .inr p => keyEq p
  content
    | .inl p, a => content p a.1
    | .inr p, a => content p a.2
  writes
    | .inl p, .inl s, a => writes p s a.1
    | .inl _, .inr _, _ => []
    | .inr _, .inl _, _ => []
    | .inr p, .inr s, a => writes p s a.2

instance [Lawful β] [Lawful γ] : Lawful (β × γ) where
  take_error
    | .inl s, a, e, h => Prod.ext (Lawful.take_error s a.1 e h) rfl
    | .inr s, a, e, h => Prod.ext rfl (Lawful.take_error s a.2 e h)
  content_take
    | .inl p, .inl s, a, h => Lawful.content_take p s a.1 h
    | .inl _, .inr _, _, _ => rfl
    | .inr _, .inl _, _, _ => rfl
    | .inr p, .inr s, a, h => Lawful.content_take p s a.2 h

/-- A record is built by building its parts. -/
@[reducible]
def ofLens (parts : Lens α β) : Building α where
  Step := Step β
  take s := parts.change (take s)
  Slot := Slot β
  Key := Key
  Value := Value
  content p a := content p (parts.read a)
  writes p s a := writes p s (parts.read a)

theorem lawful_ofLens [hlawful : Lawful β] (parts : Lens α β) : @Lawful α (ofLens parts) :=
  @Lawful.mk α (ofLens parts)
    (fun s a e h ↦
      (congrArg (parts.write a) (hlawful.take_error s (parts.read a) e h)).trans
        (parts.write_read a))
    (fun p s a h ↦
      (congrArg (@content β _ p) (parts.read_write a _)).trans
        (hlawful.content_take p s (parts.read a) h))

end Records

/-! ### Lists -/

section Lists

variable {α : Type}

/-- A step of building a list: a member is appended, or the member at a place is built on. Who
finds no member to build on, or has nothing to put there, gives up. -/
inductive ListStep (α σ : Type) where
  | push (a : α)
  | change (i : Nat) (s : σ)
  | giveUp (e : ModelError)

/-- A collection in a member of a list. -/
structure ListSlot (π : Type) where
  member : Nat
  slot : π

variable [Building α]

/-- The collection in a slot of the part that is there, or none. -/
def contentOf? (p : Slot α) (a : Option α) : OrderedMap (Key p) (Value p) :=
  a.elim .empty (content p)

/-- Takes a step of building a list. -/
def takeList : ListStep α (Step α) → InPlace (List α) Unit
  | .push a => modify (· ++ [a])
  | .change i s => do
    let l ← get
    match l[i]? with
    | none => return
    | some a => workOn a (fun l b ↦ l.set i b) (take s)
  | .giveUp e => throw e

/-- What a step of building a list writes to a collection in a member. -/
def writesList (p : ListSlot (Slot α)) (l : List α) :
    ListStep α (Step α) → List (Write (Key p.slot) (Value p.slot))
  | .push a => if l.length = p.member then [.renew (content p.slot a)] else []
  | .change i s =>
    match l[i]? with
    | none => []
    | some a => if i = p.member then writes p.slot s a else []
  | .giveUp _ => []

variable {l : List α} {a : α} {i : Nat} {s : Step α}

theorem outcome_change_of_getElem? (ha : l[i]? = some a) :
    outcome (takeList (.change i s)) l =
      ((outcome (take s) a).1, l.set i (outcome (take s) a).2) := by
  rw [takeList, outcome_get_bind, ha]
  rfl

theorem outcome_change_of_none (hnone : l[i]? = none) :
    outcome (takeList (.change i s)) l = (.ok (), l) := by
  rw [takeList, outcome_get_bind, hnone]
  rfl

theorem takeList_error [Lawful α] {s : ListStep α (Step α)} {e : ModelError}
    (h : (outcome (takeList s) l).1 = .error e) : (outcome (takeList s) l).2 = l := by
  cases s with
  | push a => cases h
  | change i s =>
    cases ha : l[i]? with
    | none => rw [outcome_change_of_none ha]
    | some a =>
      rw [outcome_change_of_getElem? ha] at h ⊢
      obtain ⟨hi, rfl⟩ := List.getElem?_eq_some_iff.mp ha
      rw [Lawful.take_error s l[i] e h, List.set_getElem_self]
  | giveUp cause => rfl

theorem content_takeList [Lawful α] {p : ListSlot (Slot α)} {s : ListStep α (Step α)}
    (h : (outcome (takeList s) l).1 = .ok ()) :
    contentOf? p.slot (outcome (takeList s) l).2[p.member]? =
      replay (contentOf? p.slot l[p.member]?) (writesList p l s) := by
  cases s with
  | push a =>
    change contentOf? p.slot (l ++ [a])[p.member]? = _
    rw [writesList]
    by_cases hlength : l.length = p.member
    · rw [if_pos hlength, ← hlength, List.getElem?_concat_length]
      rfl
    · have hsame : (l ++ [a])[p.member]? = l[p.member]? := by grind
      rw [if_neg hlength, hsame]
      rfl
  | change i s =>
    cases ha : l[i]? with
    | none =>
      simp only [outcome_change_of_none ha, writesList, ha]
      rfl
    | some a =>
      simp only [outcome_change_of_getElem? ha, writesList, ha] at h ⊢
      by_cases hi : i = p.member
      · subst hi
        have hlt := (List.getElem?_eq_some_iff.mp ha).1
        rw [if_pos rfl, List.getElem?_set_self hlt, ha]
        exact Lawful.content_take p.slot s a h
      · rw [if_neg hi, List.getElem?_set_ne hi]
        rfl
  | giveUp cause => cases h

instance : Building (List α) where
  Step := ListStep α (Step α)
  take := takeList
  Slot := ListSlot (Slot α)
  Key p := Key p.slot
  Value p := Value p.slot
  content p l := contentOf? p.slot l[p.member]?
  writes p s l := writesList p l s

instance [Lawful α] : Lawful (List α) where
  take_error _ _ _ h := takeList_error h
  content_take _ _ _ h := content_takeList h

end Lists

end Building

/-! ### Containers -/

/-- A way to reach a part of a container in order to change it. -/
inductive Access (κ : Type) where
  /-- The part under a key, if there is one. -/
  | get (key : κ)
  /-- The part under a key, which has to be there. -/
  | require (key : κ)
  /-- The part that was added last, if there is one. -/
  | last

/-- The part of a container that is reached. -/
def Container.reach {α κ : Type} [Keyed α κ] [DecidableEq κ] (c : Container α) :
    Access κ → Except ModelError (Option α)
  | .get k => .ok (c.get? k)
  | .require k => (c.require k).map some
  | .last => .ok c.last?

theorem Container.get?_of_reach {α κ : Type} [Keyed α κ] [DecidableEq κ] {c : Container α}
    {access : Access κ} {a : α} (h : c.reach access = .ok (some a)) :
    c.get? (Keyed.key a) = some a := by
  cases access with
  | get k =>
    have hget : c.get? k = some a := Except.ok.inj h
    rwa [key_of_get? hget]
  | require k =>
    rw [reach] at h
    cases hrequire : c.require k with
    | error e =>
      rw [hrequire] at h
      cases h
    | ok b =>
      rw [hrequire] at h
      cases h
      have hget := get?_of_require hrequire
      rwa [key_of_get? hget]
  | last => exact get?_of_last? (Except.ok.inj h)

namespace Building

/-- Steps that leave the key of a part as it is. -/
class KeepsKey (α : Type) {κ : Type} [Keyed α κ] [Building α] : Prop where
  key_take : ∀ (s : Step α) (a : α), Keyed.key (outcome (take s) a).2 = Keyed.key a

/-- A change of a part of a container: a step of building the part, or any other change that leaves
its key as it is. -/
inductive PartChange (α : Type) {κ : Type} [Keyed α κ] (σ : Type) where
  | step (s : σ)
  | rewrite (f : α → α) (key_eq : ∀ a, Keyed.key (f a) = Keyed.key a)

/-- A step of building a container. -/
inductive ContainerStep (α : Type) {κ : Type} [Keyed α κ] (σ : Type) where
  | add (a : α)
  | change (access : Access κ) (c : PartChange α σ)

/-- A collection that a container holds: its own parts, or what the part under a key holds. -/
inductive ContainerSlot (κ π : Type) where
  | parts
  | within (key : κ) (slot : π)

section Changes

variable {α κ : Type} [Keyed α κ] [Building α]

/-- Changes a part. -/
def takeChange : PartChange α (Step α) → InPlace α Unit
  | .step s => take s
  | .rewrite f _ => modify f

/-- What a change of a part writes to a collection that the part holds. -/
def writesChange (p : Slot α) (a : α) :
    PartChange α (Step α) → List (Write (Key p) (Value p))
  | .step s => writes p s a
  | .rewrite f _ => [.renew (content p (f a))]

theorem takeChange_error [Lawful α] {a : α} {change : PartChange α (Step α)} {e : ModelError}
    (h : (outcome (takeChange change) a).1 = .error e) : (outcome (takeChange change) a).2 = a := by
  cases change with
  | step s => exact Lawful.take_error s a e h
  | rewrite f hf => cases h

theorem content_takeChange [Lawful α] {p : Slot α} {a : α} {change : PartChange α (Step α)}
    (h : (outcome (takeChange change) a).1 = .ok ()) :
    content p (outcome (takeChange change) a).2 =
      replay (content p a) (writesChange p a change) := by
  cases change with
  | step s => exact Lawful.content_take p s a h
  | rewrite f hf => rfl

theorem key_takeChange [KeepsKey α] (a : α) (change : PartChange α (Step α)) :
    Keyed.key (outcome (takeChange change) a).2 = Keyed.key a := by
  cases change with
  | step s => exact KeepsKey.key_take s a
  | rewrite f hf => exact hf a

end Changes

section Containers

variable {α κ : Type} [Keyed α κ] [DecidableEq κ] [Building α]

/-- Takes a step of building a container. -/
def takeContainer : ContainerStep α (Step α) → InPlace (Container α) Unit
  | .add a => Container.addInPlace a
  | .change access change => do
    let c ← get
    match c.reach access with
    | .error e => throw e
    | .ok none => return
    | .ok (some a) => workOn a Container.replace (takeChange change)

/-- What a step of building a container writes to its parts. -/
def writesParts (c : Container α) : ContainerStep α (Step α) → List (Write κ α)
  | .add a => [.add (Keyed.key a) a]
  | .change access change =>
    match c.reach access with
    | .ok (some a) => [.change (Keyed.key a) (outcome (takeChange change) a).2]
    | _ => []

/-- What a step of building a container writes to a collection in the part under a key. -/
def writesWithin (k : κ) (p : Slot α) (c : Container α) :
    ContainerStep α (Step α) → List (Write (Key p) (Value p))
  | .add a => if Keyed.key a = k then [.renew (content p a)] else []
  | .change access change =>
    match c.reach access with
    | .ok (some a) => if Keyed.key a = k then writesChange p a change else []
    | _ => []

variable {c : Container α} {a : α} {access : Access κ} {change : PartChange α (Step α)}

theorem outcome_change_of_error {e : ModelError} (h : c.reach access = .error e) :
    outcome (takeContainer (.change access change)) c = (.error e, c) := by
  rw [takeContainer, outcome_get_bind, h]
  rfl

theorem outcome_change_of_absent (h : c.reach access = .ok none) :
    outcome (takeContainer (.change access change)) c = (.ok (), c) := by
  rw [takeContainer, outcome_get_bind, h]
  rfl

theorem outcome_change_of_reach (h : c.reach access = .ok (some a)) :
    outcome (takeContainer (.change access change)) c =
      ((outcome (takeChange change) a).1, c.replace (outcome (takeChange change) a).2) := by
  rw [takeContainer, outcome_get_bind, h]
  rfl

theorem takeContainer_error [Lawful α] {s : ContainerStep α (Step α)} {e : ModelError}
    (h : (outcome (takeContainer s) c).1 = .error e) : (outcome (takeContainer s) c).2 = c := by
  cases s with
  | add a => exact snd_eq_of_outcome (Container.outcome_addInPlace c a) h
  | change access change =>
    cases hreach : c.reach access with
    | error cause => rw [outcome_change_of_error hreach]
    | ok found =>
      cases found with
      | none => rw [outcome_change_of_absent hreach]
      | some a =>
        rw [outcome_change_of_reach hreach] at h ⊢
        rw [takeChange_error h]
        exact Container.replace_self (Container.get?_of_reach hreach)

theorem asMap_takeContainer [KeepsKey α] {s : ContainerStep α (Step α)}
    (h : (outcome (takeContainer s) c).1 = .ok ()) :
    (outcome (takeContainer s) c).2.asMap = replay c.asMap (writesParts c s) := by
  cases s with
  | add a => exact Container.asMap_add (eq_ok_of_outcome (Container.outcome_addInPlace c a) h)
  | change access change =>
    cases hreach : c.reach access with
    | error cause =>
      rw [outcome_change_of_error hreach] at h
      cases h
    | ok found =>
      cases found with
      | none =>
        simp only [outcome_change_of_absent hreach, writesParts, hreach]
        rfl
      | some a =>
        have hget := Container.get?_of_reach hreach
        have hkey := key_takeChange a change
        have hmem : Keyed.key (outcome (takeChange change) a).2 ∈ c.keys :=
          hkey ▸ List.mem_map_of_mem (Container.mem_of_get? hget)
        have hcontains : c.asMap.contains (Keyed.key a) = true := by
          rw [OrderedMap.contains, Container.get?_asMap, hget]
          rfl
        simp only [outcome_change_of_reach hreach, writesParts, hreach]
        rw [Container.asMap_replace hmem, hkey]
        exact (if_pos hcontains).symm

theorem contentOf?_takeContainer [Lawful α] [KeepsKey α] {s : ContainerStep α (Step α)}
    {k : κ} {p : Slot α} (h : (outcome (takeContainer s) c).1 = .ok ()) :
    contentOf? p ((outcome (takeContainer s) c).2.get? k) =
      replay (contentOf? p (c.get? k)) (writesWithin k p c s) := by
  cases s with
  | add a =>
    have hadd : c.add a = .ok (outcome (takeContainer (.add a)) c).2 :=
      eq_ok_of_outcome (Container.outcome_addInPlace c a) h
    rw [Container.get?_add hadd, writesWithin]
    by_cases hk : Keyed.key a = k
    · rw [if_pos hk, if_pos hk]
      rfl
    · rw [if_neg hk, if_neg hk]
      rfl
  | change access change =>
    cases hreach : c.reach access with
    | error cause =>
      rw [outcome_change_of_error hreach] at h
      cases h
    | ok found =>
      cases found with
      | none =>
        simp only [outcome_change_of_absent hreach, writesWithin, hreach]
        rfl
      | some a =>
        have hget := Container.get?_of_reach hreach
        have hkey := key_takeChange a change
        simp only [outcome_change_of_reach hreach, writesWithin, hreach] at h ⊢
        by_cases hk : Keyed.key a = k
        · subst hk
          rw [if_pos rfl, hget, ← hkey, Container.get?_replace_of_get? (hkey ▸ hget)]
          exact content_takeChange h
        · rw [if_neg hk, Container.get?_replace_of_ne (hkey ▸ hk)]
          rfl

instance : Building (Container α) where
  Step := ContainerStep α (Step α)
  take := takeContainer
  Slot := ContainerSlot κ (Slot α)
  Key
    | .parts => κ
    | .within _ p => Key p
  Value
    | .parts => α
    | .within _ p => Value p
  keyEq
    | .parts => inferInstanceAs (DecidableEq κ)
    | .within _ p => inferInstanceAs (DecidableEq (Key p))
  content
    | .parts, c => c.asMap
    | .within k p, c => contentOf? p (c.get? k)
  writes
    | .parts, s, c => writesParts c s
    | .within k p, s, c => writesWithin k p c s

instance [Lawful α] [KeepsKey α] : Lawful (Container α) where
  take_error _ _ _ h := takeContainer_error h
  content_take
    | .parts, _, _, h => asMap_takeContainer h
    | .within _ _, _, _, h => contentOf?_takeContainer h

end Containers

end Building

end TesterSetup
