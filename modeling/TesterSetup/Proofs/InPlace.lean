import TesterSetup.Proofs.GrowingModels
import TesterSetup.Proofs.Outcomes

/-!
# Changes in place

How a thing is changed where it is. An operation in place looks at the thing, may fail, and writes;
one that fails leaves the thing as it has written it by then (`InPlace`). So what a failed operation
leaves is decided by the order of its looks and writes. A part of a thing is changed through a lens,
and whatever the change leaves of the part is put back, also when the change fails (`Lens.change`).

Containers, and the maps of equation sets and blocks, are added to by operations that look for the
key first and write last. Each of them leaves what the function of that name on values gives, or, if
that fails, its error and the thing as it was (`Container.outcome_addInPlace`,
`EqnSet.outcome_addEquationInPlace`, `SettingBlock.outcome_setInPlace`,
`EdgeBlock.outcome_setInPlace`). The writes themselves would take the place of what is there.
-/

set_option autoImplicit false

namespace TesterSetup

/-- An operation that changes a thing in place. One that fails leaves what it has made of the thing
by then. -/
abbrev InPlace (α : Type) := ExceptT ModelError (StateM α)

/-- What an operation leaves that gives a whole result or changes nothing. -/
def allOrNothing {α : Type} (a : α) : Except ModelError α → Except ModelError Unit × α
  | .ok b => (.ok (), b)
  | .error e => (.error e, a)

section AllOrNothing

variable {α : Type} {work : InPlace α Unit} {a : α} {result : Except ModelError α}

theorem snd_eq_of_outcome {e : ModelError} (h : outcome work a = allOrNothing a result)
    (herror : (outcome work a).1 = .error e) : (outcome work a).2 = a := by
  rw [h] at herror ⊢
  cases result with
  | ok b => cases herror
  | error cause => rfl

theorem eq_ok_of_outcome (h : outcome work a = allOrNothing a result)
    (hok : (outcome work a).1 = .ok ()) : result = .ok (outcome work a).2 := by
  rw [h] at hok ⊢
  cases result with
  | ok b => rfl
  | error cause => cases hok

end AllOrNothing

/-! ### Parts of things -/

/-- A part of a thing: how it is read, and how another one is written in its place. -/
structure Lens (α β : Type) where
  read : α → β
  write : α → β → α
  read_write : ∀ a b, read (write a b) = b := by intros; rfl
  write_read : ∀ a, write a (read a) = a := by intros; rfl

/-- Works on a part that was found in a thing, and puts it back as the work leaves it, whether the
work succeeds or fails. -/
def workOn {α β : Type} (found : β) (putBack : α → β → α) (work : InPlace β Unit) :
    InPlace α Unit :=
  ExceptT.mk do
    let result := outcome work found
    modify fun a ↦ putBack a result.2
    return result.1

namespace Lens

variable {α β γ : Type}

/-- The first of two parts. -/
def fst : Lens (β × γ) β where
  read := Prod.fst
  write a b := (b, a.2)

/-- The second of two parts. -/
def snd : Lens (β × γ) γ where
  read := Prod.snd
  write a c := (a.1, c)

/-- A part of a part. -/
def comp (outer : Lens α β) (inner : Lens β γ) : Lens α γ where
  read a := inner.read (outer.read a)
  write a c := outer.write a (inner.write (outer.read a) c)
  read_write a c := by rw [outer.read_write, inner.read_write]
  write_read a := by rw [inner.write_read, outer.write_read]

/-- Changes a part of a thing. -/
def change (lens : Lens α β) (work : InPlace β Unit) : InPlace α Unit := do
  let a ← get
  workOn (lens.read a) lens.write work

theorem outcome_change (lens : Lens α β) (work : InPlace β Unit) (a : α) :
    outcome (lens.change work) a =
      ((outcome work (lens.read a)).1, lens.write a (outcome work (lens.read a)).2) :=
  rfl

theorem change_comp (outer : Lens α β) (inner : Lens β γ) (work : InPlace γ Unit) :
    (outer.comp inner).change work = outer.change (inner.change work) :=
  rfl

end Lens

/-! ### Maps that take each key once -/

section Entries

variable {α κ β : Type} [DecidableEq κ]

/-- Writes an entry to a map of a thing, unless its key is taken. -/
def addEntry (map : Lens α (OrderedMap κ β)) (taken : α → κ → ModelError) (k : κ) (v : β) :
    InPlace α Unit := do
  let a ← get
  if (map.read a).contains k then throw (taken a k)
  modify fun a ↦ map.write a ((map.read a).insert k v)

theorem outcome_addEntry (map : Lens α (OrderedMap κ β)) (taken : α → κ → ModelError) (k : κ)
    (v : β) (a : α) :
    outcome (addEntry map taken k v) a =
      allOrNothing a (if (map.read a).contains k then .error (taken a k)
        else .ok (map.write a ((map.read a).insert k v))) := by
  rw [addEntry, outcome_get_bind]
  by_cases hk : (map.read a).contains k = true
  · rw [if_pos hk, if_pos hk]
    rfl
  · rw [if_neg hk, if_neg hk]
    rfl

/-- When an entry is added, it is all that is written. -/
theorem read_outcome_addEntry (map : Lens α (OrderedMap κ β)) (taken : α → κ → ModelError) (k : κ)
    (v : β) {a : α} (h : (outcome (addEntry map taken k v) a).1 = .ok ()) :
    map.read (outcome (addEntry map taken k v) a).2 = (map.read a).insert k v := by
  have hresult := eq_ok_of_outcome (outcome_addEntry map taken k v a) h
  by_cases hk : (map.read a).contains k = true
  · rw [if_pos hk] at hresult
    cases hresult
  · rw [if_neg hk] at hresult
    rw [← Except.ok.inj hresult, map.read_write]

end Entries

def EqnSet.equationsLens {Setups : Type} : Lens (EqnSet Setups) (OrderedMap String String) where
  read := equations
  write e equations := { e with equations }

def EqnSet.setupsLens {Setups : Type} : Lens (EqnSet Setups) Setups where
  read := setups
  write e setups := { e with setups }

/-- Adds an equation in place, unless there is one of that name. -/
def EqnSet.addEquationInPlace {Setups : Type} (name expression : String) :
    InPlace (EqnSet Setups) Unit :=
  addEntry equationsLens (fun _ name ↦ .duplicate "EQUATION" name) name expression

theorem EqnSet.outcome_addEquationInPlace {Setups : Type} (e : EqnSet Setups)
    (name expression : String) :
    outcome (addEquationInPlace name expression) e =
      allOrNothing e (e.addEquation name expression) :=
  outcome_addEntry equationsLens _ name expression e

def SettingBlock.settingsLens : Lens SettingBlock (OrderedMap String Setting) where
  read := settings
  write b settings := { b with settings }

/-- What is wrong with a setting that a block has. -/
def SettingBlock.taken (b : SettingBlock) (name : String) : ModelError :=
  .duplicate "setting" (name ++ " for pins " ++ " ".intercalate b.pins)

/-- Adds a setting in place, unless the block has one of that name. -/
def SettingBlock.setInPlace (name : String) (value : Setting) : InPlace SettingBlock Unit :=
  addEntry settingsLens taken name value

theorem SettingBlock.outcome_setInPlace (b : SettingBlock) (name : String) (value : Setting) :
    outcome (setInPlace name value) b = allOrNothing b (b.set name value) :=
  outcome_addEntry settingsLens taken name value b

def EdgeBlock.edgesLens : Lens EdgeBlock (OrderedMap EdgeId String) where
  read := edges
  write b edges := { b with edges }

/-- What is wrong with an edge that a block has. -/
def EdgeBlock.taken (b : EdgeBlock) (edge : EdgeId) : ModelError :=
  .duplicate "edge" (edge.text ++ " for pins " ++ " ".intercalate b.pins)

/-- Places an edge in place, unless the block has it. -/
def EdgeBlock.setInPlace (edge : EdgeId) (expression : String) : InPlace EdgeBlock Unit :=
  addEntry edgesLens taken edge expression

theorem EdgeBlock.outcome_setInPlace (b : EdgeBlock) (edge : EdgeId) (expression : String) :
    outcome (setInPlace edge expression) b = allOrNothing b (b.set edge expression) :=
  outcome_addEntry edgesLens taken edge expression b

/-! ### Containers -/

namespace Container

variable {α κ : Type} [Keyed α κ] [DecidableEq κ]

/-- Writes a part under its key: in the place of the one that stands there, or behind the others. -/
def write (c : Container α) (a : α) : Container α :=
  if h : c.contains (Keyed.key a) = true then c.replace a
  else ⟨c.items ++ [a], nodup_append_singleton h⟩

/-- Adds a part in place, unless its key is taken. -/
def addInPlace (a : α) : InPlace (Container α) Unit := do
  let c ← get
  if c.contains (Keyed.key a) then
    throw (.duplicate (Keyed.kind α) (Keyed.keyText α (Keyed.key a)))
  modify fun c ↦ c.write a

theorem outcome_addInPlace (c : Container α) (a : α) :
    outcome (addInPlace a) c = allOrNothing c (c.add a) := by
  rw [addInPlace, outcome_get_bind]
  by_cases hk : c.contains (Keyed.key a) = true
  · rw [if_pos hk, add, dif_pos hk]
    rfl
  · have hwrite : c.write a = ⟨c.items ++ [a], nodup_append_singleton hk⟩ := by
      rw [write, dif_neg hk]
    rw [if_neg hk, add, dif_neg hk, ← hwrite]
    rfl

end Container

end TesterSetup
