import TesterSetup.Proofs.LookupLaws
import TesterSetup.Proofs.TracedComposition
import TesterSetup.Resolve.Levels
import TesterSetup.Resolve.Timing

/-!
# What blocks write into a table

Levels and timing are settled alike: every setting of a block is valued once and written to each
pin of the block. Both loops are one loop over `Assignment`s, the settings of all blocks in order
with the pins they are for (`settleBlocks_eq`, `settleEdgeBlocks_eq`). What the loop leaves behind
is said by three functions of the assignments. The value of a pin's setting is that of the last
assignment for it (`lastFor`, `value?_settleAll`); which pins and which settings there are, and in
which order, depends on the pins and names of the assignments and not on any value
(`keys_settleAll`, `names_settleAll`).
-/

set_option autoImplicit false

namespace TesterSetup

variable {κ σ ν : Type} [DecidableEq κ]

/-! ### One write -/

/-- A list of keys with one more key, unless it is there already. -/
def addKey {α : Type} [DecidableEq α] (keys : List α) (k : α) : List α :=
  if k ∈ keys then keys else keys ++ [k]

theorem addKey_of_mem {α : Type} [DecidableEq α] {keys : List α} {k : α} (h : k ∈ keys) :
    addKey keys k = keys :=
  if_pos h

theorem mem_addKey_self {α : Type} [DecidableEq α] (keys : List α) (k : α) :
    k ∈ addKey keys k := by
  unfold addKey
  split
  · assumption
  · simp

theorem keys_insert_eq_addKey {α β : Type} [DecidableEq α] (m : OrderedMap α β) (k : α) (v : β) :
    (m.insert k v).keys = addKey m.keys k :=
  OrderedMap.keys_insert m k v

namespace PinTable

/-- The value of a setting of a pin. -/
def value? (t : PinTable κ ν) (pin : String) (name : κ) : Option ν :=
  (t.get? pin).bind (·.get? name)

/-- The names of the settings of a pin, in order. -/
def names (t : PinTable κ ν) (pin : String) : List κ :=
  ((t.get? pin).getD .empty).keys

/-- Writes one value for one pin. -/
def write (t : PinTable κ ν) (pin : String) (name : κ) (value : ν) : PinTable κ ν :=
  t.insert pin (((t.get? pin).getD .empty).insert name value)

theorem value?_eq (t : PinTable κ ν) (pin : String) (name : κ) :
    t.value? pin name = ((t.get? pin).getD .empty).get? name := by
  unfold value?
  cases t.get? pin <;> rfl

theorem getD_get?_write (t : PinTable κ ν) (pin : String) (name : κ) (value : ν) (pin' : String) :
    ((t.write pin name value).get? pin').getD .empty =
      if pin = pin' then ((t.get? pin).getD .empty).insert name value
      else (t.get? pin').getD .empty := by
  rw [write, OrderedMap.get?_insert]
  split <;> rfl

theorem value?_write (t : PinTable κ ν) (pin : String) (name : κ) (value : ν) (pin' : String)
    (name' : κ) : (t.write pin name value).value? pin' name' =
      if pin = pin' ∧ name = name' then some value else t.value? pin' name' := by
  rw [value?_eq, getD_get?_write, value?_eq]
  by_cases hpin : pin = pin'
  · subst hpin
    rw [if_pos rfl, OrderedMap.get?_insert]
    simp only [true_and]
  · rw [if_neg hpin, if_neg fun h ↦ hpin h.1]

theorem keys_write (t : PinTable κ ν) (pin : String) (name : κ) (value : ν) :
    (t.write pin name value).keys = addKey t.keys pin :=
  keys_insert_eq_addKey ..

theorem names_write (t : PinTable κ ν) (pin : String) (name : κ) (value : ν) (pin' : String) :
    (t.write pin name value).names pin' =
      if pin = pin' then addKey (t.names pin') name else t.names pin' := by
  rw [names, getD_get?_write]
  split
  · rename_i h
    subst h
    exact keys_insert_eq_addKey ..
  · rfl

/-! ### One value for several pins -/

theorem value?_writeAll (t : PinTable κ ν) (pins : List String) (name : κ) (value : ν)
    (pin : String) (name' : κ) : (t.writeAll pins name value).value? pin name' =
      if pin ∈ pins ∧ name = name' then some value else t.value? pin name' := by
  unfold writeAll
  induction pins generalizing t with
  | nil => simp
  | cons first rest ih =>
    change (rest.foldl _ (t.write first name value)).value? pin name' = _
    rw [ih, value?_write]
    by_cases hname : name = name' <;> by_cases hrest : pin ∈ rest <;>
      simp [hname, hrest, eq_comm]

theorem keys_writeAll (t : PinTable κ ν) (pins : List String) (name : κ) (value : ν) :
    (t.writeAll pins name value).keys = pins.foldl addKey t.keys := by
  unfold writeAll
  induction pins generalizing t with
  | nil => rfl
  | cons first rest ih =>
    change (rest.foldl _ (t.write first name value)).keys = _
    rw [ih, keys_write, List.foldl_cons]

theorem names_writeAll (t : PinTable κ ν) (pins : List String) (name : κ) (value : ν)
    (pin : String) : (t.writeAll pins name value).names pin =
      if pin ∈ pins then addKey (t.names pin) name else t.names pin := by
  unfold writeAll
  induction pins generalizing t with
  | nil => simp
  | cons first rest ih =>
    change (rest.foldl _ (t.write first name value)).names pin = _
    rw [ih, names_write]
    by_cases hfirst : first = pin
    · subst hfirst
      simp [addKey_of_mem (mem_addKey_self (t.names first) name)]
    · simp [hfirst, Ne.symm hfirst]

end PinTable

/-! ### Assignments -/

/-- A setting of a block with the pins that it is for. -/
structure Assignment (κ σ : Type) where
  pins : List String
  name : κ
  setting : σ

/-- The settings of a block in order. -/
def SettingBlock.assignments (b : SettingBlock) : List (Assignment String Setting) :=
  b.settings.entries.map fun e ↦ ⟨b.pins, e.1, e.2⟩

/-- The edges of a block in order. -/
def EdgeBlock.assignments (b : EdgeBlock) : List (Assignment EdgeId String) :=
  b.edges.entries.map fun e ↦ ⟨b.pins, e.1, e.2⟩

/-- Values assignments one after the other and writes their values. -/
def settleAll (value : Assignment κ σ → Traced ν) :
    List (Assignment κ σ) → PinTable κ ν → Traced (PinTable κ ν)
  | [], table => pure table
  | a :: rest, table => do
    let v ← value a
    settleAll value rest (table.writeAll a.pins a.name v)

section Loops

variable {value : Assignment κ σ → Traced ν} {evaluate : Evaluator} {closure : Variables}

theorem settleAll_append (first second : List (Assignment κ σ)) (table : PinTable κ ν) :
    settleAll value (first ++ second) table =
      settleAll value first table >>= settleAll value second := by
  induction first generalizing table with
  | nil => exact (Traced.pure_bind table _).symm
  | cons a rest ih =>
    rw [List.cons_append, settleAll, settleAll, Traced.bind_assoc]
    exact congrArg _ (funext fun v ↦ ih _)

/-- The value of a setting as part of a levels setup. -/
def settingValue (evaluate : Evaluator) (closure : Variables) (a : Assignment String Setting) :
    Traced SettingValue :=
  a.setting.value evaluate closure a.pins a.name

/-- The time of an edge as part of a timing setup. -/
def edgeTime (evaluate : Evaluator) (closure : Variables) (a : Assignment EdgeId String) :
    Traced Float :=
  Traced.valueOf evaluate (.edge a.name a.setting a.pins) a.setting closure

theorem settleSettings_eq (pins : List String) (settings : List (String × Setting))
    (table : PinTable String SettingValue) :
    settleSettings evaluate closure pins settings table =
      settleAll (settingValue evaluate closure) (settings.map fun e ↦ ⟨pins, e.1, e.2⟩) table := by
  induction settings generalizing table with
  | nil => rfl
  | cons e rest ih => exact congrArg _ (funext fun v ↦ ih _)

theorem settleEdges_eq (pins : List String) (edges : List (EdgeId × String))
    (table : PinTable EdgeId Float) :
    settleEdges evaluate closure pins edges table =
      settleAll (edgeTime evaluate closure) (edges.map fun e ↦ ⟨pins, e.1, e.2⟩) table := by
  induction edges generalizing table with
  | nil => rfl
  | cons e rest ih => exact congrArg _ (funext fun v ↦ ih _)

/-- The loops over the blocks of levels are one loop over their assignments. -/
theorem settleBlocks_eq (blocks : List SettingBlock) (table : PinTable String SettingValue) :
    settleBlocks evaluate closure blocks table =
      settleAll (settingValue evaluate closure) (blocks.flatMap SettingBlock.assignments)
        table := by
  induction blocks generalizing table with
  | nil => rfl
  | cons b rest ih =>
    rw [settleBlocks, List.flatMap_cons, settleAll_append, settleSettings_eq]
    exact congrArg _ (funext ih)

/-- So are the loops over the blocks of a timing set. -/
theorem settleEdgeBlocks_eq (blocks : List EdgeBlock) (table : PinTable EdgeId Float) :
    settleEdgeBlocks evaluate closure blocks table =
      settleAll (edgeTime evaluate closure) (blocks.flatMap EdgeBlock.assignments) table := by
  induction blocks generalizing table with
  | nil => rfl
  | cons b rest ih =>
    rw [settleEdgeBlocks, List.flatMap_cons, settleAll_append, settleEdges_eq]
    exact congrArg _ (funext ih)

end Loops

/-! ### The finished table -/

/-- The last assignment for a setting of a pin. -/
def lastFor (assignments : List (Assignment κ σ)) (pin : String) (name : κ) :
    Option (Assignment κ σ) :=
  assignments.reverse.find? fun a ↦ pin ∈ a.pins ∧ a.name = name

section Finished

variable {value : Assignment κ σ → Traced ν} {assignments : List (Assignment κ σ)}
  {table settled : PinTable κ ν} {pin : String} {name : κ}

theorem result_settleAll_cons_eq_ok_iff {a : Assignment κ σ} :
    (settleAll value (a :: assignments) table).result = .ok settled ↔
      ∃ v, (value a).result = .ok v ∧
        (settleAll value assignments (table.writeAll a.pins a.name v)).result = .ok settled := by
  rw [settleAll, Traced.result_bind_eq_ok_iff]

theorem lastFor_cons (a : Assignment κ σ) :
    lastFor (a :: assignments) pin name =
      (lastFor assignments pin name).or
        (if pin ∈ a.pins ∧ a.name = name then some a else none) := by
  rw [lastFor, List.reverse_cons, List.find?_append, List.find?_singleton]
  simp only [decide_eq_true_eq]
  rfl

/-- A setting of a pin has the value of the last assignment for it, and without one what it had. -/
theorem value?_settleAll (h : (settleAll value assignments table).result = .ok settled)
    (pin : String) (name : κ) :
    match lastFor assignments pin name with
    | some a => ∃ v, (value a).result = .ok v ∧ settled.value? pin name = some v
    | none => settled.value? pin name = table.value? pin name := by
  induction assignments generalizing table with
  | nil =>
    cases h
    rfl
  | cons a rest ih =>
    obtain ⟨v, hv, hrest⟩ := result_settleAll_cons_eq_ok_iff.mp h
    have hlast := ih hrest
    rw [lastFor_cons]
    cases hfind : lastFor rest pin name with
    | some later =>
      rw [hfind] at hlast
      exact hlast
    | none =>
      rw [hfind] at hlast
      dsimp only at hlast
      rw [PinTable.value?_writeAll] at hlast
      by_cases ha : pin ∈ a.pins ∧ a.name = name
      · rw [if_pos ha] at hlast ⊢
        exact ⟨v, hv, hlast⟩
      · rw [if_neg ha] at hlast ⊢
        exact hlast

theorem value?_settleAll_of_lastFor {a : Assignment κ σ}
    (ha : lastFor assignments pin name = some a)
    (h : (settleAll value assignments table).result = .ok settled) :
    ∃ v, (value a).result = .ok v ∧ settled.value? pin name = some v := by
  have hlast := value?_settleAll h pin name
  rw [ha] at hlast
  exact hlast

/-- The pins of a table are those of the assignments, in the order of their first assignments. -/
theorem keys_settleAll (h : (settleAll value assignments table).result = .ok settled) :
    settled.keys = (assignments.flatMap Assignment.pins).foldl addKey table.keys := by
  induction assignments generalizing table with
  | nil =>
    cases h
    rfl
  | cons a rest ih =>
    obtain ⟨v, -, hrest⟩ := result_settleAll_cons_eq_ok_iff.mp h
    rw [ih hrest, PinTable.keys_writeAll, List.flatMap_cons, List.foldl_append]

/-- The settings of a pin are those of its assignments, in the order of the first ones. -/
theorem names_settleAll (h : (settleAll value assignments table).result = .ok settled) :
    settled.names pin = ((assignments.filter (pin ∈ ·.pins)).map Assignment.name).foldl addKey
      (table.names pin) := by
  induction assignments generalizing table with
  | nil =>
    cases h
    rfl
  | cons a rest ih =>
    obtain ⟨v, -, hrest⟩ := result_settleAll_cons_eq_ok_iff.mp h
    rw [ih hrest, PinTable.names_writeAll, List.filter_cons]
    by_cases hpin : pin ∈ a.pins <;> simp [hpin]

end Finished

end TesterSetup
