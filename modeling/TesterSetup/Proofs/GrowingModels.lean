import Mathlib.Data.List.Nodup
import Mathlib.Order.Defs.Unbundled
import TesterSetup.Model.Levels
import TesterSetup.Model.Timing
import TesterSetup.Proofs.LookupLaws
import TesterSetup.Proofs.TracedComposition
import TesterSetup.Reader.Shared

/-!
# Setups that grow

A reader only adds to a setup. `Keeps R before after` says so of look-ups: what the first finds, the
second finds too, up to the relation `R`. Along the parts of a setup this gives preorders
(`LevelsEqnSet` and `TimingEqnSet` share `EqnSet.Grows`, levels and timing share `SpecSet.Grows`),
up to `Levels.Grows` and `Timing.Grows`. A declared spec may get another unit; equations, settings,
edges, periods and spec values stay as they are. For each way in which a part is added or changed
there is a lemma that it grows, with what is found there afterwards.
-/

set_option autoImplicit false

namespace TesterSetup

/-! ### Look-ups -/

section Keeps

variable {ι α : Type} {R : α → α → Prop}

/-- What the first look-up finds, the second finds too, up to a relation. -/
def Keeps (R : α → α → Prop) (before after : ι → Option α) : Prop :=
  ∀ i a, before i = some a → ∃ b, after i = some b ∧ R a b

theorem Keeps.refl [Std.Refl R] (f : ι → Option α) : Keeps R f f :=
  fun _ a h ↦ ⟨a, h, Std.Refl.refl a⟩

theorem Keeps.trans [IsTrans α R] {f g h : ι → Option α} (hfg : Keeps R f g) (hgh : Keeps R g h) :
    Keeps R f h := by
  intro i a ha
  obtain ⟨b, hb, hab⟩ := hfg i a ha
  obtain ⟨c, hc, hbc⟩ := hgh i b hb
  exact ⟨c, hc, IsTrans.trans a b c hab hbc⟩

theorem Keeps.of_eq {f g : ι → Option α} {i : ι} {a : α} (h : Keeps Eq f g) (ha : f i = some a) :
    g i = some a := by
  obtain ⟨b, hb, rfl⟩ := h i a ha
  exact hb

/-- `Keeps` for the members of lists by their places. -/
def ListKeeps (R : α → α → Prop) (before after : List α) : Prop :=
  Keeps R (fun i : Nat ↦ before[i]?) (fun i ↦ after[i]?)

theorem listKeeps_append [Std.Refl R] (l m : List α) : ListKeeps R l (l ++ m) := by
  intro i a ha
  have hlt := (List.getElem?_eq_some_iff.mp ha).1
  exact ⟨a, (List.getElem?_append_left hlt).trans ha, Std.Refl.refl a⟩

theorem listKeeps_replaceLast [Std.Refl R] {front : List α} {a b : α} (h : R a b) :
    ListKeeps R (front ++ [a]) (front ++ [b]) := by
  intro i found hfound
  dsimp only at hfound ⊢
  by_cases hi : i < front.length
  · rw [List.getElem?_append_left hi] at hfound ⊢
    exact ⟨found, hfound, Std.Refl.refl found⟩
  · rw [List.getElem?_append_right (Nat.le_of_not_lt hi)] at hfound ⊢
    obtain ⟨hlt, rfl⟩ := List.getElem?_eq_some_iff.mp hfound
    have hzero : i - front.length = 0 := Nat.lt_one_iff.mp hlt
    refine ⟨b, by rw [hzero]; rfl, ?_⟩
    simp only [hzero, List.getElem_cons_zero]
    exact h

/-- Changing the last member of a list. -/
theorem updateLast_eq_ok {ε : Type} {l l' : List α} {missing : ε} {f : α → Except ε α}
    (h : updateLast l missing f = .ok l') :
    ∃ front a b, l = front ++ [a] ∧ f a = .ok b ∧ l' = front ++ [b] := by
  unfold updateLast at h
  split at h
  · cases h
  · rename_i a hlast
    obtain ⟨b, hb, h⟩ := except_bind_eq_ok_iff.mp h
    obtain ⟨front, rfl⟩ := List.getLast?_eq_some_iff.mp hlast
    cases h
    exact ⟨front, a, b, rfl, hb, by rw [List.dropLast_concat]⟩

/-- The list keeps its members when the last one is only added to. -/
theorem listKeeps_updateLast [Std.Refl R] {ε : Type} {l l' : List α} {missing : ε}
    {f : α → Except ε α} (h : updateLast l missing f = .ok l')
    (hf : ∀ a b, f a = .ok b → R a b) :
    ListKeeps R l l' ∧ ∃ a b, f a = .ok b ∧ l'[l.length - 1]? = some b := by
  obtain ⟨front, a, b, rfl, hb, rfl⟩ := updateLast_eq_ok h
  refine ⟨listKeeps_replaceLast (hf a b hb), a, b, hb, ?_⟩
  rw [List.length_append, List.length_singleton, Nat.add_sub_cancel]
  exact List.getElem?_concat_length

end Keeps

/-! ### Maps and containers -/

theorem OrderedMap.keeps_insert {α β : Type} [DecidableEq α] {m : OrderedMap α β} {k : α}
    (h : m.contains k = false) (v : β) : Keeps Eq m.get? (m.insert k v).get? := by
  intro k' found hfound
  rw [OrderedMap.get?_insert]
  by_cases hk : k = k'
  · subst hk
    rw [contains, hfound] at h
    cases h
  · rw [if_neg hk]
    exact ⟨found, hfound, rfl⟩

namespace Container

variable {α κ : Type} [Keyed α κ] [DecidableEq κ] {R : α → α → Prop} {c d : Container α} {a b : α}

theorem get?_eq_some_iff {k : κ} : c.get? k = some a ↔ a ∈ c.items ∧ Keyed.key a = k := by
  constructor
  · exact fun h ↦ ⟨mem_of_get? h, key_of_get? h⟩
  · rintro ⟨hmem, rfl⟩
    cases hget : c.get? (Keyed.key a) with
    | none => exact absurd (List.mem_map_of_mem hmem) (get?_eq_none_iff.mp hget)
    | some b =>
      exact congrArg some
        (List.inj_on_of_nodup_map c.nodup (mem_of_get? hget) hmem (key_of_get? hget))

theorem keeps_add [Std.Refl R] (h : c.add a = .ok d) : Keeps R c.get? d.get? := by
  intro k found hfound
  refine ⟨found, ?_, Std.Refl.refl found⟩
  rw [get?, items_add h, List.find?_append]
  exact Option.or_of_isSome (Option.isSome_of_mem hfound) ▸ hfound

theorem key_notMem_of_add (h : c.add a = .ok d) : Keyed.key a ∉ c.keys := by
  intro hmem
  rw [add_eq_error_iff.mpr ⟨hmem, rfl⟩] at h
  cases h

theorem get?_add (h : c.add a = .ok d) (k : κ) :
    d.get? k = if Keyed.key a = k then some a else c.get? k := by
  rw [get?, items_add h, List.find?_append, ← get?, List.find?_singleton]
  split
  · rename_i hkey
    obtain rfl : Keyed.key a = k := of_decide_eq_true hkey
    rw [get?_eq_none_iff.mpr (key_notMem_of_add h), Option.none_or, if_pos rfl]
  · rename_i hkey
    rw [Option.or_none, if_neg fun heq ↦ hkey (decide_eq_true heq)]

theorem get?_add_self (h : c.add a = .ok d) : d.get? (Keyed.key a) = some a := by
  rw [get?_add h, if_pos rfl]

theorem find?_put_of_ne {items : List α} {k : κ} (h : Keyed.key b ≠ k) :
    (put b items).find? (fun a ↦ Keyed.key a = k) = items.find? fun a ↦ Keyed.key a = k := by
  unfold put
  induction items with
  | nil => rfl
  | cons first rest ih =>
    by_cases hfirst : Keyed.key first = Keyed.key b
    · have hne : ¬Keyed.key first = k := fun hk ↦ h (hfirst.symm.trans hk)
      rw [List.map_cons, if_pos hfirst, List.find?_cons_of_neg (by simpa using h),
        List.find?_cons_of_neg (by simpa using hne), ih]
    · rw [List.map_cons, if_neg hfirst, List.find?_cons, List.find?_cons, ih]

theorem get?_replace_of_ne {k : κ} (h : Keyed.key b ≠ k) : (c.replace b).get? k = c.get? k :=
  find?_put_of_ne h

theorem get?_replace_of_get? (hget : c.get? (Keyed.key b) = some a) :
    (c.replace b).get? (Keyed.key b) = some b :=
  get?_replace_self (key_of_get? hget ▸ List.mem_map.mpr ⟨a, mem_of_get? hget, rfl⟩)

theorem keeps_replace [Std.Refl R] (hget : c.get? (Keyed.key b) = some a) (h : R a b) :
    Keeps R c.get? (c.replace b).get? := by
  intro k found hfound
  by_cases hk : Keyed.key b = k
  · subst hk
    rw [hget] at hfound
    cases hfound
    exact ⟨b, get?_replace_of_get? hget, h⟩
  · exact ⟨found, (get?_replace_of_ne hk).trans hfound, Std.Refl.refl found⟩

/-- A part is changed in its place: its container keeps all others, and has the changed one. -/
theorem changed_of_get? [Std.Refl R] {k : κ} (hget : c.get? k = some a)
    (hkey : Keyed.key b = Keyed.key a) (h : R a b) :
    Keeps R c.get? (c.replace b).get? ∧ (c.replace b).get? k = some b := by
  obtain rfl : Keyed.key b = k := hkey.trans (key_of_get? hget)
  exact ⟨keeps_replace hget h, get?_replace_of_get? hget⟩

theorem get?_of_last? (h : c.last? = some a) : c.get? (Keyed.key a) = some a :=
  get?_eq_some_iff.mpr ⟨List.mem_of_getLast? h, rfl⟩

theorem require_of_last? (h : c.last? = some a) : c.require (Keyed.key a) = .ok a := by
  rw [require, get?_of_last? h]

/-- The part that was added last is changed in its place. -/
theorem items_replace_of_last {front : List α} (hitems : c.items = front ++ [a])
    (hkey : Keyed.key b = Keyed.key a) : (c.replace b).items = front ++ [b] := by
  have hnodup := c.nodup
  rw [hitems, List.map_append, List.nodup_append] at hnodup
  have hfront : front.map (fun d ↦ if Keyed.key d = Keyed.key b then b else d) = front := by
    refine (List.map_congr_left fun d hd ↦ if_neg fun heq ↦ ?_).trans (List.map_id _)
    exact hnodup.2.2 _ (List.mem_map_of_mem hd) _ (List.mem_singleton_self _) (heq.trans hkey)
  calc put b c.items = front.map (fun d ↦ if Keyed.key d = Keyed.key b then b else d) ++ [b] := by
        rw [put, hitems, List.map_append, List.map_singleton, if_pos hkey.symm]
    _ = front ++ [b] := by rw [hfront]

theorem exists_add_eq_ok (h : Keyed.key a ∉ c.items.map Keyed.key) :
    ∃ d, c.add a = .ok d ∧ d.items = c.items ++ [a] := by
  cases hadd : c.add a with
  | ok d => exact ⟨d, rfl, items_add hadd⟩
  | error e => exact absurd (add_eq_error_iff.mp hadd).1 h

theorem get?_of_require {k : κ} (h : c.require k = .ok a) : c.get? k = some a := by
  unfold require at h
  split at h
  · rename_i found hfound
    cases h
    exact hfound
  · cases h

/-- A part that is there is changed by a function that only adds to it. -/
theorem changed_of_require [Std.Refl R] {β : Type} {k : κ} {f : α → LineResult α} {g : α → β}
    {x : β} (h : (do
      let a ← ofModel (c.require k)
      let b ← f a
      return g b) = Except.ok x)
    (hkey : ∀ a b, R a b → Keyed.key b = Keyed.key a) (hf : ∀ a b, f a = .ok b → R a b) :
    ∃ a b, c.get? k = some a ∧ f a = .ok b ∧ x = g b ∧ Keeps R c.get? (c.replace b).get? ∧
      (c.replace b).get? k = some b := by
  obtain ⟨a, ha, h⟩ := except_bind_eq_ok_iff.mp h
  obtain ⟨b, hb, h⟩ := except_bind_eq_ok_iff.mp h
  cases h
  have hget := get?_of_require (except_mapError_eq_ok_iff.mp ha)
  obtain ⟨hkeeps, hchanged⟩ := changed_of_get? hget (hkey a b (hf a b hb)) (hf a b hb)
  exact ⟨a, b, hget, hb, rfl, hkeeps, hchanged⟩

end Container

/-! ### Blocks -/

/-- The settings of a block stay as they are. -/
def SettingBlock.Grows (b b' : SettingBlock) : Prop :=
  Keeps Eq b.settings.get? b'.settings.get?

instance : IsPreorder SettingBlock SettingBlock.Grows where
  refl b := .refl b.settings.get?
  trans _ _ _ h h' := h.trans h'

/-- A setting is added under a name that is new. -/
theorem SettingBlock.of_set {b b' : SettingBlock} {name : String} {value : Setting}
    (h : b.set name value = .ok b') :
    b.settings.contains name = false ∧
      b' = { b with settings := b.settings.insert name value } := by
  unfold set at h
  split at h
  · cases h
  · rename_i hnew
    cases h
    exact ⟨Bool.eq_false_iff.mpr hnew, rfl⟩

theorem SettingBlock.grows_set {b b' : SettingBlock} {name : String} {value : Setting}
    (h : b.set name value = .ok b') : b.Grows b' ∧ b'.settings.get? name = some value := by
  obtain ⟨hnew, rfl⟩ := of_set h
  exact ⟨OrderedMap.keeps_insert hnew value, OrderedMap.get?_insert_self _ _ _⟩

/-- The edges of a block stay as they are. -/
def EdgeBlock.Grows (b b' : EdgeBlock) : Prop :=
  Keeps Eq b.edges.get? b'.edges.get?

instance : IsPreorder EdgeBlock EdgeBlock.Grows where
  refl b := .refl b.edges.get?
  trans _ _ _ h h' := h.trans h'

/-- An edge is placed that has not been placed. -/
theorem EdgeBlock.of_set {b b' : EdgeBlock} {edge : EdgeId} {expression : String}
    (h : b.set edge expression = .ok b') :
    b.edges.contains edge = false ∧ b' = { b with edges := b.edges.insert edge expression } := by
  unfold set at h
  split at h
  · cases h
  · rename_i hnew
    cases h
    exact ⟨Bool.eq_false_iff.mpr hnew, rfl⟩

theorem EdgeBlock.grows_set {b b' : EdgeBlock} {edge : EdgeId} {expression : String}
    (h : b.set edge expression = .ok b') :
    b.Grows b' ∧ b'.edges.get? edge = some expression := by
  obtain ⟨hnew, rfl⟩ := of_set h
  exact ⟨OrderedMap.keeps_insert hnew expression, OrderedMap.get?_insert_self _ _ _⟩

/-! ### Level sets and timing sets -/

/-- A level set keeps its blocks with their settings. -/
structure LevelSet.Grows (s s' : LevelSet) : Prop where
  num_eq : s'.num = s.num
  pinblocks : ListKeeps SettingBlock.Grows s.pinblocks s'.pinblocks

instance : IsPreorder LevelSet LevelSet.Grows where
  refl _ := ⟨rfl, .refl _⟩
  trans _ _ _ h h' := ⟨h'.num_eq.trans h.num_eq, h.pinblocks.trans h'.pinblocks⟩

/-- Level sets and supply blocks stay. -/
structure LevelSetups.Grows (s s' : LevelSetups) : Prop where
  levelsets : Keeps LevelSet.Grows s.levelsets.get? s'.levelsets.get?
  dpsblocks : ListKeeps SettingBlock.Grows s.dpsblocks s'.dpsblocks

instance : IsPreorder LevelSetups LevelSetups.Grows where
  refl _ := ⟨.refl _, .refl _⟩
  trans _ _ _ h h' := ⟨h.levelsets.trans h'.levelsets, h.dpsblocks.trans h'.dpsblocks⟩

/-- A timing set keeps its period and its blocks with their edges. -/
structure TimingSet.Grows (s s' : TimingSet) : Prop where
  num_eq : s'.num = s.num
  period : ∀ x, s.period = some x → s'.period = some x
  edgeblocks : ListKeeps EdgeBlock.Grows s.edgeblocks s'.edgeblocks

instance : IsPreorder TimingSet TimingSet.Grows where
  refl _ := ⟨rfl, fun _ h ↦ h, .refl _⟩
  trans _ _ _ h h' := ⟨h'.num_eq.trans h.num_eq, fun x hx ↦ h'.period x (h.period x hx),
    h.edgeblocks.trans h'.edgeblocks⟩

/-- Timing sets stay. -/
def TimingSetups.Grows (s s' : TimingSetups) : Prop :=
  Keeps TimingSet.Grows s.timingsets.get? s'.timingsets.get?

instance : IsPreorder TimingSetups TimingSetups.Grows where
  refl s := .refl s.timingsets.get?
  trans _ _ _ h h' := h.trans h'

/-! ### Equation sets -/

section EqnSets

variable {Setups : Type} {R : Setups → Setups → Prop}

/-- Declared specs stay declared, equations stay as they are, and what else there is grows. -/
structure EqnSet.Grows (R : Setups → Setups → Prop) (e e' : EqnSet Setups) : Prop where
  num_eq : e'.num = e.num
  specs : ∀ name, e.declares name = true → e'.declares name = true
  equations : Keeps Eq e.equations.get? e'.equations.get?
  setups : R e.setups e'.setups

instance [IsPreorder Setups R] : IsPreorder (EqnSet Setups) (EqnSet.Grows R) where
  refl e := ⟨rfl, fun _ h ↦ h, .refl _, Std.Refl.refl e.setups⟩
  trans _ _ _ h h' := ⟨h'.num_eq.trans h.num_eq,
    fun name hname ↦ h'.specs name (h.specs name hname), h.equations.trans h'.equations,
    IsTrans.trans _ _ _ h.setups h'.setups⟩

variable {e e' : EqnSet Setups} {name : String}

theorem EqnSet.declares_declareSpec (unit : String) :
    (e.declareSpec name unit).declares name = true := by
  rw [declares, declareSpec, OrderedMap.contains, OrderedMap.get?_insert_self]
  rfl

theorem EqnSet.grows_declareSpec [IsPreorder Setups R] (unit : String) :
    e.Grows R (e.declareSpec name unit) where
  num_eq := rfl
  specs other h := by
    rw [declares, declareSpec, OrderedMap.contains, OrderedMap.get?_insert]
    split
    · rfl
    · exact h
  equations := .refl _
  setups := Std.Refl.refl e.setups

/-- An equation is added under a name that is new. -/
theorem EqnSet.of_addEquation {expression : String} (h : e.addEquation name expression = .ok e') :
    e.equations.contains name = false ∧
      e' = { e with equations := e.equations.insert name expression } := by
  unfold addEquation at h
  split at h
  · cases h
  · rename_i hnew
    cases h
    exact ⟨Bool.eq_false_iff.mpr hnew, rfl⟩

theorem EqnSet.grows_addEquation [IsPreorder Setups R] {expression : String}
    (h : e.addEquation name expression = .ok e') :
    e.Grows R e' ∧ e'.equations.get? name = some expression := by
  obtain ⟨hnew, rfl⟩ := of_addEquation h
  exact ⟨⟨rfl, fun _ hname ↦ hname, OrderedMap.keeps_insert hnew expression,
    Std.Refl.refl e.setups⟩, OrderedMap.get?_insert_self _ _ _⟩

theorem EqnSet.grows_setups {setups : Setups} (h : R e.setups setups) :
    e.Grows R { e with setups } :=
  ⟨rfl, fun _ hname ↦ hname, .refl _, h⟩

end EqnSets

/-! ### Spec sets -/

/-- A spec set keeps its values. -/
structure SpecSet.Grows (s s' : SpecSet) : Prop where
  id_eq : s'.id = s.id
  specs : Keeps Eq s.specs.get? s'.specs.get?

instance : IsPreorder SpecSet SpecSet.Grows where
  refl _ := ⟨rfl, .refl _⟩
  trans _ _ _ h h' := ⟨h'.id_eq.trans h.id_eq, h.specs.trans h'.specs⟩

/-- A value is added to the spec set that was added last. -/
theorem keeps_addValue {specsets : Container SpecSet} {s : SpecSet} {spec : Spec}
    {specs : Container Spec} (hlast : specsets.last? = some s)
    (hadd : s.specs.add spec = .ok specs) :
    Keeps SpecSet.Grows specsets.get? (specsets.replace { s with specs }).get? ∧
      (specsets.replace { s with specs }).get? s.id = some { s with specs } ∧
      specs.get? spec.name = some spec := by
  have hget : specsets.get? s.id = some s := Container.get?_of_last? hlast
  have hgrows : s.Grows { s with specs } := ⟨rfl, Container.keeps_add hadd⟩
  obtain ⟨hkeeps, hchanged⟩ := Container.changed_of_get? hget hgrows.id_eq hgrows
  exact ⟨hkeeps, hchanged, Container.get?_add_self hadd⟩

/-! ### Setups -/

/-- A levels setup that grows. -/
structure Levels.Grows (l l' : Levels) : Prop where
  eqnsets : Keeps (EqnSet.Grows LevelSetups.Grows) l.eqnsets.get? l'.eqnsets.get?
  specsets : Keeps SpecSet.Grows l.specsets.get? l'.specsets.get?

instance : IsPreorder Levels Levels.Grows where
  refl _ := ⟨.refl _, .refl _⟩
  trans _ _ _ h h' := ⟨h.eqnsets.trans h'.eqnsets, h.specsets.trans h'.specsets⟩

/-- A timing setup that grows. Complete specifications do not change. -/
structure Timing.Grows (t t' : Timing) : Prop where
  eqnsets : Keeps (EqnSet.Grows TimingSetups.Grows) t.eqnsets.get? t'.eqnsets.get?
  specsets : Keeps SpecSet.Grows t.specsets.get? t'.specsets.get?
  specifications : Keeps Eq t.specifications.get? t'.specifications.get?

instance : IsPreorder Timing Timing.Grows where
  refl _ := ⟨.refl _, .refl _, .refl _⟩
  trans _ _ _ h h' := ⟨h.eqnsets.trans h'.eqnsets, h.specsets.trans h'.specsets,
    h.specifications.trans h'.specifications⟩

/-! ### Runs -/

section Runs

variable {σ : Type} {origin : String} {step : σ → Text.Line → LineResult σ} {s t : σ}
  {line : Text.Line} {lines rest : List Text.Line}

theorem readLines_cons_eq_ok_iff :
    readLines origin step s (line :: rest) = .ok t ↔
      ∃ m, step s line = .ok m ∧ readLines origin step m rest = .ok t := by
  unfold readLines
  rw [List.foldlM_cons, except_bind_eq_ok_iff]
  exact exists_congr fun m ↦ and_congr_left' except_mapError_eq_ok_iff

theorem readLines_append_eq_ok_iff :
    readLines origin step s (lines ++ rest) = .ok t ↔
      ∃ m, readLines origin step s lines = .ok m ∧ readLines origin step m rest = .ok t := by
  unfold readLines
  rw [List.foldlM_append, except_bind_eq_ok_iff]

theorem readLines_append_of_ok {m : σ} (h : readLines origin step s lines = .ok m) :
    readLines origin step s (lines ++ rest) = readLines origin step m rest := by
  unfold readLines at h ⊢
  rw [List.foldlM_append, h]
  rfl

theorem readLines_cons_of_ok {m : σ} (h : step s line = .ok m) :
    readLines origin step s (line :: rest) = readLines origin step m rest := by
  unfold readLines
  rw [List.foldlM_cons, h]
  rfl

theorem readLines_cons_of_error {cause : LineError} (h : step s line = .error cause) :
    readLines origin step s (line :: rest) = .error (.line ⟨origin, line.number⟩ cause) := by
  unfold readLines
  rw [List.foldlM_cons, h]
  rfl

/-- A line that changes nothing can be left out. -/
theorem readLines_leaveOut (h : readLines origin step s lines = .ok t)
    (hline : step t line = .ok t) :
    readLines origin step s (lines ++ line :: rest) = readLines origin step s (lines ++ rest) := by
  rw [readLines_append_of_ok h, readLines_append_of_ok h, readLines_cons_of_ok hline]

/-- What every line of a run keeps, the run keeps. -/
theorem readLines_induction {P : σ → Prop} (h : readLines origin step s lines = .ok t) (hs : P s)
    (hstep : ∀ s t, ∀ line ∈ lines, P s → step s line = .ok t → P t) : P t := by
  induction lines generalizing s with
  | nil =>
    cases h
    exact hs
  | cons line rest ih =>
    obtain ⟨m, hm, hrest⟩ := readLines_cons_eq_ok_iff.mp h
    have hfirst : P m := hstep s m line List.mem_cons_self hs hm
    exact ih hrest hfirst fun s t line hline ↦ hstep s t line (List.mem_cons_of_mem _ hline)

/-- What every line of a run keeps for the lines up to it, the run keeps for all its lines. -/
theorem readLines_induction_front {P : List Text.Line → σ → Prop} {front : List Text.Line}
    (h : readLines origin step s lines = .ok t) (hs : P front s)
    (hstep : ∀ front s t, ∀ line ∈ lines, P front s → step s line = .ok t →
      P (front ++ [line]) t) : P (front ++ lines) t := by
  induction lines generalizing front s with
  | nil =>
    cases h
    rwa [List.append_nil]
  | cons line rest ih =>
    obtain ⟨m, hm, hrest⟩ := readLines_cons_eq_ok_iff.mp h
    have hfirst : P (front ++ [line]) m := hstep front s m line List.mem_cons_self hs hm
    rw [List.append_cons]
    exact ih hrest hfirst fun front s t line hline ↦
      hstep front s t line (List.mem_cons_of_mem _ hline)

/-- A run fails at one of its lines. -/
theorem exists_of_readLines_eq_error {e : ReadError}
    (h : readLines origin step s lines = .error e) :
    ∃ line ∈ lines, ∃ t cause, step t line = .error cause ∧
      e = .line ⟨origin, line.number⟩ cause := by
  induction lines generalizing s with
  | nil => cases h
  | cons line rest ih =>
    cases hstep : step s line with
    | error cause =>
      rw [readLines_cons_of_error hstep] at h
      cases h
      exact ⟨line, List.mem_cons_self, s, cause, hstep, rfl⟩
    | ok t =>
      rw [readLines_cons_of_ok hstep] at h
      obtain ⟨line', hline', hfails⟩ := ih h
      exact ⟨line', List.mem_cons_of_mem _ hline', hfails⟩

/-- The origin is only named in errors. -/
theorem readLines_of_origin (origin' : String) (h : readLines origin step s lines = .ok t) :
    readLines origin' step s lines = .ok t := by
  induction lines generalizing s with
  | nil => exact h
  | cons line rest ih =>
    obtain ⟨m, hm, hrest⟩ := readLines_cons_eq_ok_iff.mp h
    exact readLines_cons_eq_ok_iff.mpr ⟨m, hm, ih hrest⟩

theorem afterHeader_eq_ok_iff {origin expected : String} {accept : String → Bool}
    {all lines : List Text.Line} :
    afterHeader origin expected accept all = .ok lines ↔
      ∃ first, all = first :: lines ∧ accept first.text = true := by
  cases all with
  | nil => simp [afterHeader]
  | cons first rest =>
    rw [afterHeader]
    by_cases hfirst : accept first.text = true
    · simp [hfirst, and_assoc]
    · simp [hfirst]

theorem mem_of_afterHeader {origin expected : String} {accept : String → Bool}
    {all lines : List Text.Line} (h : afterHeader origin expected accept all = .ok lines) :
    ∀ line ∈ lines, line ∈ all := by
  obtain ⟨first, rfl, -⟩ := afterHeader_eq_ok_iff.mp h
  exact fun line hline ↦ List.mem_cons_of_mem _ hline

end Runs

end TesterSetup
