import TesterSetup.Proofs.PortResolution
import TesterSetup.Proofs.SpecDependents

/-!
# Tables of resolved blocks

What a resolved table holds, said of the blocks it was written from. A `Block` is a group of pins
with its settings, in which form levels and timing agree. `PinTable.WrittenFrom` describes the table
of a list of blocks completely: which pins it has and in which order, which settings each pin has
and in which order, and that the last block which lists a pin and defines a name gives the value.

`settleAll_writtenFrom` is the loop over the assignments of the blocks, for any way of valuing a
setting. What a setting gives is said without the resolver: `TextGives` for the value of a text over
a closure, `Setting.Gives` for a setting of levels, where a conditional that runs into a name
without a value gives zero. `resolutions_hold_blocks` is the result for resolved setups.
-/

set_option autoImplicit false

namespace TesterSetup

/-! ### Blocks -/

/-- A group of pins with its settings. -/
structure Block (κ σ : Type) where
  pins : List String
  settings : OrderedMap κ σ

/-- A block of levels. -/
def SettingBlock.toBlock (b : SettingBlock) : Block String Setting :=
  ⟨b.pins, b.settings⟩

/-- A block of a timing set. -/
def EdgeBlock.toBlock (b : EdgeBlock) : Block EdgeId String :=
  ⟨b.pins, b.edges⟩

namespace Block

variable {κ σ : Type}

/-- The settings of a block in order. -/
def assignments (b : Block κ σ) : List (Assignment κ σ) :=
  b.settings.entries.map fun e ↦ ⟨b.pins, e.1, e.2⟩

theorem pins_of_mem_assignments {b : Block κ σ} {a : Assignment κ σ} (h : a ∈ b.assignments) :
    a.pins = b.pins := by
  obtain ⟨e, -, rfl⟩ := List.mem_map.mp h
  rfl

theorem map_name_assignments (b : Block κ σ) :
    b.assignments.map Assignment.name = b.settings.keys :=
  List.map_map

end Block

/-- A table as a list of blocks leaves it, when `Gives` says what a setting of a block gives. -/
structure PinTable.WrittenFrom {κ σ ν : Type} [DecidableEq κ]
    (Gives : σ → ν → Prop) (blocks : List (Block κ σ)) (t : PinTable κ ν) : Prop where
  /-- The pins are those that some block with a setting lists. -/
  mem_keys : ∀ pin, pin ∈ t.keys ↔ ∃ b ∈ blocks, pin ∈ b.pins ∧ b.settings.isEmpty = false
  /-- They come in the order of these blocks, each where it stands first. -/
  keys : t.keys = ((blocks.filter fun b ↦ !b.settings.isEmpty).flatMap Block.pins).eraseDups
  /-- For every pin the names in the blocks that list it, each where it stands first. -/
  names : ∀ pin, t.names pin =
    ((blocks.filter fun b ↦ pin ∈ b.pins).flatMap fun b ↦ b.settings.keys).eraseDups
  /-- The last block that lists a pin and defines a name gives the value. -/
  value : ∀ earlier b later pin name setting, blocks = earlier ++ b :: later → pin ∈ b.pins →
    b.settings.get? name = some setting →
    (∀ c ∈ later, pin ∈ c.pins → name ∉ c.settings.keys) →
      ∃ v, t.value? pin name = some v ∧ Gives setting v

/-! ### Keys in the order of first writes -/

section Keys

variable {α : Type} [DecidableEq α]

/-- Adding keys one after the other appends the new ones, each where it stands first. -/
theorem foldl_addKey (l keys : List α) :
    l.foldl addKey keys = keys ++ (l.filter (· ∉ keys)).eraseDups := by
  induction l generalizing keys with
  | nil => simp
  | cons a rest ih =>
    rw [List.foldl_cons, ih]
    by_cases ha : a ∈ keys
    · rw [addKey_of_mem ha, List.filter_cons_of_neg (by simpa using ha)]
    · have hkeys : addKey keys a = keys ++ [a] := if_neg ha
      have hfilter : rest.filter (· ∉ keys ++ [a]) =
          (rest.filter (· ∉ keys)).filter fun b ↦ !b == a := by
        rw [List.filter_filter]
        refine List.filter_congr fun b _ ↦ ?_
        by_cases hb : b = a <;> simp [hb]
      rw [hkeys, List.filter_cons_of_pos (by simpa using ha), List.eraseDups_cons, hfilter,
        List.append_assoc, List.singleton_append]

theorem foldl_addKey_nil (l : List α) : l.foldl addKey [] = l.eraseDups := by
  rw [foldl_addKey]
  simp

theorem foldl_addKey_of_subset {l keys : List α} (h : ∀ a ∈ l, a ∈ keys) :
    l.foldl addKey keys = keys := by
  have hfilter : l.filter (· ∉ keys) = [] := by
    refine List.filter_eq_nil_iff.mpr fun a ha ↦ ?_
    simpa using h a ha
  rw [foldl_addKey, hfilter]
  exact List.append_nil keys

theorem mem_foldl_addKey {l keys : List α} {a : α} (h : a ∈ l) : a ∈ l.foldl addKey keys := by
  rw [foldl_addKey, List.mem_append, List.mem_eraseDups, List.mem_filter]
  by_cases ha : a ∈ keys
  · exact Or.inl ha
  · exact Or.inr ⟨h, by simpa using ha⟩

end Keys

/-! ### Assignments of blocks -/

section Assignments

variable {κ σ ν : Type} {b : Block κ σ} {blocks : List (Block κ σ)} {pin : String}

/-- A block names its pins once for each of its settings; only the first time adds keys. -/
theorem foldl_addKey_assignments (b : Block κ σ) (keys : List String) :
    (b.assignments.flatMap Assignment.pins).foldl addKey keys =
      if b.settings.isEmpty then keys else b.pins.foldl addKey keys := by
  have hpins (entries : List (κ × σ)) : ((entries.map fun e ↦ (⟨b.pins, e.1, e.2⟩ :
      Assignment κ σ)).flatMap Assignment.pins).foldl addKey (b.pins.foldl addKey keys) =
        b.pins.foldl addKey keys := by
    refine foldl_addKey_of_subset fun pin hpin ↦ ?_
    obtain ⟨a, ha, hpin⟩ := List.mem_flatMap.mp hpin
    obtain ⟨e, -, rfl⟩ := List.mem_map.mp ha
    exact mem_foldl_addKey hpin
  unfold Block.assignments OrderedMap.isEmpty
  cases b.settings.entries with
  | nil => rfl
  | cons e rest =>
    rw [List.map_cons, List.flatMap_cons, List.foldl_append, hpins]
    rfl

theorem foldl_addKey_flatMap_assignments (blocks : List (Block κ σ)) (keys : List String) :
    ((blocks.flatMap Block.assignments).flatMap Assignment.pins).foldl addKey keys =
      ((blocks.filter fun b ↦ !b.settings.isEmpty).flatMap Block.pins).foldl addKey keys := by
  induction blocks generalizing keys with
  | nil => rfl
  | cons b rest ih =>
    rw [List.flatMap_cons, List.flatMap_append, List.foldl_append, foldl_addKey_assignments, ih]
    cases hb : b.settings.isEmpty with
    | true => rw [List.filter_cons_of_neg (by simp [hb]), if_pos rfl]
    | false =>
      rw [List.filter_cons_of_pos (by simp [hb]), if_neg (by simp), List.flatMap_cons,
        List.foldl_append]

theorem map_name_filter_assignments (b : Block κ σ) (pin : String) :
    (b.assignments.filter (pin ∈ ·.pins)).map Assignment.name =
      if pin ∈ b.pins then b.settings.keys else [] := by
  by_cases hpin : pin ∈ b.pins
  · have hall : b.assignments.filter (pin ∈ ·.pins) = b.assignments := by
      refine List.filter_eq_self.mpr fun a ha ↦ ?_
      rw [Block.pins_of_mem_assignments ha]
      exact decide_eq_true hpin
    rw [hall, if_pos hpin, b.map_name_assignments]
  · have hnone : b.assignments.filter (pin ∈ ·.pins) = [] := by
      refine List.filter_eq_nil_iff.mpr fun a ha ↦ ?_
      rw [Block.pins_of_mem_assignments ha, decide_eq_true_eq]
      exact hpin
    rw [hnone, if_neg hpin, List.map_nil]

theorem map_name_filter_flatMap_assignments (blocks : List (Block κ σ)) (pin : String) :
    ((blocks.flatMap Block.assignments).filter (pin ∈ ·.pins)).map Assignment.name =
      (blocks.filter fun b ↦ pin ∈ b.pins).flatMap fun b ↦ b.settings.keys := by
  induction blocks with
  | nil => rfl
  | cons b rest ih =>
    rw [List.flatMap_cons, List.filter_append, List.map_append, ih, map_name_filter_assignments]
    by_cases hpin : pin ∈ b.pins
    · rw [if_pos hpin, List.filter_cons_of_pos (by simpa using hpin), List.flatMap_cons]
    · rw [if_neg hpin, List.filter_cons_of_neg (by simpa using hpin), List.nil_append]

variable [DecidableEq κ] {name : κ} {setting : σ}

theorem lastFor_append (first second : List (Assignment κ σ)) (pin : String) (name : κ) :
    lastFor (first ++ second) pin name =
      (lastFor second pin name).or (lastFor first pin name) := by
  rw [lastFor, List.reverse_append, List.find?_append]
  rfl

theorem lastFor_eq_none {assignments : List (Assignment κ σ)}
    (h : ∀ a ∈ assignments, pin ∈ a.pins → a.name ≠ name) :
    lastFor assignments pin name = none := by
  refine List.find?_eq_none.mpr fun a ha hfor ↦ ?_
  obtain ⟨hpin, hname⟩ := of_decide_eq_true hfor
  exact h a (List.mem_reverse.mp ha) hpin hname

/-- Within a block there is one assignment for a name. -/
theorem lastFor_assignments (hpin : pin ∈ b.pins) (h : b.settings.get? name = some setting) :
    lastFor b.assignments pin name = some ⟨b.pins, name, setting⟩ := by
  have hmem : (⟨b.pins, name, setting⟩ : Assignment κ σ) ∈ b.assignments :=
    List.mem_map.mpr ⟨(name, setting), OrderedMap.get?_eq_some_iff.mp h, rfl⟩
  have hsome : (lastFor b.assignments pin name).isSome :=
    List.find?_isSome.mpr ⟨_, List.mem_reverse.mpr hmem, decide_eq_true ⟨hpin, rfl⟩⟩
  obtain ⟨a, ha⟩ := Option.isSome_iff_exists.mp hsome
  obtain ⟨e, he, rfl⟩ := List.mem_map.mp (List.mem_reverse.mp (List.mem_of_find?_eq_some ha))
  have hfor := List.find?_some ha
  obtain ⟨-, rfl⟩ := of_decide_eq_true hfor
  have hget : b.settings.get? e.1 = some e.2 := OrderedMap.get?_eq_some_iff.mpr he
  rw [ha, Option.some.inj (hget.symm.trans h)]

theorem lastFor_flatMap_assignments {earlier later : List (Block κ σ)} (hpin : pin ∈ b.pins)
    (h : b.settings.get? name = some setting)
    (hlater : ∀ c ∈ later, pin ∈ c.pins → name ∉ c.settings.keys) :
    lastFor ((earlier ++ b :: later).flatMap Block.assignments) pin name =
      some ⟨b.pins, name, setting⟩ := by
  have hnone : lastFor (later.flatMap Block.assignments) pin name = none := by
    refine lastFor_eq_none fun a ha hmem hname ↦ ?_
    obtain ⟨c, hc, hac⟩ := List.mem_flatMap.mp ha
    rw [Block.pins_of_mem_assignments hac] at hmem
    refine hlater c hc hmem ?_
    rw [← c.map_name_assignments, ← hname]
    exact List.mem_map_of_mem hac
  rw [List.flatMap_append, List.flatMap_cons, lastFor_append, lastFor_append, hnone,
    lastFor_assignments hpin h]
  rfl

theorem keys_settleAll_blocks {value : Assignment κ σ → Traced ν} {t : PinTable κ ν}
    (h : (settleAll value (blocks.flatMap Block.assignments) .empty).result = .ok t) :
    t.keys = ((blocks.filter fun b ↦ !b.settings.isEmpty).flatMap Block.pins).eraseDups := by
  rw [keys_settleAll h, foldl_addKey_flatMap_assignments]
  exact foldl_addKey_nil _

/-- The loop over the assignments of blocks leaves the table of the blocks. -/
theorem settleAll_writtenFrom (value : Assignment κ σ → Traced ν)
    {Gives : σ → ν → Prop} {t : PinTable κ ν}
    (hgives : ∀ a v, (value a).result = .ok v → Gives a.setting v)
    (h : (settleAll value (blocks.flatMap Block.assignments) .empty).result = .ok t) :
    t.WrittenFrom Gives blocks where
  mem_keys pin := by
    rw [keys_settleAll_blocks h, List.mem_eraseDups, List.mem_flatMap]
    simp only [List.mem_filter, Bool.not_eq_true']
    constructor
    · rintro ⟨b, ⟨hb, hsettings⟩, hpin⟩
      exact ⟨b, hb, hpin, hsettings⟩
    · rintro ⟨b, hb, hpin, hsettings⟩
      exact ⟨b, ⟨hb, hsettings⟩, hpin⟩
  keys := keys_settleAll_blocks h
  names pin := by
    rw [names_settleAll h, map_name_filter_flatMap_assignments]
    exact foldl_addKey_nil _
  value earlier b later pin name setting hblocks hpin hget hlater := by
    subst hblocks
    obtain ⟨v, hv, ht⟩ :=
      value?_settleAll_of_lastFor (lastFor_flatMap_assignments hpin hget hlater) h
    exact ⟨v, ht, hgives _ v hv⟩

end Assignments

/-! ### What settings give -/

section Gives

variable {evaluate : Evaluator} {closure : Variables}

/-- The value of a text over a closure: that of the variable it names, or else its evaluation. -/
def TextGives (evaluate : Evaluator) (closure : Variables) (text : String) (x : Float) : Prop :=
  closure.get? (Text.trimmed text) = some x ∨
    closure.get? (Text.trimmed text) = none ∧ evaluate text closure = .ok x

/-- What a setting of levels stands for over a closure: a literal or a flag for itself, an
expression for its value. -/
inductive Setting.Produces (evaluate : Evaluator) (closure : Variables) :
    Setting → SettingValue → Prop where
  | literal (text : String) : Produces evaluate closure (.literal text) (.literal text)
  | flag (on : Bool) : Produces evaluate closure (.flag on) (.flag on)
  | number {text : String} {x : Float} (h : TextGives evaluate closure text x) :
    Produces evaluate closure (.expression text) (.number x)

/-- What a setting of levels gives over a closure. -/
inductive Setting.Gives (evaluate : Evaluator) (closure : Variables) :
    Setting → SettingValue → Prop where
  | produced {setting : Setting} {v : SettingValue} (h : setting.Produces evaluate closure v) :
    Gives evaluate closure setting v
  /-- A conditional whose evaluation ends in a name without a value. -/
  | unresolved {text name expression : String}
    (hname : closure.get? (Text.trimmed text) = none)
    (hfail : evaluate text closure = .error (.unresolved name expression))
    (hconditional : Text.contains text "?" = true) :
    Gives evaluate closure (.expression text) (.number 0)

theorem textGives_of_result_valueOf {purpose : Purpose} {text : String} {x : Float}
    (h : (Traced.valueOf evaluate purpose text closure).result = .ok x) :
    TextGives evaluate closure text x := by
  cases hget : closure.get? (Text.trimmed text) with
  | some value =>
    rw [Traced.valueOf_of_get? hget] at h
    cases h
    exact Or.inl hget
  | none =>
    rw [Traced.valueOf_of_get?_eq_none hget] at h
    cases heval : evaluate text closure with
    | ok value =>
      rw [heval] at h
      cases h
      exact Or.inr ⟨hget, heval⟩
    | error cause =>
      rw [heval] at h
      cases h

theorem get?_eq_none_of_result_valueOf_error {purpose : Purpose} {text : String}
    {error : ResolveError}
    (h : (Traced.valueOf evaluate purpose text closure).result = .error error) :
    closure.get? (Text.trimmed text) = none := by
  cases hget : closure.get? (Text.trimmed text) with
  | none => rfl
  | some value =>
    rw [Traced.valueOf_of_get? hget] at h
    cases h

theorem gives_of_result_expressionValue {pins : List String} {name text : String} {x : Float}
    (h : (expressionValue evaluate closure pins name text).result = .ok x) :
    (Setting.expression text).Gives evaluate closure (.number x) := by
  unfold expressionValue at h
  dsimp only at h
  split at h
  · rename_i purpose unknown expression hfail
    have hnone := get?_eq_none_of_result_valueOf_error hfail
    split at h
    · rename_i hconditional
      cases h
      obtain ⟨cause, hcause, heval⟩ := Traced.result_valueOf_eq_error hfail
      cases heval
      exact .unresolved hnone hcause hconditional
    · rw [hfail] at h
      cases h
  · exact .produced (.number (textGives_of_result_valueOf h))

theorem Setting.gives_of_result_value {setting : Setting} {pins : List String} {name : String}
    {v : SettingValue} (h : (setting.value evaluate closure pins name).result = .ok v) :
    setting.Gives evaluate closure v := by
  cases setting with
  | literal text =>
    cases h
    exact .produced (.literal text)
  | flag on =>
    cases h
    exact .produced (.flag on)
  | expression text =>
    obtain ⟨x, hx, hv⟩ := Traced.result_bind_eq_ok_iff.mp h
    cases hv
    exact gives_of_result_expressionValue hx

/-- A table of settings, written from blocks over a closure. -/
def PinTable.HoldsSettings (evaluate : Evaluator) (closure : Variables)
    (blocks : List SettingBlock) (t : PinTable String SettingValue) : Prop :=
  t.WrittenFrom (Setting.Gives evaluate closure) (blocks.map SettingBlock.toBlock)

/-- A table of edge times, written from blocks over a closure. -/
def PinTable.HoldsEdges (evaluate : Evaluator) (closure : Variables) (blocks : List EdgeBlock)
    (t : PinTable EdgeId Float) : Prop :=
  t.WrittenFrom (TextGives evaluate closure) (blocks.map EdgeBlock.toBlock)

theorem settleBlocks_holdsSettings {blocks : List SettingBlock} {t : PinTable String SettingValue}
    (h : (settleBlocks evaluate closure blocks .empty).result = .ok t) :
    t.HoldsSettings evaluate closure blocks := by
  rw [settleBlocks_eq] at h
  refine settleAll_writtenFrom (settingValue evaluate closure)
    (fun _ _ ↦ Setting.gives_of_result_value) ?_
  rw [List.flatMap_map]
  exact h

theorem settleEdgeBlocks_holdsEdges {blocks : List EdgeBlock} {t : PinTable EdgeId Float}
    (h : (settleEdgeBlocks evaluate closure blocks .empty).result = .ok t) :
    t.HoldsEdges evaluate closure blocks := by
  rw [settleEdgeBlocks_eq] at h
  refine settleAll_writtenFrom (edgeTime evaluate closure)
    (fun _ _ ↦ textGives_of_result_valueOf) ?_
  rw [List.flatMap_map]
  exact h

end Gives

/-! ### Resolved setups -/

section Setups

variable {evaluate : Evaluator}

theorem Levels.tables_of_result_resolve {levels : Levels} {eqnset specset levelset : Nat}
    {r : LevelsResolution}
    (h : (levels.resolve evaluate eqnset specset levelset).result = .ok r) :
    ∃ e l, levels.eqnsets.get? eqnset = some e ∧ e.setups.levelsets.get? levelset = some l ∧
      r.pinSettings.dps.HoldsSettings evaluate r.closure e.setups.dpsblocks ∧
      r.pinSettings.pins.HoldsSettings evaluate r.closure l.pinblocks := by
  unfold resolve at h
  simp only [Traced.result_bind_eq_ok_iff, Traced.result_ofModel_require_eq_ok_iff] at h
  obtain ⟨e, he, s, hs, l, hl, seeded, -, closure, -, dps, hdps, pins, hpins, hr⟩ := h
  cases hr
  exact ⟨e, l, he, hl, settleBlocks_holdsSettings hdps, settleBlocks_holdsSettings hpins⟩

theorem TimingSet.holdsEdges_of_result_resolve {t : TimingSet} {eqnset : Nat}
    {closure : Variables} {edges : PinEdges}
    (h : (t.resolve evaluate eqnset closure).result = .ok edges) :
    edges.pins.HoldsEdges evaluate closure t.edgeblocks := by
  unfold resolve at h
  cases hperiod : t.period with
  | none =>
    rw [hperiod] at h
    cases h
  | some period =>
    simp only [hperiod, Traced.result_bind_eq_ok_iff] at h
    obtain ⟨text, -, x, -, pins, hpins, hedges⟩ := h
    cases hedges
    exact settleEdgeBlocks_holdsEdges hpins

/-- A specification that resolves is given one timing set, or one for each of its ports. -/
theorem Timing.forall₂_of_result_resolveSpecification {timing : Timing} {name : String}
    {given : List Nat} {m : MultiportResolution}
    (h : (timing.resolveSpecification evaluate name given).result = .ok m) :
    ∃ s, timing.specifications.get? name = some s ∧
      List.Forall₂ (fun (q : PortSet × Nat) entry ↦ entry.1 = q.1.port ∧
        (q.1.resolve evaluate timing name s.specs q.2).result = .ok entry.2)
        (s.portsWith given) m.ports.entries := by
  have hrun := h
  unfold resolveSpecification at hrun
  simp only [Traced.result_bind_eq_ok_iff, Traced.result_ofModel_require_eq_ok_iff,
    Traced.result_lift] at hrun
  obtain ⟨s, hs, timingsets, hsets, -⟩ := hrun
  have hgiven : given.length = 1 ∨ given.length = s.portsets.size := by
    unfold Specification.timingSets at hsets
    split at hsets
    · exact Or.inl rfl
    · split at hsets
      · rename_i hlength
        exact Or.inr hlength
      · cases hsets
  exact ⟨s, hs, ((result_resolveSpecification_eq_ok_iff hs hgiven).mp h).2⟩

/-- What resolved setups hold. When levels resolve, the supplies hold what the DPS blocks of the
equation set write and the pins hold what the pin blocks of the chosen level set write, and nothing
else; when timing resolves, for a spec set or for the ports of a specification, the pins of each
port hold what the edge blocks of its timing set write. -/
theorem resolutions_hold_blocks (evaluate : Evaluator) :
    (∀ (levels : Levels) (eqnset specset levelset : Nat) (r : LevelsResolution),
      (levels.resolve evaluate eqnset specset levelset).result = .ok r →
        ∃ e l, levels.eqnsets.get? eqnset = some e ∧ e.setups.levelsets.get? levelset = some l ∧
          r.pinSettings.dps.HoldsSettings evaluate r.closure e.setups.dpsblocks ∧
          r.pinSettings.pins.HoldsSettings evaluate r.closure l.pinblocks) ∧
    (∀ (timing : Timing) (eqnset specset timingset : Nat) (r : TimingResolution),
      (timing.resolve evaluate eqnset specset timingset).result = .ok r →
        ∃ e t, timing.eqnsets.get? eqnset = some e ∧ e.setups.timingsets.get? timingset = some t ∧
          r.pinEdges.pins.HoldsEdges evaluate r.closure t.edgeblocks) ∧
    ∀ (timing : Timing) (name : String) (given : List Nat) (m : MultiportResolution),
      (timing.resolveSpecification evaluate name given).result = .ok m →
        ∃ s, timing.specifications.get? name = some s ∧
          List.Forall₂ (fun (q : PortSet × Nat) entry ↦ entry.1 = q.1.port ∧
            ∃ e t, timing.eqnsets.get? q.1.eqnset = some e ∧
              e.setups.timingsets.get? q.2 = some t ∧
              entry.2.pinEdges.pins.HoldsEdges evaluate entry.2.closure t.edgeblocks)
            (s.portsWith given) m.ports.entries := by
  refine ⟨fun levels eqnset specset levelset r h ↦ Levels.tables_of_result_resolve h,
    fun timing eqnset specset timingset r h ↦ ?_, fun timing name given m h ↦ ?_⟩
  · obtain ⟨e, s, t, he, -, ht, -, -, hedges⟩ := Timing.result_resolve_eq_ok_iff.mp h
    exact ⟨e, t, he, ht, TimingSet.holdsEdges_of_result_resolve hedges⟩
  · obtain ⟨s, hs, hports⟩ := Timing.forall₂_of_result_resolveSpecification h
    refine ⟨s, hs, hports.imp fun q entry ⟨hport, hrun⟩ ↦ ⟨hport, ?_⟩⟩
    obtain ⟨e, t, he, ht, -, -, -, hedges, -⟩ := PortSet.result_resolve_eq_ok_iff.mp hrun
    exact ⟨e, t, he, ht, TimingSet.holdsEdges_of_result_resolve hedges⟩

/-- An equation set whose pin blocks overlap: one lists a pin twice, one has no settings, and one
gives a value in place of an earlier one. The last asks for a name that has no value. -/
def overlappingEqnSet : LevelsEqnSet where
  num := 1
  description := ""
  specs := .ofList [("V", "V")]
  equations := .ofList [("W", "V*2")]
  setups :=
    { levelsets := ⟨[⟨1, "", [
        ⟨["P2", "P1", "P2"], .ofList [("vih", .expression "V"), ("term", .literal "z")]⟩,
        ⟨["P9"], .empty⟩,
        ⟨["P3", "P1"], .ofList [("vil", .expression "0"), ("vih", .expression "W+1")]⟩,
        ⟨["P4"], .ofList [("vih", .expression "mode > 0 ? V : 0")]⟩]⟩],
        by decide⟩
      dpsblocks := [⟨["VDD"], .ofList [("vout", .expression "W"), ("protect", .flag true)]⟩] }
  source := none

/-- Its only setup. -/
def overlappingLevels : Levels where
  eqnsets := ⟨[overlappingEqnSet], by decide⟩
  specsets := ⟨[{ SpecSet.ofNum 1 1 "" with specs := ⟨[.ofActual "V" 3], by decide⟩ }], by decide⟩

theorem resolutions_hold_blocks_overlapping : ∃ r : LevelsResolution,
    (overlappingLevels.resolve compute 1 1 1).result = .ok r ∧
    r.pinSettings.pins.keys = ["P2", "P1", "P3", "P4"] ∧
    r.pinSettings.pins.names "P1" = ["vih", "term", "vil"] ∧
    ∃ v, r.pinSettings.pins.value? "P1" "vih" = some v ∧
      (Setting.expression "W+1").Gives compute r.closure v := by
  have hrun : (overlappingLevels.resolve compute 1 1 1).result.isOk := by decide +kernel
  obtain ⟨r, h⟩ := exists_eq_ok_of_isOk hrun
  obtain ⟨e, l, he, hl, -, hpins⟩ :=
    (resolutions_hold_blocks compute).1 overlappingLevels 1 1 1 r h
  cases he
  cases hl
  refine ⟨r, h, hpins.keys.trans (by decide), (hpins.names "P1").trans (by decide), ?_⟩
  exact hpins.value [_, _] _ [_] "P1" "vih" (.expression "W+1") rfl (by decide) rfl (by decide)

/-- A pin may hold a number that its expression has not produced. -/
theorem not_forall_settings_produced :
    ¬∀ (levels : Levels) (eqnset specset levelset : Nat) (r : LevelsResolution),
      (levels.resolve compute eqnset specset levelset).result = .ok r →
        ∃ e l, levels.eqnsets.get? eqnset = some e ∧ e.setups.levelsets.get? levelset = some l ∧
          r.pinSettings.pins.WrittenFrom (Setting.Produces compute r.closure)
            (l.pinblocks.map SettingBlock.toBlock) := by
  intro hall
  have hrun : (overlappingLevels.resolve compute 1 1 1).result.toOption.any (fun r ↦
      (r.closure.get? "mode > 0 ? V : 0").isNone && !(compute "mode > 0 ? V : 0" r.closure).isOk) =
      true := by decide +kernel
  obtain ⟨r, h, hfail⟩ := exists_eq_ok_of_any hrun
  rw [Bool.and_eq_true, Option.isNone_iff_eq_none, Bool.not_eq_true'] at hfail
  obtain ⟨hname, heval⟩ := hfail
  obtain ⟨e, l, he, hl, hpins⟩ := hall overlappingLevels 1 1 1 r h
  cases he
  cases hl
  obtain ⟨v, -, hv⟩ := hpins.value [_, _, _] _ [] "P4" "vih" (.expression "mode > 0 ? V : 0") rfl
    (by decide) rfl (by simp)
  have htrimmed : Text.trimmed "mode > 0 ? V : 0" = "mode > 0 ? V : 0" := by decide +kernel
  cases hv with
  | number hvalue =>
    rw [TextGives, htrimmed, hname] at hvalue
    rcases hvalue with hsome | ⟨-, hok⟩
    · cases hsome
    · rw [hok] at heval
      cases heval

end Setups

end TesterSetup
