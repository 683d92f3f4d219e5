import TesterSetup.Proofs.WrittenLevels

/-!
# Levels read back

A levels setup that fits the language is read back from its text. `LevelsReader.Leads P lines Q`
says that the lines lead every reader with `P` to one with `Q`; it composes along the text
(`Leads.append`) and along the parts of a list, where what holds after some of them is stated by the
prefix that has been read (`Leads.flatMap`). `InEqnSet`, `InLevelSet` and `InSpecSet` are the states
between the lines: all finished parts and, as the last one, the part that is being built.
-/

set_option autoImplicit false

namespace TesterSetup

open TesterSetup.Text

/-! ### Lists read part by part -/

/-- The parts before a part have other keys. -/
theorem notMem_of_firsts {α κ : Type} {key : α → κ} {front l : List α} {a : α}
    (hnodup : (l.map key).Nodup) (hfirsts : front ++ [a] <+: l) : key a ∉ front.map key := by
  have hfront := hnodup.sublist ((hfirsts.map key).sublist)
  rw [List.map_append, List.nodup_append] at hfront
  exact fun hmem ↦ hfront.2.2 _ hmem _ (List.mem_singleton_self _) rfl

theorem mem_of_firsts {α : Type} {front l : List α} {a : α} (hfirsts : front ++ [a] <+: l) :
    a ∈ l :=
  hfirsts.subset (List.mem_append_right _ (List.mem_singleton_self a))

namespace OrderedMap

variable {α β : Type} [DecidableEq α]

theorem ofList_concat (l : List (α × β)) (e : α × β) :
    ofList (l ++ [e]) = (ofList l).insert e.1 e.2 :=
  List.foldl_append

theorem entries_ofList {l : List (α × β)} (h : (l.map Prod.fst).Nodup) :
    (ofList l).entries = l :=
  entries_insertAll h

theorem ofList_entries (m : OrderedMap α β) : ofList m.entries = m :=
  ext (entries_ofList m.nodup)

theorem contains_ofList_eq_false {l m : List (α × β)} {e : α × β}
    (hnodup : (m.map Prod.fst).Nodup) (hfirsts : l ++ [e] <+: m) :
    (ofList l).contains e.1 = false := by
  have hl : (l.map Prod.fst).Nodup :=
    hnodup.sublist (((List.prefix_append l [e]).trans hfirsts).map Prod.fst).sublist
  rw [Bool.eq_false_iff, Ne, contains_iff, keys, entries_ofList hl]
  exact notMem_of_firsts hnodup hfirsts

end OrderedMap

/-- Changing the last member of a list. -/
theorem updateLast_concat {α ε : Type} {front : List α} {a b : α} {missing : ε}
    {f : α → Except ε α} (h : f a = .ok b) :
    updateLast (front ++ [a]) missing f = .ok (front ++ [b]) := by
  rw [updateLast, List.getLast?_concat]
  dsimp only
  rw [h, List.dropLast_concat]
  rfl

/-- The first settings of a block are set one after the other. -/
theorem SettingBlock.set_concat {pins : List String} {l m : List (String × Setting)}
    {d : String × Setting} (hnodup : (m.map Prod.fst).Nodup) (hfirsts : l ++ [d] <+: m) :
    (⟨pins, .ofList l⟩ : SettingBlock).set d.1 d.2 = .ok ⟨pins, .ofList (l ++ [d])⟩ := by
  have hnew := OrderedMap.contains_ofList_eq_false hnodup hfirsts
  rw [SettingBlock.set, if_neg (by rw [hnew]; exact Bool.false_ne_true),
    OrderedMap.ofList_concat]

/-- An equation set with these supply blocks. -/
def EqnSet.withSupplies (e : LevelsEqnSet) (dpsblocks : List SettingBlock) : LevelsEqnSet :=
  { e with setups := { e.setups with dpsblocks } }

/-- An equation set with these level sets. -/
def EqnSet.withLevelSets (e : LevelsEqnSet) (levelsets : Container LevelSet) : LevelsEqnSet :=
  { e with setups := { e.setups with levelsets } }

/-- A level set with these pin blocks. -/
def LevelSet.withPins (s : LevelSet) (pinblocks : List SettingBlock) : LevelSet :=
  { s with pinblocks }

/-! ### Lines that lead from state to state -/

namespace LevelsReader

/-- The lines lead every reader with `P` to one with `Q`, whatever their numbers are. -/
def Leads (P : LevelsReader → Prop) (ls : List (List Char)) (Q : LevelsReader → Prop) : Prop :=
  ∀ r, P r → ∃ r', Q r' ∧ ∀ (origin : String) (lines : List Line),
    lines.map Line.text = ls.map String.ofList → readLines origin read r lines = .ok r'

section Leads

variable {P Q R : LevelsReader → Prop} {l : List Char} {ls ms : List (List Char)}

theorem Leads.nil (h : ∀ r, P r → Q r) : Leads P [] Q := by
  intro r hr
  refine ⟨r, h r hr, fun origin lines hlines ↦ ?_⟩
  obtain rfl : lines = [] := by simpa using hlines
  rfl

theorem Leads.line (h : ∀ r, P r → ∃ r', Q r' ∧ ∀ n, r.read ⟨n, String.ofList l⟩ = .ok r') :
    Leads P [l] Q := by
  intro r hr
  obtain ⟨r', hr', hread⟩ := h r hr
  refine ⟨r', hr', fun origin lines hlines ↦ ?_⟩
  obtain ⟨line, rest, rfl, htext, hrest⟩ := List.map_eq_cons_iff.mp hlines
  obtain rfl : rest = [] := by simpa using hrest
  obtain ⟨n, text⟩ := line
  obtain rfl : text = String.ofList l := htext
  exact readLines_cons_eq_ok_iff.mpr ⟨r', hread n, rfl⟩

theorem Leads.append (h : Leads P ls Q) (h' : Leads Q ms R) : Leads P (ls ++ ms) R := by
  intro r hr
  obtain ⟨m, hm, hread⟩ := h r hr
  obtain ⟨r', hr', hread'⟩ := h' m hm
  refine ⟨r', hr', fun origin lines hlines ↦ ?_⟩
  rw [List.map_append] at hlines
  obtain ⟨front, rest, rfl, hfront, hrest⟩ := List.map_eq_append_iff.mp hlines
  exact readLines_append_eq_ok_iff.mpr ⟨m, hread origin front hfront, hread' origin rest hrest⟩

theorem Leads.imp {P' Q' : LevelsReader → Prop} (h : Leads P ls Q) (hP : ∀ r, P' r → P r)
    (hQ : ∀ r, Q r → Q' r) : Leads P' ls Q' := by
  intro r hr
  obtain ⟨r', hr', hread⟩ := h r (hP r hr)
  exact ⟨r', hQ r' hr', hread⟩

theorem Leads.cons (h : Leads P [l] Q) (h' : Leads Q ls R) : Leads P (l :: ls) R :=
  h.append h'

/-- The lines of the parts of a list, one part after the other. What holds after some of the parts
is stated by these. -/
theorem Leads.flatMap {α : Type} (P : List α → LevelsReader → Prop)
    (lines : α → List (List Char)) (parts : List α)
    (h : ∀ front a, front ++ [a] <+: parts →
      Leads (P front) (lines a) (P (front ++ [a]))) :
    Leads (P []) (parts.flatMap lines) (P parts) := by
  induction parts using List.reverseRecOn with
  | nil => exact Leads.nil fun _ hr ↦ hr
  | append_singleton parts a ih =>
    have hfront := ih fun front b hb ↦ h front b (hb.trans (List.prefix_append parts [a]))
    rw [List.flatMap_append, List.flatMap_singleton]
    exact hfront.append (h parts a List.prefix_rfl)

theorem Leads.map {α : Type} (P : List α → LevelsReader → Prop) (line : α → List Char)
    (parts : List α)
    (h : ∀ front a, front ++ [a] <+: parts → Leads (P front) [line a] (P (front ++ [a]))) :
    Leads (P []) (parts.map line) (P parts) := by
  have hlines := Leads.flatMap P (fun a ↦ [line a]) parts h
  rwa [← List.map_eq_flatMap] at hlines

/-- The entries of a table, one a line. What holds after some of them is stated by their table. -/
theorem Leads.entries {α : Type} (P : OrderedMap String α → LevelsReader → Prop)
    (line : String × α → List Char) (table : OrderedMap String α)
    (h : ∀ front d, front ++ [d] <+: table.entries →
      Leads (P (.ofList front)) [line d] (P (.ofList (front ++ [d])))) :
    Leads (P .empty) (table.entries.map line) (P table) := by
  have hlines := Leads.map (fun front ↦ P (.ofList front)) line table.entries h
  rwa [OrderedMap.ofList_entries] at hlines

/-- A block of settings. What holds in the block, with the settings read so far, is stated by the
block with these. -/
theorem Leads.block {isSetting : String → Bool} {keyword : String} {b : SettingBlock}
    (P : SettingBlock → LevelsReader → Prop) (hb : b.Fits isSetting)
    (hpins : Leads Q [pinsLine keyword b.pins] (P (.ofPins b.pins)))
    (hset : ∀ (b b' : SettingBlock) name s, isSetting name = true → Setting.Fits name s →
      b.set name s = .ok b' → Leads (P b) [s.line name] (P b')) :
    Leads Q (b.lines keyword) (P b) := by
  have hsettings := Leads.entries (fun settings ↦ P ⟨b.pins, settings⟩)
    (fun d ↦ d.2.line d.1) b.settings fun front d hfirsts ↦
      hset _ _ d.1 d.2 (hb.names d (mem_of_firsts hfirsts)) (hb.settings d (mem_of_firsts hfirsts))
        (SettingBlock.set_concat b.settings.nodup hfirsts)
  exact hpins.cons hsettings

end Leads

/-! ### The equation section -/

/-- The equation section after these equation sets. -/
structure InEquations (front : List LevelsEqnSet) (r : LevelsReader) : Prop where
  part : r.part = .equations
  eqnsets : r.levels.eqnsets.items = front
  specsets : r.levels.specsets = .empty

/-- The equation section in the equation set `e`, after others. -/
structure InEqnSet (front : List LevelsEqnSet) (e : LevelsEqnSet) (r : LevelsReader) : Prop
    extends InEquations (front ++ [e]) r where
  eqnset : r.eqnset = some e.num

/-- The equation section in the equation set `e` with these level sets. -/
def InLevelSets (front : List LevelsEqnSet) (e : LevelsEqnSet) (sets : List LevelSet)
    (r : LevelsReader) : Prop :=
  ∃ levelsets : Container LevelSet, levelsets.items = sets ∧
    InEqnSet front (e.withLevelSets levelsets) r

/-- The equation set `e` in the level set `s`, after others. -/
structure InLevelSet (front : List LevelsEqnSet) (e : LevelsEqnSet) (before : List LevelSet)
    (s : LevelSet) (r : LevelsReader) : Prop where
  levelsets : InLevelSets front e (before ++ [s]) r
  levelset : r.levelset = some s.num

section Equations

variable {front : List LevelsEqnSet} {d e e' : LevelsEqnSet} {r : LevelsReader}
  {P Q : LevelsReader → Prop} {l : List Char} {form : EquationsLine}

/-- A line of the equation section does what its form says. -/
theorem leads_equations (hfront : Levels.IsUnclaimed (Form.frontWord l))
    (hform : EquationsLine.ofText (String.ofList l) = form)
    (hplace : ∀ r, P r → r.part = .equations ∧ ∃ r', Q r' ∧
      r.placeEquations (String.ofList l) form = .ok r') : Leads P [l] Q := by
  refine Leads.line fun r hr ↦ ?_
  obtain ⟨hpart, r', hr', hplaced⟩ := hplace r hr
  refine ⟨r', hr', fun n ↦ ?_⟩
  have hfront' : Levels.IsUnclaimed (Form.frontWord (String.ofList l).toList) := by
    rwa [String.toList_ofList]
  rw [read_of_isUnclaimed ⟨n, String.ofList l⟩ hfront', hpart]
  dsimp only
  rw [hform, hplaced]

/-- A change of the open equation set. -/
theorem InEqnSet.inEqnSet (h : InEqnSet front e r) (line : String)
    {f : LevelsEqnSet → LineResult LevelsEqnSet} (hf : f e = .ok d) (hnum : d.num = e.num) :
    ∃ r', InEqnSet front d r' ∧ r'.levelset = r.levelset ∧ r.inEqnSet line f = .ok r' := by
  have hlast : r.levels.eqnsets.last? = some e := by
    rw [Container.last?, h.eqnsets, List.getLast?_concat]
  refine ⟨{ r with levels := { r.levels with eqnsets := r.levels.eqnsets.replace d } },
    ⟨⟨h.part, Container.items_replace_of_last h.eqnsets hnum, h.specsets⟩, ?_⟩, rfl, ?_⟩
  · rw [hnum]
    exact h.eqnset
  · have hrequire : r.levels.eqnsets.require e.num = .ok e := Container.require_of_last? hlast
    unfold LevelsReader.inEqnSet
    rw [h.eqnset]
    dsimp only
    rw [hrequire]
    show (f e >>= fun e ↦ _) = _
    rw [hf]
    rfl

/-- A line that changes the open equation set. -/
theorem leads_inEqnSet (hfront : Levels.IsUnclaimed (Form.frontWord l))
    (hform : EquationsLine.ofText (String.ofList l) = form)
    {f : LevelsReader → LevelsEqnSet → LineResult LevelsEqnSet}
    (hplace : ∀ r : LevelsReader,
      r.placeEquations (String.ofList l) form = r.inEqnSet (String.ofList l) (f r))
    (hf : ∀ r, f r e = .ok e') (hnum : e'.num = e.num) :
    Leads (InEqnSet front e) [l] (InEqnSet front e') := by
  refine leads_equations hfront hform fun r hr ↦ ⟨hr.part, ?_⟩
  obtain ⟨r', hr', -, hplaced⟩ := hr.inEqnSet (String.ofList l) (hf r) hnum
  exact ⟨r', hr', (hplace r).trans hplaced⟩

theorem readSetNum_digitsOf {n : Nat} (h : n < widthBound 32) :
    readSetNum (String.ofList (Decimal.digitsOf n)) = .ok n := by
  rw [readSetNum, readNat?_digitsOf h]

/-- The line that opens an equation set. -/
theorem leads_eqnset (hnum : e.num < widthBound 32) (hdescription : IsDescription e.description)
    (hnew : e.num ∉ front.map EqnSet.num) :
    Leads (InEquations front) [numberedLine "EQNSET" e.num e.description]
      (InEqnSet front (.ofNum e.num e.description)) := by
  refine leads_equations (Levels.isUnclaimed_numberedLine (by decide) (by decide) _ _)
    (EquationsLine.ofText_eqnset e.num hdescription)
    fun r hr ↦ ⟨hr.part, ?_⟩
  obtain ⟨eqnsets, hadd, hitems⟩ := Container.exists_add_eq_ok
    (c := r.levels.eqnsets) (a := (.ofNum e.num e.description : LevelsEqnSet)) (by
      rw [hr.eqnsets]
      exact hnew)
  refine ⟨{ r with eqnset := some e.num, levelset := none, levels := { r.levels with eqnsets } },
    ⟨⟨hr.part, by rw [hitems, hr.eqnsets], hr.specsets⟩, rfl⟩, ?_⟩
  rw [placeEquations, readSetNum_digitsOf hnum, unquote_inQuotes hdescription]
  show (ofModel (r.levels.eqnsets.add _) >>= _) = _
  rw [hadd]
  rfl

/-- A heading changes nothing. -/
theorem leads_heading {heading : String} (h : heading = "SPECS" ∨ heading = "EQUATIONS") :
    Leads (InEqnSet front e) [heading.toList] (InEqnSet front e) := by
  have hform : EquationsLine.ofText (String.ofList heading.toList) = .heading := by
    rcases h with rfl | rfl <;> decide
  refine leads_equations ?_ hform fun r hr ↦ ⟨hr.part, r, hr, rfl⟩
  rcases h with rfl | rfl <;> decide

/-- The declarations of an equation set. -/
theorem leads_specs (front : List LevelsEqnSet) {specs : OrderedMap String String}
    (hempty : e.specs = .empty)
    (hspecs : ∀ d ∈ specs.entries,
      Levels.IsFreeName d.1 ∧ isReservedWord d.1 = false ∧ IsUnit d.2) :
    Leads (InEqnSet front e) (specs.entries.map fun d ↦ declarationLine d.1 d.2)
      (InEqnSet front { e with specs }) := by
  have hlines := Leads.entries (fun specs ↦ InEqnSet front { e with specs })
    (fun d ↦ declarationLine d.1 d.2) specs fun l d hfirsts ↦ by
      obtain ⟨hname, hreserved, hunit⟩ := hspecs d (mem_of_firsts hfirsts)
      refine leads_inEqnSet (hname.isUnclaimed_declarationLine d.2)
        (EquationsLine.ofText_declaration hname hreserved hunit)
        (f := fun _ e ↦ .ok (e.declareSpec d.1 d.2)) (fun r ↦ rfl) (fun r ↦ ?_) rfl
      rw [OrderedMap.ofList_concat]
      rfl
  rwa [← hempty] at hlines

/-- The equations of an equation set without blocks. -/
theorem leads_equationLines (front : List LevelsEqnSet) {equations : OrderedMap String String}
    (hempty : e.equations = .empty) (haccepts : e.acceptsEquations = true)
    (hequations : ∀ d ∈ equations.entries, Levels.IsFreeName d.1 ∧ isDpsSetting d.1 = false ∧
      isPinSetting d.1 = false ∧ IsPhrase d.2) :
    Leads (InEqnSet front e) (equations.entries.map fun d ↦ assignmentLine d.1 d.2)
      (InEqnSet front { e with equations }) := by
  have hlines := Leads.entries (fun equations ↦ InEqnSet front { e with equations })
    (fun d ↦ assignmentLine d.1 d.2) equations fun l d hfirsts ↦ by
      obtain ⟨hname, hdps, hpin, htext⟩ := hequations d (mem_of_firsts hfirsts)
      refine leads_inEqnSet (hname.isUnclaimed_assignmentLine d.2)
        (EquationsLine.ofText_assignment hname htext)
        (f := fun r ↦ r.assign _ d.1 d.2) (fun r ↦ rfl) (fun r ↦ ?_) rfl
      have hnew := OrderedMap.contains_ofList_eq_false equations.nodup hfirsts
      have haccepts' : EqnSet.acceptsEquations { e with equations := .ofList l } = true := haccepts
      rw [assign, hdps, hpin, if_neg Bool.false_ne_true, if_neg Bool.false_ne_true,
        if_pos haccepts', EqnSet.addEquation, if_neg (by rw [hnew]; exact Bool.false_ne_true),
        OrderedMap.ofList_concat]
      rfl
  rwa [← hempty] at hlines

end Equations

/-! ### Supply blocks -/

section Supplies

variable {front : List LevelsEqnSet} {e : LevelsEqnSet} {blocks : List SettingBlock}
  {b b' : SettingBlock}

theorem inDpsBlock_withSupplies (line : String) (missing : Complaint)
    {f : SettingBlock → LineResult SettingBlock} (hf : f b = .ok b') :
    inDpsBlock line missing f (e.withSupplies (blocks ++ [b])) =
      .ok (e.withSupplies (blocks ++ [b'])) := by
  show (updateLast (blocks ++ [b]) _ f >>= fun dpsblocks ↦ _) = _
  rw [updateLast_concat hf]
  rfl

/-- The setting of a supply goes to the block that was opened last. -/
theorem placeEquations_supply {name : String} {s : Setting} (hname : isDpsSetting name = true)
    (h : s.Fits name) (line : String) :
    ∃ f : LevelsReader → LevelsEqnSet → LineResult LevelsEqnSet,
      (∀ r : LevelsReader,
        r.placeEquations line (EquationsLine.ofSetting name s) = r.inEqnSet line (f r)) ∧
      ∀ r (e : LevelsEqnSet) blocks (b b' : SettingBlock), b.set name s = .ok b' →
        f r (e.withSupplies (blocks ++ [b])) = .ok (e.withSupplies (blocks ++ [b'])) := by
  have hterm : name ≠ "term" := by
    rintro rfl
    exact absurd hname (by decide)
  unfold EquationsLine.ofSetting
  rw [if_neg hterm]
  split
  · rename_i hprotect
    have hflag : s = .flag true := by
      rw [h.classified, hprotect]
      rfl
    refine ⟨fun _ ↦ inDpsBlock line .protectOutsideBlock fun b ↦
      ofModel (b.set "protect" (.flag true)), fun _ ↦ rfl, fun _ _ _ _ _ hset ↦ ?_⟩
    refine inDpsBlock_withSupplies line _ ?_
    rw [← hflag, ← hprotect, hset]
    rfl
  · refine ⟨fun r ↦ r.assign line name s.text, fun _ ↦ rfl, fun _ _ _ _ _ hset ↦ ?_⟩
    unfold assign
    dsimp only
    rw [if_pos hname, ← h.classified]
    refine inDpsBlock_withSupplies line _ ?_
    rw [hset]
    rfl

/-- A supply block with its settings. -/
theorem leads_dpsBlock (hb : b.Fits isDpsSetting) :
    Leads (InEqnSet front (e.withSupplies blocks)) (b.lines "DPSPINS")
      (InEqnSet front (e.withSupplies (blocks ++ [b]))) := by
  refine Leads.block (fun b ↦ InEqnSet front (e.withSupplies (blocks ++ [b]))) hb ?_ ?_
  · exact leads_inEqnSet (Levels.isUnclaimed_pinsLine (by decide) (by decide) b.pins)
      (EquationsLine.ofText_dpsPins hb.pins)
      (f := fun _ e ↦ .ok (e.withSupplies (e.setups.dpsblocks ++ [.ofPins b.pins])))
      (fun _ ↦ rfl) (fun _ ↦ rfl) rfl
  · intro b b' name s hname hfits hset
    obtain ⟨f, hplace, hf⟩ := placeEquations_supply hname hfits (String.ofList (s.line name))
    exact leads_inEqnSet (Levels.isUnclaimed_settingLine (.inl hname) s)
      (EquationsLine.ofText_setting (.inl hname) hfits) hplace (fun r ↦ hf r e blocks b b' hset) rfl

/-- The supply blocks of an equation set. -/
theorem leads_dpsBlocks (front : List LevelsEqnSet) (hempty : e.setups.dpsblocks = [])
    (hblocks : ∀ b ∈ blocks, b.Fits isDpsSetting) :
    Leads (InEqnSet front e) (blocks.flatMap (SettingBlock.lines "DPSPINS"))
      (InEqnSet front (e.withSupplies blocks)) := by
  have hstart : e.withSupplies [] = e := by
    rw [← hempty]
    rfl
  have hlines := Leads.flatMap (fun l ↦ InEqnSet front (e.withSupplies l))
    (SettingBlock.lines "DPSPINS") blocks
    fun l b hfirsts ↦ leads_dpsBlock (hblocks b (mem_of_firsts hfirsts))
  rwa [hstart] at hlines

end Supplies

/-! ### Level sets -/

section LevelSets

variable {front : List LevelsEqnSet} {e : LevelsEqnSet} {before : List LevelSet}
  {s s' : LevelSet} {r : LevelsReader} {l : List Char} {form : EquationsLine}
  {blocks : List SettingBlock} {b b' : SettingBlock}

/-- The line that opens a level set. -/
theorem leads_levelSet (front : List LevelsEqnSet) (e : LevelsEqnSet)
    (hnum : s.num < widthBound 32) (hdescription : IsDescription s.description)
    (hnew : s.num ∉ before.map LevelSet.num) :
    Leads (InLevelSets front e before) [numberedLine "LEVELSET" s.num s.description]
      (InLevelSet front e before (.ofNum s.num s.description)) := by
  refine leads_equations (Levels.isUnclaimed_numberedLine (by decide) (by decide) _ _)
    (EquationsLine.ofText_levelSet s.num hdescription) fun r hr ↦ ?_
  obtain ⟨levelsets, hitems, hin⟩ := hr
  obtain ⟨added, hadd, hadded⟩ := Container.exists_add_eq_ok (c := levelsets)
    (a := LevelSet.ofNum s.num s.description) (by
      rw [hitems]
      exact hnew)
  obtain ⟨r', hr', -, hplaced⟩ := hin.inEqnSet
    (String.ofList (numberedLine "LEVELSET" s.num s.description))
    (f := fun e ↦ do
      let levelsets ← ofModel (e.setups.levelsets.add
        (.ofNum s.num (unquote (String.ofList (inQuotes s.description)))))
      return { e with setups := { e.setups with levelsets } })
    (d := e.withLevelSets added) (by
      rw [unquote_inQuotes hdescription]
      show (ofModel (levelsets.add _) >>= _) = _
      rw [hadd]
      rfl) rfl
  refine ⟨hin.part, { r' with levelset := some s.num },
    ⟨⟨added, by rw [hadded, hitems], ⟨hr'.part, hr'.eqnsets, hr'.specsets⟩, hr'.eqnset⟩, rfl⟩, ?_⟩
  rw [placeEquations, hin.eqnset, readSetNum_digitsOf hnum]
  dsimp only [ofLine, Except.mapError]
  show (r.inEqnSet _ _ >>= _) = _
  rw [hplaced]
  rfl

/-- A change of the open level set. -/
theorem InLevelSet.inEqnSet (h : InLevelSet front e before s r) (line : String)
    {f : LevelSet → LineResult LevelSet} (hf : f s = .ok s') (hnum : s'.num = s.num) :
    ∃ r', InLevelSet front e before s' r' ∧ r.inEqnSet line (r.inLevelSet line f) = .ok r' := by
  obtain ⟨levelsets, hitems, hin⟩ := h.levelsets
  have hlast : levelsets.last? = some s := by
    rw [Container.last?, hitems, List.getLast?_concat]
  have hrequire : levelsets.require s.num = .ok s := Container.require_of_last? hlast
  have hchange : r.inLevelSet line f (e.withLevelSets levelsets) =
      .ok (e.withLevelSets (levelsets.replace s')) := by
    unfold LevelsReader.inLevelSet
    rw [h.levelset]
    show (ofModel (levelsets.require s.num) >>= _) = _
    rw [hrequire]
    show (f s >>= _) = _
    rw [hf]
    rfl
  obtain ⟨r', hr', hsame, hplaced⟩ := hin.inEqnSet line hchange rfl
  refine ⟨r', ⟨⟨_, Container.items_replace_of_last hitems hnum, hr'⟩, ?_⟩, hplaced⟩
  rw [hsame, h.levelset, hnum]

/-- A line that changes the open level set. -/
theorem leads_inLevelSet (hfront : Levels.IsUnclaimed (Form.frontWord l))
    (hform : EquationsLine.ofText (String.ofList l) = form)
    {f : LevelSet → LineResult LevelSet}
    (hplace : ∀ r : LevelsReader, r.placeEquations (String.ofList l) form =
      r.inEqnSet (String.ofList l) (r.inLevelSet (String.ofList l) f))
    (hf : f s = .ok s') (hnum : s'.num = s.num) :
    Leads (InLevelSet front e before s) [l] (InLevelSet front e before s') := by
  refine leads_equations hfront hform fun r hr ↦ ?_
  obtain ⟨levelsets, -, hin⟩ := hr.levelsets
  obtain ⟨r', hr', hplaced⟩ := hr.inEqnSet (String.ofList l) hf hnum
  exact ⟨hin.part, r', hr', (hplace r).trans hplaced⟩

/-- The setting of a pin goes to the block that was opened last in the level set. -/
theorem placeEquations_pin {name : String} {setting : Setting} (hname : isPinSetting name = true)
    (h : setting.Fits name) (line : String) :
    ∃ f : LevelSet → LineResult LevelSet,
      (∀ r : LevelsReader, r.placeEquations line (EquationsLine.ofSetting name setting) =
        r.inEqnSet line (r.inLevelSet line f)) ∧
      ∀ (s : LevelSet) blocks (b b' : SettingBlock), b.set name setting = .ok b' →
        f (s.withPins (blocks ++ [b])) = .ok (s.withPins (blocks ++ [b'])) := by
  -- the names of pins' settings are not those of supplies
  have hother : isDpsSetting name = false := by
    have hall : ∀ pin ∈ pinResources, isDpsSetting pin = false := by decide
    exact hall name (List.contains_iff_mem.mp hname)
  have hprotect : name ≠ "protect" := by
    rintro rfl
    exact absurd hname (by decide)
  refine ⟨fun s ↦ do
    let pinblocks ← updateLast s.pinblocks (.misfit line .pinSettingOutsideBlock) fun b ↦
      ofModel (b.set name setting)
    return { s with pinblocks }, fun r ↦ ?_, fun s blocks b b' hset ↦ ?_⟩
  rotate_left
  · have hlast : updateLast (blocks ++ [b]) (LineError.misfit line .pinSettingOutsideBlock)
        (fun b ↦ ofModel (b.set name setting)) = .ok (blocks ++ [b']) :=
      updateLast_concat (by rw [hset]; rfl)
    show (updateLast (blocks ++ [b]) _ _ >>= _) = _
    rw [hlast]
    rfl
  unfold EquationsLine.ofSetting
  split
  · rename_i hterm
    have hliteral : setting = .literal setting.text := by
      have hclassified := h.classified
      rw [hterm] at hclassified
      rw [hclassified]
      rfl
    rw [hterm, hliteral]
    rfl
  · show r.inEqnSet line (r.assign line name setting.text) = _
    congr 1
    funext e
    unfold assign
    dsimp only
    rw [if_neg (by rw [hother]; exact Bool.false_ne_true), if_pos hname, ← h.classified]
    rfl

/-- A pin block with its settings. -/
theorem leads_pinBlock (hb : b.Fits isPinSetting) :
    Leads (InLevelSet front e before (s.withPins blocks)) (b.lines "PINS")
      (InLevelSet front e before (s.withPins (blocks ++ [b]))) := by
  refine Leads.block (fun b ↦ InLevelSet front e before (s.withPins (blocks ++ [b]))) hb ?_ ?_
  · refine leads_inLevelSet (Levels.isUnclaimed_pinsLine (by decide) (by decide) b.pins)
      (EquationsLine.ofText_pins hb.pins)
      (f := fun s ↦ .ok (s.withPins (s.pinblocks ++ [.ofPins b.pins]))) (fun r ↦ ?_) ?_ ?_
    · rfl
    · rfl
    · rfl
  · intro b b' name setting hname hfits hset
    obtain ⟨f, hplace, hf⟩ := placeEquations_pin hname hfits (String.ofList (setting.line name))
    exact leads_inLevelSet (Levels.isUnclaimed_settingLine (.inr hname) setting)
      (EquationsLine.ofText_setting (.inr hname) hfits) hplace (hf s blocks b b' hset) rfl

/-- A level set with its pin blocks. -/
theorem leads_levelSetLines (hs : s.Fits) (hnew : s.num ∉ before.map LevelSet.num) :
    Leads (InLevelSets front e before) s.lines (InLevelSets front e (before ++ [s])) := by
  have hblocks := Leads.flatMap
    (fun l ↦ InLevelSet front e before ((LevelSet.ofNum s.num s.description).withPins l))
    (SettingBlock.lines "PINS") s.pinblocks
    fun l b hfirsts ↦ leads_pinBlock (hs.pinblocks b (mem_of_firsts hfirsts))
  have hlines := (leads_levelSet front e hs.num hs.description hnew).cons hblocks
  exact hlines.imp (fun _ hr ↦ hr) fun _ hr ↦ hr.levelsets

end LevelSets

/-! ### Equation sets -/

/-- The level sets of an equation set. -/
theorem leads_levelSets (front : List LevelsEqnSet) {e : LevelsEqnSet}
    (hempty : e.setups.levelsets = .empty) {levelsets : Container LevelSet}
    (hsets : ∀ s ∈ levelsets.items, s.Fits) :
    Leads (InEqnSet front e) (levelsets.items.flatMap LevelSet.lines)
      (InEqnSet front (e.withLevelSets levelsets)) := by
  have hlines := Leads.flatMap (InLevelSets front e) LevelSet.lines levelsets.items
    fun before s hfirsts ↦ leads_levelSetLines (hsets s (mem_of_firsts hfirsts))
        (notMem_of_firsts levelsets.nodup hfirsts)
  refine hlines.imp (fun r hr ↦ ⟨.empty, rfl, ?_⟩) fun r hr ↦ ?_
  · rw [← hempty]
    exact hr
  · obtain ⟨read, hitems, hr⟩ := hr
    obtain rfl : read = levelsets := Container.ext hitems
    exact hr

/-- An equation set with all its parts. -/
theorem leads_eqnSetLines {front : List LevelsEqnSet} {e : LevelsEqnSet}
    (he : LevelsEqnSet.Fits e) (hnew : e.num ∉ front.map EqnSet.num) :
    Leads (InEquations front) (LevelsEqnSet.lines e) (InEquations (front ++ [e])) := by
  have hopen := leads_eqnset he.num he.description hnew
  have hspecs := (leads_heading (.inl rfl)).cons
    (leads_specs front (e := .ofNum e.num e.description) rfl he.specs)
  have hequations := (leads_heading (.inr rfl)).cons
    (leads_equationLines front
      (e := { EqnSet.ofNum e.num e.description with specs := e.specs }) rfl rfl he.equations)
  have hblocks := leads_dpsBlocks front
    (e := { EqnSet.ofNum e.num e.description with specs := e.specs, equations := e.equations })
    rfl he.dpsblocks
  have hlevelsets := leads_levelSets front
    (e := EqnSet.withSupplies { EqnSet.ofNum e.num e.description with
      specs := e.specs, equations := e.equations } e.setups.dpsblocks) rfl he.levelsets
  have hlines := (((hopen.append hspecs).append hequations).append hblocks).append hlevelsets
  refine hlines.imp (fun _ hr ↦ hr) fun r hr ↦ ?_
  have hsource := he.source
  obtain ⟨num, description, specs, equations, ⟨levelsets, dpsblocks⟩, source⟩ := e
  obtain rfl : source = none := hsource
  exact hr.toInEquations

/-! ### The spec set section -/

/-- The spec set section after these spec sets. -/
structure InValues (eqnsets : Container LevelsEqnSet) (sets : List SpecSet) (r : LevelsReader) :
    Prop where
  part : r.part = .values
  eqnsets : r.levels.eqnsets = eqnsets
  specsets : r.levels.specsets.items = sets

section Values

variable {eqnsets : Container LevelsEqnSet} {before : List SpecSet} {s : SpecSet}
  {P Q : LevelsReader → Prop} {l : List Char} {form : ValuesLine}

/-- A line of the spec set section does what its form says. -/
theorem leads_values (hfront : Levels.IsUnclaimed (Form.frontWord l))
    (hform : ValuesLine.ofText (String.ofList l) = form)
    (hplace : ∀ r, P r → r.part = .values ∧ ∃ r', Q r' ∧
      r.placeValues (String.ofList l) form = .ok r') : Leads P [l] Q := by
  refine Leads.line fun r hr ↦ ?_
  obtain ⟨hpart, r', hr', hplaced⟩ := hplace r hr
  refine ⟨r', hr', fun n ↦ ?_⟩
  have hfront' : Levels.IsUnclaimed (Form.frontWord (String.ofList l).toList) := by
    rwa [String.toList_ofList]
  rw [read_of_isUnclaimed ⟨n, String.ofList l⟩ hfront', hpart]
  dsimp only
  rw [hform, hplaced]

/-- The line that says to which equation set the next spec sets belong. -/
theorem leads_valuesEqnset {num : Nat} (hnum : num < widthBound 32) :
    Leads (InValues eqnsets before) ["EQNSET".toList ++ ' ' :: Decimal.digitsOf num]
      (fun r ↦ InValues eqnsets before r ∧ r.eqnset = some num) := by
  refine leads_values (Levels.isUnclaimed_frontWord (by decide) (by decide) (.inr ⟨_, rfl⟩))
    (ValuesLine.ofText_eqnset num) fun r hr ↦ ⟨hr.part, { r with eqnset := some num },
      ⟨⟨hr.part, hr.eqnsets, hr.specsets⟩, rfl⟩, ?_⟩
  rw [placeValues, readSetNum_digitsOf hnum]
  rfl

theorem readSpecSetNum_digitsOf {n : Nat} (h : n ≤ maxSpecSetNum) :
    readSpecSetNum (String.ofList (Decimal.digitsOf n)) = .ok n := by
  have hbound : n < widthBound 32 := Nat.lt_of_le_of_lt h (by decide)
  rw [readSpecSetNum, readSetNum_digitsOf hbound]
  exact if_neg (Nat.not_lt.mpr h)

/-- The line that opens a spec set. -/
theorem leads_specSet (eqnsets : Container LevelsEqnSet) (hnum : s.num ≤ maxSpecSetNum)
    (hdescription : IsDescription s.description)
    (hnew : s.id ∉ before.map SpecSet.id) :
    Leads (fun r ↦ InValues eqnsets before r ∧ r.eqnset = some s.eqnset)
      [numberedLine "SPECSET" s.num s.description]
      (InValues eqnsets (before ++ [.ofNum s.eqnset s.num s.description])) := by
  refine leads_values (Levels.isUnclaimed_numberedLine (by decide) (by decide) _ _)
    (ValuesLine.ofText_specSet s.num hdescription) fun r ⟨hr, heqnset⟩ ↦ ⟨hr.part, ?_⟩
  obtain ⟨specsets, hadd, hitems⟩ := Container.exists_add_eq_ok (c := r.levels.specsets)
    (a := SpecSet.ofNum s.eqnset s.num s.description) (by
      rw [hr.specsets]
      exact hnew)
  refine ⟨{ r with levels := { r.levels with specsets } },
    ⟨hr.part, hr.eqnsets, by rw [hitems, hr.specsets]⟩, ?_⟩
  rw [placeValues, heqnset, readSpecSetNum_digitsOf hnum, unquote_inQuotes hdescription]
  show (ofModel (r.levels.specsets.add _) >>= _) = _
  rw [hadd]
  rfl

/-- The state in a spec set with these values. -/
def InSpecSet (eqnsets : Container LevelsEqnSet) (before : List SpecSet) (s : SpecSet)
    (specs : List Spec) (r : LevelsReader) : Prop :=
  ∃ values : Container Spec, values.items = specs ∧
    InValues eqnsets (before ++ [{ s with specs := values }]) r

/-- A value goes to the spec set that was opened last. -/
theorem leads_value {spec : Spec} {specs : List Spec} {literal : ValueField → List Char}
    (hname : Levels.IsFreeName spec.name) (hspec : spec.Fits) (hliteral : spec.IsReadFrom literal)
    (hnew : spec.name ∉ specs.map Spec.name) :
    Leads (InSpecSet eqnsets before s specs) [spec.line literal]
      (InSpecSet eqnsets before s (specs ++ [spec])) := by
  obtain ⟨v, hform, hv⟩ := ValuesLine.ofText_value hname hspec hliteral
  refine leads_values (hname.isUnclaimed_frontWord (.inr ⟨_, rfl⟩)) hform fun r hr ↦ ?_
  obtain ⟨values, hitems, hin⟩ := hr
  obtain ⟨added, hadd, hadded⟩ := Container.exists_add_eq_ok (c := values) (a := spec) (by
    rw [hitems]
    exact hnew)
  have hlast : r.levels.specsets.last? = some { s with specs := values } := by
    rw [Container.last?, hin.specsets, List.getLast?_concat]
  refine ⟨hin.part, { r with levels :=
    { r.levels with specsets := r.levels.specsets.replace { s with specs := added } } },
    ⟨added, by rw [hadded, hitems], hin.part, hin.eqnsets,
      Container.items_replace_of_last hin.specsets rfl⟩, ?_⟩
  rw [placeValues, hv, hlast]
  show (ofModel (values.add spec) >>= _) = _
  rw [hadd]
  rfl

/-- A spec set with its values. -/
theorem leads_specSetLines {literal : Spec → ValueField → List Char} (hs : s.Fits)
    (hliterals : ∀ spec ∈ s.specs.items, spec.IsReadFrom (literal spec))
    (hnew : s.id ∉ before.map SpecSet.id) :
    Leads (InValues eqnsets before) (s.lines literal) (InValues eqnsets (before ++ [s])) := by
  have hvalues := Leads.map
    (InSpecSet eqnsets before (.ofNum s.eqnset s.num s.description))
    (fun spec ↦ spec.line (literal spec)) s.specs.items
    fun specs spec hfirsts ↦ by
      have hmem := mem_of_firsts hfirsts
      obtain ⟨hname, hfits⟩ := hs.specs spec hmem
      exact leads_value hname hfits (hliterals spec hmem)
        (notMem_of_firsts s.specs.nodup hfirsts)
  have hopen := (leads_valuesEqnset hs.eqnset).cons
    (leads_specSet eqnsets hs.num hs.description hnew)
  refine hopen.append (hvalues.imp (fun r hr ↦ ⟨.empty, rfl, hr⟩) fun r hr ↦ ?_)
  obtain ⟨values, hitems, hr⟩ := hr
  obtain rfl : values = s.specs := Container.ext hitems
  have hwavetable := hs.wavetable
  have hcheck := hs.check
  obtain ⟨eqnset, num, description, wavetable, check, specs⟩ := s
  obtain rfl : wavetable = none := hwavetable
  obtain rfl : check = none := hcheck
  exact hr

end Values

/-! ### Sections -/

/-- A section marker opens its section. -/
theorem read_marker {r : LevelsReader} {line name : String} {part : LevelsSection}
    (hnone : unsupportedConstructs.find? (Form.startsWith line) = none)
    (hmarker : Form.startsWith line "EQSP" = true)
    (hsection : Form.section? "LEV" line.toList = some name)
    (hpart : name = "EQN" ∧ part = .equations ∨ name = "SPS" ∧ part = .values) (n : Nat) :
    r.read ⟨n, line⟩ = .ok { r with part, eqnset := none, levelset := none } := by
  unfold read
  dsimp only
  rw [hnone]
  dsimp only
  rw [if_pos hmarker]
  unfold openSection
  dsimp only
  rw [hsection]
  rcases hpart with ⟨rfl, rfl⟩ | ⟨rfl, rfl⟩ <;> rfl

theorem leads_equationsMarker :
    Leads (fun r ↦ r.levels = .empty) [Levels.equationsMarker.toList] (InEquations []) := by
  refine Leads.line fun r hr ↦
    ⟨{ r with part := .equations, eqnset := none, levelset := none }, ?_, fun n ↦ ?_⟩
  · exact ⟨rfl, by rw [hr]; rfl, by rw [hr]; rfl⟩
  · rw [String.ofList_toList]
    exact read_marker (by decide) (by decide) (by decide) (.inl ⟨rfl, rfl⟩) n

theorem leads_valuesMarker {eqnsets : Container LevelsEqnSet} :
    Leads (InEquations eqnsets.items) [Levels.valuesMarker.toList] (InValues eqnsets []) := by
  refine Leads.line fun r hr ↦
    ⟨{ r with part := .values, eqnset := none, levelset := none }, ?_, fun n ↦ ?_⟩
  · exact ⟨rfl, Container.ext hr.eqnsets, by rw [hr.specsets]; rfl⟩
  · rw [String.ofList_toList]
    exact read_marker (by decide) (by decide) (by decide) (.inr ⟨rfl, rfl⟩) n

end LevelsReader

/-! ### Setups -/

namespace Levels

open LevelsReader (Leads InEquations InValues)

variable {l : Levels} {literal : SpecSet → Spec → ValueField → List Char}

/-- The lines of a setup that fits lead to that setup. -/
theorem leads_lines (hl : l.Fits) (hliterals : l.IsReadFrom literal) :
    Leads (fun r ↦ r.levels = .empty) (l.lines literal) (fun r ↦ r.levels = l) := by
  have heqnsets := Leads.flatMap InEquations LevelsEqnSet.lines l.eqnsets.items
    fun front e hfirsts ↦ LevelsReader.leads_eqnSetLines (hl.eqnsets e (mem_of_firsts hfirsts))
        (notMem_of_firsts l.eqnsets.nodup hfirsts)
  have hspecsets := Leads.flatMap (InValues l.eqnsets) (fun s ↦ s.lines (literal s))
    l.specsets.items fun before s hfirsts ↦ by
      have hmem := mem_of_firsts hfirsts
      exact LevelsReader.leads_specSetLines (hl.specsets s hmem) (hliterals s hmem)
        (notMem_of_firsts l.specsets.nodup hfirsts)
  have hlines := (LevelsReader.leads_equationsMarker.cons heqnsets).append
    (LevelsReader.leads_valuesMarker.cons hspecsets)
  refine hlines.imp (fun _ hr ↦ hr) fun r hr ↦ ?_
  obtain ⟨part, eqnset, levelset, eqnsets, specsets⟩ := r
  obtain rfl : eqnsets = l.eqnsets := hr.eqnsets
  obtain rfl : specsets = l.specsets := Container.ext hr.specsets
  rfl

/-- A setup that fits is read back from its text. -/
theorem parse_text (hl : l.Fits) (hliterals : l.IsReadFrom literal) {tail : List Char}
    (htail : tail = [] ∨ tail = ['\n']) (origin : String) :
    Levels.parse (String.ofList (l.text literal ++ tail)) origin = .ok l := by
  have hwords := startsWithWord_lines hl hliterals
  have htexts := texts_significantLines_joinLines (fun m hm ↦ (hwords m hm).toIsLine)
    (fun m hm ↦ (hwords m hm).isSignificant) (List.cons_ne_nil _ _) htail
  rw [List.map_cons, String.ofList_toList] at htexts
  unfold Levels.parse Levels.text
  generalize significantLines _ = lines at htexts ⊢
  obtain ⟨first, rest, rfl, hfirst, hrest⟩ := List.map_eq_cons_iff.mp htexts
  have haccept : isHeader first.text language = true := by
    rw [hfirst]
    decide
  obtain ⟨r, hr, hread⟩ := leads_lines hl hliterals .start rfl
  rw [afterHeader, if_pos haccept]
  show (readLines origin LevelsReader.read .start rest >>= _) = _
  rw [hread origin rest hrest]
  exact congrArg Except.ok hr

/-- A setup that fits can be written, and it is read back from its text whatever literals its
values are written with and whether or not the last line is ended. -/
theorem text_parses_back (hl : l.Fits) :
    (∃ literal, l.IsReadFrom literal) ∧
      ∀ literal, l.IsReadFrom literal → ∀ tail, tail = [] ∨ tail = ['\n'] → ∀ origin,
        Levels.parse (String.ofList (l.text literal ++ tail)) origin = .ok l :=
  ⟨⟨fun _ spec ↦ spec.numeral, fun s hs spec hspec ↦
      Spec.isReadFrom_numeral ((hl.specsets s hs).specs spec hspec).2⟩,
    fun _ hliterals _ htail origin ↦ parse_text hl hliterals htail origin⟩

/-- A supply that is protected, a terminated pin, and values with and without bounds. -/
def supplyLevels : Levels where
  eqnsets := ⟨[{
    num := 1
    description := "core supply"
    specs := ⟨[("VDD", "V"), ("VIH", "")], by decide⟩
    equations := ⟨[("VOUT", "VDD * 2")], by decide⟩
    setups := {
      levelsets := ⟨[⟨1, "", [⟨["@"], ⟨[("vih", .expression "VIH - 0.1"), ("term", .literal "Z")],
        by decide⟩⟩]⟩], by decide⟩
      dpsblocks := [⟨["VCC", "VEE"], ⟨[("vout", .expression "VOUT"), ("offcurr", .literal "act"),
        ("protect", .flag true)], by decide⟩⟩] }
    source := none }], by decide⟩
  specsets := ⟨[⟨1, 1, "nominal", none, none, ⟨[
    ⟨"VDD", Decimal.nearestDouble 3 0, some (Decimal.nearestDouble 25 (-1)),
      some (Decimal.nearestDouble 1 1), "V", "core"⟩,
    ⟨"VIH", (Decimal.nearestDouble 5 (-1)).neg, none, none, "", ""⟩], by decide⟩⟩], by decide⟩

/-- The literals that `supplyLevels` is written with. -/
def supplyLiteral (_ : SpecSet) (spec : Spec) : ValueField → List Char
  | .actual => if spec.name = "VDD" then ['3'] else ['-', '.', '5']
  | .minimum => ['2', '.', '5']
  | .maximum => ['1', 'e', '1']

theorem isReadFrom_supplyLiteral : supplyLevels.IsReadFrom supplyLiteral := by
  intro s hs spec hspec
  obtain rfl := List.mem_singleton.mp hs
  rcases List.mem_pair.mp hspec with rfl | rfl
  · refine ⟨rfl, fun x hx ↦ ?_, fun x hx ↦ ?_⟩
    · cases hx
      rfl
    · cases hx
      rfl
  · refine ⟨rfl, fun x hx ↦ ?_, fun x hx ↦ ?_⟩
    · cases hx
    · cases hx

theorem supplyLevels_fits : supplyLevels.Fits := by
  decide

/-- The setup is read from its text, with literals that are not those of `Spec.numeral`. -/
theorem text_parses_back_supplyLevels :
    Levels.parse "hp93000,level,0.1
EQSP LEV,EQN,#1
EQNSET 1 \"core supply\"
SPECS
VDD [V]
VIH
EQUATIONS
VOUT = VDD * 2
DPSPINS VCC VEE
vout = VOUT
offcurr = act
protect
LEVELSET 1 \"\"
PINS @
vih = VIH - 0.1
term Z
EQSP LEV,SPS,#1
EQNSET 1
SPECSET 1 \"nominal\"
VDD 3 2.5 1e1 [V] # core
VIH -.5
" "memory" = .ok supplyLevels := by
  have hwritten := (text_parses_back supplyLevels_fits).2 supplyLiteral isReadFrom_supplyLiteral
    ['\n'] (.inr rfl) "memory"
  convert hwritten using 2
  decide +kernel

end Levels

end TesterSetup
