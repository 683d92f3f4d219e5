import TesterSetup.Proofs.LineForms
import TesterSetup.Proofs.SpecificationBlocks
import TesterSetup.Reader.Timing

/-!
# How timing files are read

What one line of a timing file does to the reader. What the reader holds, in the setup or in the
specification that is open, it goes on holding (`TimingReader.holds_read`). In the equation and spec
set sections, a line that defines something under a name of its own is either dropped, when the
name starts with `NOOP`, or entered at the place that is open (`TimingReader.entered_of_read`).
-/

set_option autoImplicit false

namespace TesterSetup

open TesterSetup.Text

/-- The words that the lines of the equation and spec set sections start with. -/
def Timing.keywords : List String :=
  ["EQSP", "EQNSET", "SPECS", "EQUATIONS", "TIMINGSET", "DEFINES", "PINS", "SPECIFICATION",
   "WAVETBL", "CHECK", "SPECSET", "PORT", "SYNC", "PHASE", "SEQUENCE", "CLOCK", "NOOP"] ++
    TimingReader.firmwareCommands

theorem Timing.isWord_of_mem_keywords :
    ∀ keyword ∈ keywords, keyword.toList.all isWord = true := by
  decide

/-- A name that starts with `NOOP`. -/
def Timing.isDropped (name : String) : Bool :=
  Form.startsWith name "NOOP"

section Forms

variable {line : String} {d : LineDefinition}

theorem Defines.keyed?_eq (h : Defines line d) (key : String)
    (hkey : key.toList.all isWord = true) (hne : key.toList ≠ []) :
    Form.keyed? key line.toList =
      match d with
      | .assignment name expression => if name = key then some expression else none
      | _ => none := by
  have hassignment := h.assignment?_eq
  cases hform : Form.keyed? key line.toList with
  | some value =>
    rw [Form.keyed?_eq_some_iff hkey hne] at hform
    cases h.unique (.assignment hform)
    exact (if_pos rfl).symm
  | none =>
    cases d with
    | declaration name unit => rfl
    | assignment name expression =>
      dsimp only
      by_cases hname : name = key
      · subst hname
        rw [(Form.keyed?_eq_some_iff hkey hne).mpr hassignment] at hform
        cases hform
      · rw [if_neg hname]
    | value v => rfl

theorem TimingEquationsLine.ofText_of_defines (h : Defines line d)
    (hname : d.name ∉ Timing.keywords) :
    TimingEquationsLine.ofText line =
      match d with
      | .declaration name unit =>
        if isReservedWord name then .unplaced else .declaration name (trimmed (unit.getD ""))
      | .assignment name expression =>
        if name = "period" then .period (trimmed expression)
        else .assignment name (trimmed expression)
      | .value _ => .unplaced := by
  have hnone := h.afterKeyword?_of_notMem Timing.isWord_of_mem_keywords hname
  have hne : ∀ keyword ∈ Timing.keywords, d.name ≠ keyword :=
    fun _ hmem ↦ (ne_of_mem_of_not_mem hmem hname).symm
  have hheading : ¬(line = "SPECS" ∨ line = "EQUATIONS") :=
    not_or.mpr ⟨h.ne_keyword (by decide) (hne "SPECS" (by decide)),
      h.ne_keyword (by decide) (hne "EQUATIONS" (by decide))⟩
  unfold ofText
  dsimp only
  rw [Form.numbered?_eq_none (hnone "EQNSET" (by decide)),
    Form.numbered?_eq_none (hnone "TIMINGSET" (by decide)),
    Form.argument?_eq_none (hnone "DEFINES" (by decide)),
    Form.argument?_eq_none (hnone "PINS" (by decide)),
    h.keyed?_eq "period" (by decide) (by decide), h.assignment?_eq, h.declaration?_eq]
  dsimp only
  rw [if_neg hheading]
  cases d with
  | declaration name unit => rfl
  | assignment name expression =>
    dsimp only
    by_cases hperiod : name = "period"
    · rw [if_pos hperiod, if_pos hperiod]
    · rw [if_neg hperiod, if_neg hperiod]
  | value v => rfl

theorem TimingValuesLine.ofText_of_defines (h : Defines line d)
    (hname : d.name ∉ Timing.keywords) :
    TimingValuesLine.ofText line =
      match d with
      | .value v => .value v
      | _ => .unplaced := by
  have hnone := h.afterKeyword?_of_notMem Timing.isWord_of_mem_keywords hname
  have hspecification : Form.specification? line.toList = none := by
    cases hform : Form.specification? line.toList with
    | none => rfl
    | some found =>
      exact absurd (Form.frontWord_of_specification? hform)
        (h.frontWord_ne fun heq ↦ hname (heq ▸ by decide))
  unfold ofText
  dsimp only
  rw [hspecification, Form.numbered?_eq_none (hnone "EQNSET" (by decide)),
    Form.argument?_eq_none (hnone "WAVETBL" (by decide)),
    Form.firstArgument?_eq_none (hnone "CHECK" (by decide)),
    Form.numbered?_eq_none (hnone "SPECSET" (by decide)), h.specValue?_eq]
  cases d <;> rfl

theorem SpecificationLine.ofText_of_defines (h : Defines line d)
    (hname : d.name ∉ Timing.keywords) :
    SpecificationLine.ofText line =
      match d with
      | .value v => .value v
      | _ => .unplaced := by
  have hnone := h.afterKeyword?_of_notMem Timing.isWord_of_mem_keywords hname
  have hne : ∀ keyword ∈ Timing.keywords, d.name ≠ keyword :=
    fun _ hmem ↦ (ne_of_mem_of_not_mem hmem hname).symm
  have hhead : ∀ c, isWord c = false → line.toList.head? ≠ some c := fun _ ↦ h.head?_ne
  have hopening : line.toList ≠ ['\x7b'] := by
    intro heq
    exact hhead '\x7b' (by decide) (by rw [heq]; rfl)
  have hclosing : Form.isClosing line.toList = false := by
    unfold Form.isClosing
    split
    · rename_i rest hline
      exact absurd (by rw [hline]; rfl) (hhead '\x7d' (by decide))
    · rfl
  have hsync : Form.sync? line.toList = none := by
    have hword : line.toList ≠ "SYNC".toList := fun heq ↦
      h.ne_keyword (by decide) (hne "SYNC" (by decide)) (String.toList_injective heq)
    unfold Form.sync?
    rw [if_neg hword, hnone "SYNC" (by decide)]
    rfl
  have hphase : ¬(line = "PHASE" ∨ Form.startsWith line "PHASE " = true) := by
    have hspace : Form.startsWith line "PHASE " = false :=
      h.startsWith_eq_false "PHASE" (by decide) (hne "PHASE" (by decide))
    rw [hspace]
    exact not_or.mpr ⟨h.ne_keyword (by decide) (hne "PHASE" (by decide)), Bool.false_ne_true⟩
  unfold ofText
  dsimp only
  rw [if_neg hopening, if_neg (hhead '\x7b' (by decide)), hclosing, if_neg Bool.false_ne_true,
    Form.firstArgument?_eq_none (hnone "CHECK" (by decide)),
    Form.numbered?_eq_none (hnone "EQNSET" (by decide)), hsync, h.specValue?_eq,
    Form.argument?_eq_none (hnone "WAVETBL" (by decide)),
    Form.word?_eq_none (hnone "PORT" (by decide)), if_neg hphase,
    Form.quotedWord?_eq_none (hnone "SEQUENCE" (by decide)),
    Form.quotedWord?_eq_none (hnone "CLOCK" (by decide))]
  cases d <;> rfl

/-- A line is not passed over if its front word is no firmware command. -/
theorem TimingReader.isSkipped_of_frontWord (hne : Form.frontWord line.toList ≠ [])
    (hcommands : ∀ command ∈ firmwareCommands, Form.frontWord line.toList ≠ command.toList) :
    isSkipped line = false := by
  have hat : Form.startsWith line "@" = false := by
    rw [Form.startsWith, Option.isSome_eq_false_iff, Option.isNone_iff_eq_none]
    cases hstrip : Form.strip? "@".toList line.toList with
    | none => rfl
    | some rest =>
      refine absurd ?_ (Form.head?_ne_of_frontWord (c := '@') hne (by decide))
      rw [Form.strip?_eq_some_iff.mp hstrip]
      rfl
  rw [isSkipped, hat, Bool.false_or]
  cases hfirst : firstWord line with
  | none => rfl
  | some word =>
    rw [← Bool.not_eq_true, List.contains_iff_mem]
    intro hmem
    have hword := Timing.isWord_of_mem_keywords word (List.mem_append_right _ hmem)
    exact Form.firstWord_ne_of_frontWord hword hne (hcommands word hmem) hfirst

theorem TimingReader.isSkipped_of_defines (h : Defines line d)
    (hname : d.name ∉ Timing.keywords) : isSkipped line = false :=
  isSkipped_of_frontWord h.frontWord_ne_nil fun _ hmem ↦
    h.frontWord_ne (ne_of_mem_of_not_mem (List.mem_append_right _ hmem) hname).symm

end Forms

/-! ### Forms of wave table lines -/

namespace WaveTableLine

/-- How a line of the wave table section, or what follows its mark, comes to its form. -/
inductive Found (line : String) : WaveTableLine → Prop where
  | statemap (h : line = "STATEMAP") : Found line .statemap
  | table {text name : String} (h : Form.argument? "WAVETBL" line.toList = some text)
    (hname : name = unquote text) : Found line (.table name)
  | defines {text : String} {ports : List String}
    (h : Form.argument? "DEFINES" line.toList = some text) (hports : ports = wordsOf text) :
    Found line (.defines ports)
  | pins {text : String} {pins : List String}
    (h : Form.argument? "PINS" line.toList = some text) (hpins : pins = wordsOf text) :
    Found line (.pins pins)
  | hrpf {chars : List Char} {rest : String} (h : line.toList = "HRPF".toList ++ chars)
    (hrest : rest = String.ofList (trim chars)) : Found line (.hrpf rest)
  | waveform {index edges cycle : String}
    (h : Form.waveform? line.toList = some (index, edges, cycle)) :
    Found line (.waveform index edges cycle)
  | brk {edges : String} (h : Form.quotedArgument? "brk" line.toList = some edges) :
    Found line (.brk edges)
  | unplaced : Found line .unplaced

theorem found_ofRest (line : String) : Found line (ofRest line) := by
  unfold ofRest
  dsimp only
  split
  · rename_i hform
    exact .waveform hform
  · split
    · rename_i hform
      exact .brk hform
    · exact .unplaced

theorem found_ofText (line : String) : Found line (ofText line) := by
  unfold ofText
  dsimp only
  split
  · rename_i hline
    exact .statemap hline
  · split
    · rename_i hform
      exact .table hform rfl
    · split
      · rename_i hform
        exact .defines hform rfl
      · split
        · rename_i hform
          exact .pins hform rfl
        · split
          · rename_i hform
            exact .hrpf (Form.strip?_eq_some_iff.mp hform) rfl
          · exact found_ofRest line

variable {line : String} {form : WaveTableLine}

theorem found_of_ofRest (h : ofRest line = form) : Found line form :=
  h ▸ found_ofRest line

theorem found_of_ofText (h : ofText line = form) : Found line form :=
  h ▸ found_ofText line

end WaveTableLine

/-! ### Where definitions are entered -/

/-- A definition at its place in a timing setup. -/
inductive TimingEntry where
  | spec (eqnset : Nat) (name : String)
  | equation (eqnset : Nat) (name expression : String)
  | period (eqnset timingset : Nat) (expression : String)
  | edge (eqnset timingset block : Nat) (edge : EdgeId) (expression : String)
  | value (specset : SpecSetId) (spec : Spec)
  /-- A value for every port of a specification. -/
  | common (specification : String) (spec : Spec)
  /-- A value for one port of a specification. -/
  | ofPort (specification : String) (port : Nat) (spec : Spec)

/-- A timing setup holds an entry. -/
def Timing.Holds (timing : Timing) : TimingEntry → Prop
  | .spec eqnset name =>
    ∃ e, timing.eqnsets.get? eqnset = some e ∧ e.declares name = true
  | .equation eqnset name expression =>
    ∃ e, timing.eqnsets.get? eqnset = some e ∧ e.equations.get? name = some expression
  | .period eqnset timingset expression =>
    ∃ e s, timing.eqnsets.get? eqnset = some e ∧ e.setups.timingsets.get? timingset = some s ∧
      s.period = some expression
  | .edge eqnset timingset block edge expression =>
    ∃ e s b, timing.eqnsets.get? eqnset = some e ∧ e.setups.timingsets.get? timingset = some s ∧
      s.edgeblocks[block]? = some b ∧ b.edges.get? edge = some expression
  | .value specset spec =>
    ∃ s, timing.specsets.get? specset = some s ∧ s.specs.get? spec.name = some spec
  | .common specification spec =>
    ∃ s, timing.specifications.get? specification = some s ∧
      s.specs.get? spec.name = some spec
  | .ofPort specification port spec =>
    ∃ s p, timing.specifications.get? specification = some s ∧
      s.portsets.items[port]? = some p ∧ p.specs.get? spec.name = some spec

/-- An open specification holds an entry. -/
def SpecificationBlock.Holds (b : SpecificationBlock) : TimingEntry → Prop
  | .common specification spec =>
    b.specification.name = specification ∧ b.specification.specs.get? spec.name = some spec
  | .ofPort specification port spec =>
    b.specification.name = specification ∧
      ∃ p, b.parts[port]? = some p ∧ p.specs.get? spec.name = some spec
  | _ => False

/-- A setup that grows holds what it held. -/
theorem Timing.Grows.holds {t t' : Timing} {entry : TimingEntry} (hgrows : t.Grows t')
    (h : t.Holds entry) : t'.Holds entry := by
  cases entry with
  | spec eqnset name =>
    obtain ⟨e, he, hname⟩ := h
    obtain ⟨e', he', hkeeps⟩ := hgrows.eqnsets _ _ he
    exact ⟨e', he', hkeeps.specs name hname⟩
  | equation eqnset name expression =>
    obtain ⟨e, he, hname⟩ := h
    obtain ⟨e', he', hkeeps⟩ := hgrows.eqnsets _ _ he
    exact ⟨e', he', hkeeps.equations.of_eq hname⟩
  | period eqnset timingset expression =>
    obtain ⟨e, s, he, hs, hperiod⟩ := h
    obtain ⟨e', he', hkeeps⟩ := hgrows.eqnsets _ _ he
    obtain ⟨s', hs', hset⟩ := hkeeps.setups _ _ hs
    exact ⟨e', s', he', hs', hset.period expression hperiod⟩
  | edge eqnset timingset block edge expression =>
    obtain ⟨e, s, b, he, hs, hb, hedge⟩ := h
    obtain ⟨e', he', hkeeps⟩ := hgrows.eqnsets _ _ he
    obtain ⟨s', hs', hset⟩ := hkeeps.setups _ _ hs
    obtain ⟨b', hb', hblock⟩ := hset.edgeblocks _ _ hb
    exact ⟨e', s', b', he', hs', hb', hblock.of_eq hedge⟩
  | value specset spec =>
    obtain ⟨s, hs, hspec⟩ := h
    obtain ⟨s', hs', hkeeps⟩ := hgrows.specsets _ _ hs
    exact ⟨s', hs', hkeeps.specs.of_eq hspec⟩
  | common specification spec =>
    obtain ⟨s, hs, hspec⟩ := h
    exact ⟨s, hgrows.specifications.of_eq hs, hspec⟩
  | ofPort specification port spec =>
    obtain ⟨s, p, hs, hp, hspec⟩ := h
    exact ⟨s, p, hgrows.specifications.of_eq hs, hp, hspec⟩

/-- A block that grows holds what it held. -/
theorem SpecificationBlock.Grows.holds {b b' : SpecificationBlock} {entry : TimingEntry}
    (hgrows : b.Grows b') (h : b.Holds entry) : b'.Holds entry := by
  cases entry with
  | common specification spec =>
    exact ⟨hgrows.name_eq.trans h.1, hgrows.specs.of_eq h.2⟩
  | ofPort specification port spec =>
    obtain ⟨hname, p, hp, hspec⟩ := h
    obtain ⟨p', hp', hkeeps⟩ := hgrows.parts _ _ hp
    exact ⟨hgrows.name_eq.trans hname, p', hp', hkeeps.of_eq hspec⟩
  | _ => cases h

/-- A specification that is complete holds what its block held. -/
theorem SpecificationBlock.Holds.of_complete {b : SpecificationBlock} {entry : TimingEntry}
    {line : String} {s : Specification} {timing : Timing} (h : b.Holds entry)
    (hcomplete : b.complete line = .ok s)
    (hget : timing.specifications.get? s.name = some s) : timing.Holds entry := by
  obtain ⟨hname, hspecs, hitems⟩ := SpecificationBlock.of_complete hcomplete
  cases entry with
  | common specification spec =>
    rw [hname, h.1] at hget
    exact ⟨s, hget, hspecs ▸ h.2⟩
  | ofPort specification port spec =>
    obtain ⟨hblock, p, hp, hspec⟩ := h
    rw [hname, hblock] at hget
    exact ⟨s, p, hget, hitems ▸ hp, hspec⟩
  | _ => cases h

/-! ### What a line changes -/

/-- The section that a name in a section marker stands for. -/
def TimingSection.ofName? : String → Option TimingSection
  | "WVT" => some .wavetables
  | "EQN" => some .equations
  | "SPS" => some .values
  | _ => none

namespace TimingReader

variable {r r' : TimingReader} {line : String} {entry : TimingEntry}

/-- What has been read so far holds an entry, in the setup or in the open specification. -/
def Holds (r : TimingReader) (entry : TimingEntry) : Prop :=
  r.timing.Holds entry ∨ ∃ b, r.place.block = some b ∧ b.Holds entry

/-- A reader at a place like that of another, whose setup has grown. -/
structure GrowsTo (r r' : TimingReader) : Prop where
  part_eq : r'.place.part = r.place.part
  inStatemap_eq : r'.place.inStatemap = r.place.inStatemap
  block_eq : r'.place.block = r.place.block
  timing : r.timing.Grows r'.timing

theorem GrowsTo.holds (hgrows : r.GrowsTo r') (h : r.Holds entry) : r'.Holds entry := by
  rcases h with h | ⟨b, hb, h⟩
  · exact .inl (hgrows.timing.holds h)
  · exact .inr ⟨b, hgrows.block_eq.trans hb, h⟩

/-- A change of the open equation set lets the setup grow when it lets the equation set grow. -/
theorem of_inEqnSet {f : TimingEqnSet → LineResult TimingEqnSet}
    (h : r.inEqnSet line f = .ok r')
    (hf : ∀ e e', f e = .ok e' → e.Grows TimingSetups.Grows e') :
    r.GrowsTo r' ∧
      ∃ num e e', r.place.eqnset = some num ∧ r.timing.eqnsets.get? num = some e ∧ f e = .ok e' ∧
        r'.timing.eqnsets.get? num = some e' := by
  unfold inEqnSet at h
  split at h
  · cases h
  · rename_i num hnum
    obtain ⟨e, e', hget, he, rfl, hkeeps, hchanged⟩ :=
      Container.changed_of_require h (fun _ _ hgrows ↦ hgrows.num_eq) hf
    exact ⟨⟨rfl, rfl, rfl, hkeeps, .refl _, .refl _⟩, num, e, e', hnum, hget, he, hchanged⟩

/-- A change of the open timing set lets the equation set grow when it lets the timing set grow. -/
theorem of_inTimingSet {f : TimingSet → LineResult TimingSet} {e e' : TimingEqnSet}
    (h : r.inTimingSet line f e = .ok e') (hf : ∀ s s', f s = .ok s' → s.Grows s') :
    e.Grows TimingSetups.Grows e' ∧
      ∃ num s s', r.place.timingset = some num ∧ e.setups.timingsets.get? num = some s ∧
        f s = .ok s' ∧ e'.setups.timingsets.get? num = some s' := by
  unfold inTimingSet at h
  split at h
  · cases h
  · rename_i num hnum
    obtain ⟨s, s', hget, hs, rfl, hkeeps, hchanged⟩ :=
      Container.changed_of_require h (fun _ _ hgrows ↦ hgrows.num_eq) hf
    exact ⟨EqnSet.grows_setups hkeeps, num, s, s', hnum, hget, hs, hchanged⟩

/-- The entry for an assignment in an equation set: the period or an edge of the timing set that is
open, or an equation. -/
def assignmentEntry (r : TimingReader) (eqnset : Nat) (e : TimingEqnSet) (name text : String) :
    Option TimingEntry :=
  if name = "period" then do return .period eqnset (← r.place.timingset) text
  else if r.place.timingset.isSome && isEdgeName name then do
    let timingset ← r.place.timingset
    let s ← e.setups.timingsets.get? timingset
    return .edge eqnset timingset (s.edgeblocks.length - 1) (← (EdgeId.ofText name).toOption) text
  else some (.equation eqnset name text)

/-- The entry for a spec value: in the specification that is open, for its last port or before the
first, or else in the last spec set. -/
def valueEntry (r : TimingReader) (spec : Spec) : Option TimingEntry :=
  match r.place.block with
  | some b =>
    match b.portsets.getLast? with
    | none => some (.common b.specification.name spec)
    | some _ => some (.ofPort b.specification.name (b.parts.length - 1) spec)
  | none => do return .value (← r.timing.specsets.last?).id spec

/-- The entry for a definition. -/
def entryOf (r : TimingReader) : LineDefinition → Option TimingEntry
  | .declaration name _ => do return .spec (← r.place.eqnset) name
  | .assignment name expression => do
    let eqnset ← r.place.eqnset
    r.assignmentEntry eqnset (← r.timing.eqnsets.get? eqnset) name (trimmed expression)
  | .value v => do r.valueEntry (← v.spec.toOption)

theorem of_placeEdge {name text : String} {e e' : TimingEqnSet}
    (h : r.placeEdge line name text e = .ok e') :
    e.Grows TimingSetups.Grows e' ∧
      ∃ edge num s s' b, EdgeId.ofText name = .ok edge ∧ r.place.timingset = some num ∧
        e.setups.timingsets.get? num = some s ∧ e'.setups.timingsets.get? num = some s' ∧
        s'.edgeblocks[s.edgeblocks.length - 1]? = some b ∧ b.edges.get? edge = some text := by
  unfold placeEdge at h
  obtain ⟨edge, hedge, h⟩ := except_bind_eq_ok_iff.mp h
  have hset : ∀ b b' : EdgeBlock, ofModel (b.set edge text) = .ok b' →
      b.Grows b' ∧ b'.edges.get? edge = some text :=
    fun b b' hb ↦ EdgeBlock.grows_set (except_mapError_eq_ok_iff.mp hb)
  obtain ⟨hgrows, num, s, s', hnum, hget, hs, hget'⟩ := of_inTimingSet h fun s s' hs ↦ by
    obtain ⟨blocks, hblocks, hs⟩ := except_bind_eq_ok_iff.mp hs
    cases hs
    exact ⟨rfl, fun _ h ↦ h, (listKeeps_updateLast hblocks fun b b' hb ↦ (hset b b' hb).1).1⟩
  obtain ⟨blocks, hblocks, hs⟩ := except_bind_eq_ok_iff.mp hs
  cases hs
  obtain ⟨-, b, b', hb, hlast⟩ := listKeeps_updateLast hblocks fun b b' hb ↦ (hset b b' hb).1
  exact ⟨hgrows, edge, num, s, _, b', except_mapError_eq_ok_iff.mp hedge, hnum, hget, hget', hlast,
    (hset b b' hb).2⟩

/-! ### Equation sets -/

theorem of_period {text : String} {e e' : TimingEqnSet}
    (h : r.inTimingSet line (fun s ↦ if s.period.isSome then Complaint.secondPeriod.about line
      else .ok { s with period := some text }) e = .ok e') :
    e.Grows TimingSetups.Grows e' ∧
      ∃ num s', r.place.timingset = some num ∧ e'.setups.timingsets.get? num = some s' ∧
        s'.period = some text := by
  obtain ⟨hgrows, num, s, s', hnum, hget, hs, hget'⟩ := of_inTimingSet h fun s s' hs ↦ by
    split at hs
    · cases hs
    · rename_i hfree
      cases hs
      refine ⟨rfl, fun x hx ↦ ?_, .refl _⟩
      rw [hx] at hfree
      exact absurd rfl hfree
  split at hs
  · cases hs
  · cases hs
    exact ⟨hgrows, num, _, hnum, hget', rfl⟩

theorem of_assignment {name text : String} {e e' : TimingEqnSet}
    (h : (if r.place.timingset.isSome && isEdgeName name then r.placeEdge line name text e
      else ofModel (e.addEquation name text)) = .ok e') :
    e.Grows TimingSetups.Grows e' ∧ (name ≠ "period" → ∀ num, ∃ entry,
      r.assignmentEntry num e name text = some entry ∧
        ∀ timing : Timing, timing.eqnsets.get? num = some e' → timing.Holds entry) := by
  unfold assignmentEntry
  split at h
  · rename_i hedge
    obtain ⟨hgrows, edge, set, s, s', b, hname, hset, hs, hs', hb, htext⟩ := of_placeEdge h
    refine ⟨hgrows, fun hperiod num ↦ ⟨.edge num set (s.edgeblocks.length - 1) edge text, ?_,
      fun timing hget ↦ ⟨e', s', b, hget, hs', hb, htext⟩⟩⟩
    rw [if_neg hperiod, if_pos hedge, hset, Option.bind_eq_bind, Option.bind_some, hs,
      Option.bind_eq_bind, Option.bind_some, hname]
    rfl
  · rename_i hedge
    obtain ⟨hgrows, hequation⟩ := EqnSet.grows_addEquation (R := TimingSetups.Grows)
      (except_mapError_eq_ok_iff.mp h)
    refine ⟨hgrows, fun hperiod num ↦ ⟨.equation num name text, ?_,
      fun timing hget ↦ ⟨e', hget, hequation⟩⟩⟩
    rw [if_neg hperiod, if_neg hedge]

/-- Every line of the equation section lets the setup grow. -/
theorem growsTo_placeEquations {form : TimingEquationsLine}
    (h : r.placeEquations line form = .ok r') : r.GrowsTo r' := by
  cases form with
  | eqnset num description =>
    obtain ⟨num, -, h⟩ := except_bind_eq_ok_iff.mp h
    obtain ⟨eqnsets, hadd, h⟩ := except_bind_eq_ok_iff.mp h
    cases h
    exact ⟨rfl, rfl, rfl, Container.keeps_add (except_mapError_eq_ok_iff.mp hadd), .refl _,
      .refl _⟩
  | heading =>
    cases h
    exact ⟨rfl, rfl, rfl, Std.Refl.refl _⟩
  | timingSet num description =>
    unfold placeEquations at h
    dsimp only at h
    split at h
    · cases h
    · obtain ⟨num, -, h⟩ := except_bind_eq_ok_iff.mp h
      obtain ⟨opened, hopened, h⟩ := except_bind_eq_ok_iff.mp h
      cases h
      obtain ⟨⟨hpart, hstatemap, hblock, htiming⟩, -⟩ := of_inEqnSet hopened fun e e' he ↦ by
        obtain ⟨timingsets, hadd, he⟩ := except_bind_eq_ok_iff.mp he
        cases he
        exact EqnSet.grows_setups (Container.keeps_add (except_mapError_eq_ok_iff.mp hadd))
      exact ⟨hpart, hstatemap, hblock, htiming⟩
  | defines ports =>
    refine (of_inEqnSet h fun e e' he ↦ ?_).1
    cases he
    exact EqnSet.grows_setups (Keeps.refl e.setups.timingsets.get?)
  | pins pins =>
    refine (of_inEqnSet h fun e e' he ↦ (of_inTimingSet he fun s s' hs ↦ ?_).1).1
    cases hs
    exact ⟨rfl, fun _ h ↦ h, listKeeps_append _ _⟩
  | period expression => exact (of_inEqnSet h fun e e' he ↦ (of_period he).1).1
  | assignment name expression => exact (of_inEqnSet h fun e e' he ↦ (of_assignment he).1).1
  | declaration name unit =>
    refine (of_inEqnSet h fun e e' he ↦ ?_).1
    cases he
    exact EqnSet.grows_declareSpec unit
  | unplaced => exact (of_inEqnSet h fun e e' he ↦ nomatch he).1

/-- A definition in the equation section is entered. -/
theorem entered_of_placeEquations {d : LineDefinition} (hd : Defines line d)
    (hname : d.name ∉ Timing.keywords) (h : r.placeEquations line (.ofText line) = .ok r') :
    ∃ entry, r.entryOf d = some entry ∧ r'.timing.Holds entry := by
  rw [TimingEquationsLine.ofText_of_defines hd hname] at h
  cases d with
  | declaration name unit =>
    dsimp only at h
    split at h
    · obtain ⟨-, _, _, _, -, -, he, -⟩ := of_inEqnSet h fun e e' he ↦ nomatch he
      cases he
    · obtain ⟨-, num, e, e', hnum, -, he, hget⟩ := of_inEqnSet h fun e e' he ↦ by
        cases he
        exact EqnSet.grows_declareSpec _
      cases he
      refine ⟨.spec num name, ?_, _, hget, EqnSet.declares_declareSpec _⟩
      rw [entryOf, hnum]
      rfl
  | assignment name expression =>
    dsimp only at h
    split at h
    · rename_i hperiod
      obtain ⟨-, num, e, e', hnum, hopen, he, hget⟩ :=
        of_inEqnSet h fun e e' he ↦ (of_period he).1
      obtain ⟨-, set, s', hset, hs', hvalue⟩ := of_period he
      refine ⟨.period num set (trimmed expression), ?_, e', s', hget, hs', hvalue⟩
      rw [entryOf, hnum, Option.bind_eq_bind, Option.bind_some, hopen, Option.bind_eq_bind,
        Option.bind_some, assignmentEntry, if_pos hperiod, hset]
      rfl
    · rename_i hperiod
      obtain ⟨-, num, e, e', hnum, hopen, he, hget⟩ :=
        of_inEqnSet h fun e e' he ↦ (of_assignment he).1
      obtain ⟨entry, hentry, hholds⟩ := (of_assignment he).2 hperiod num
      refine ⟨entry, ?_, hholds _ hget⟩
      rw [entryOf, hnum, Option.bind_eq_bind, Option.bind_some, hopen]
      exact hentry
  | value v =>
    obtain ⟨-, _, _, _, -, -, he, -⟩ := of_inEqnSet h fun e e' he ↦ nomatch he
    cases he

/-! ### Spec sets -/

/-- Every line of the spec set section outside a specification lets the setup grow. -/
theorem of_placeValues {form : TimingValuesLine} (h : r.placeValues line form = .ok r') :
    r'.place.part = r.place.part ∧ r'.place.inStatemap = r.place.inStatemap ∧
      r.timing.Grows r'.timing := by
  cases form with
  | specification name brace =>
    cases h
    exact ⟨rfl, rfl, Std.Refl.refl _⟩
  | eqnset num =>
    obtain ⟨num, -, h⟩ := except_bind_eq_ok_iff.mp h
    cases h
    exact ⟨rfl, rfl, Std.Refl.refl _⟩
  | wavetable name =>
    cases h
    exact ⟨rfl, rfl, Std.Refl.refl _⟩
  | check mode =>
    cases h
    exact ⟨rfl, rfl, Std.Refl.refl _⟩
  | specSet num description =>
    unfold placeValues at h
    dsimp only at h
    split at h
    · cases h
    · obtain ⟨num, -, h⟩ := except_bind_eq_ok_iff.mp h
      obtain ⟨specsets, hadd, h⟩ := except_bind_eq_ok_iff.mp h
      cases h
      exact ⟨rfl, rfl, .refl _, Container.keeps_add (except_mapError_eq_ok_iff.mp hadd), .refl _⟩
  | value value =>
    obtain ⟨spec, -, h⟩ := except_bind_eq_ok_iff.mp h
    split at h
    · cases h
    · rename_i s hlast
      obtain ⟨specs, hadd, h⟩ := except_bind_eq_ok_iff.mp h
      cases h
      exact ⟨rfl, rfl, .refl _, (keeps_addValue hlast (except_mapError_eq_ok_iff.mp hadd)).1,
        .refl _⟩
  | unplaced => cases h

/-- A definition in the spec set section is entered. -/
theorem entered_of_placeValues {d : LineDefinition} (hblock : r.place.block = none)
    (hd : Defines line d) (hname : d.name ∉ Timing.keywords)
    (h : r.placeValues line (.ofText line) = .ok r') :
    ∃ entry, r.entryOf d = some entry ∧ r'.timing.Holds entry := by
  rw [TimingValuesLine.ofText_of_defines hd hname] at h
  cases d with
  | declaration name unit => cases h
  | assignment name expression => cases h
  | value v =>
    obtain ⟨spec, hspec, h⟩ := except_bind_eq_ok_iff.mp h
    split at h
    · cases h
    · rename_i s hlast
      obtain ⟨specs, hadd, h⟩ := except_bind_eq_ok_iff.mp h
      cases h
      obtain ⟨-, hget, hvalue⟩ := keeps_addValue hlast (except_mapError_eq_ok_iff.mp hadd)
      refine ⟨.value s.id spec, ?_, _, hget, hvalue⟩
      rw [entryOf, except_mapError_eq_ok_iff.mp hspec]
      show r.valueEntry spec = _
      rw [valueEntry, hblock, hlast]
      rfl

/-! ### Specifications -/

/-- A line of an open specification changes the block, and may complete it. -/
theorem of_placeInBlock {b : SpecificationBlock} (h : r.placeInBlock line b = .ok r') :
    r'.place.part = r.place.part ∧ r'.place.inStatemap = r.place.inStatemap ∧
      r.timing.Grows r'.timing ∧
      ∃ b', b.place line (.ofText line) = .ok b' ∧ ∀ entry, b'.Holds entry → r'.Holds entry := by
  unfold placeInBlock at h
  dsimp only at h
  obtain ⟨b', hb', h⟩ := except_bind_eq_ok_iff.mp h
  split at h
  · obtain ⟨s, hs, h⟩ := except_bind_eq_ok_iff.mp h
    obtain ⟨specifications, hadd, h⟩ := except_bind_eq_ok_iff.mp h
    cases h
    have hadd := except_mapError_eq_ok_iff.mp hadd
    refine ⟨rfl, rfl, ⟨.refl _, .refl _, Container.keeps_add hadd⟩, b', hb', fun entry hentry ↦ ?_⟩
    exact .inl (hentry.of_complete hs (Container.get?_add_self hadd))
  · cases h
    exact ⟨rfl, rfl, Std.Refl.refl _, b', hb', fun entry hentry ↦ .inr ⟨b', rfl, hentry⟩⟩

/-- A definition in a specification is entered. -/
theorem entered_of_placeInBlock {b : SpecificationBlock} {d : LineDefinition}
    (hblock : r.place.block = some b) (hd : Defines line d) (hname : d.name ∉ Timing.keywords)
    (h : r.placeInBlock line b = .ok r') :
    ∃ entry, r.entryOf d = some entry ∧ r'.Holds entry := by
  obtain ⟨-, -, -, b', hb', hholds⟩ := of_placeInBlock h
  rw [SpecificationLine.ofText_of_defines hd hname] at hb'
  cases d with
  | declaration name unit =>
    obtain ⟨_, -, hb'⟩ := except_bind_eq_ok_iff.mp hb'
    cases hb'
  | assignment name expression =>
    obtain ⟨_, -, hb'⟩ := except_bind_eq_ok_iff.mp hb'
    cases hb'
  | value v =>
    obtain ⟨spec, hspec, hadd⟩ := except_bind_eq_ok_iff.mp hb'
    obtain ⟨hgrows, hvalue⟩ := SpecificationBlock.grows_addValue hadd
    have hentry : r.entryOf (.value v) = r.valueEntry spec := by
      rw [entryOf, except_mapError_eq_ok_iff.mp hspec]
      rfl
    rw [hentry, valueEntry, hblock]
    dsimp only
    cases hlast : b.portsets.getLast? with
    | none =>
      rw [hlast] at hvalue
      exact ⟨_, rfl, hholds _ ⟨hgrows.name_eq, hvalue⟩⟩
    | some p =>
      rw [hlast] at hvalue
      exact ⟨_, rfl, hholds _ ⟨hgrows.name_eq, hvalue⟩⟩

/-! ### Wave tables -/

/-- A reader of which only the wave tables are changed. -/
theorem of_inWaveTable {f : WaveTable → LineResult WaveTable} (h : r.inWaveTable line f = .ok r') :
    r.GrowsTo r' := by
  unfold inWaveTable at h
  split at h
  · cases h
  · obtain ⟨w, -, h⟩ := except_bind_eq_ok_iff.mp h
    obtain ⟨w', -, h⟩ := except_bind_eq_ok_iff.mp h
    cases h
    exact ⟨rfl, rfl, rfl, .refl _, .refl _, .refl _⟩

theorem of_placeWaveTableRest {form : WaveTableLine}
    (h : r.placeWaveTableRest line form = .ok r') : r.GrowsTo r' := by
  cases form with
  | waveform index edges cycle =>
    obtain ⟨edges, -, h⟩ := except_bind_eq_ok_iff.mp h
    exact of_inWaveTable h
  | brk edges =>
    obtain ⟨edges, -, h⟩ := except_bind_eq_ok_iff.mp h
    exact of_inWaveTable h
  | _ => cases h

theorem GrowsTo.trans {r₁ r₂ r₃ : TimingReader} (h : r₁.GrowsTo r₂) (h' : r₂.GrowsTo r₃) :
    r₁.GrowsTo r₃ :=
  ⟨h'.part_eq.trans h.part_eq, h'.inStatemap_eq.trans h.inStatemap_eq,
    h'.block_eq.trans h.block_eq, IsTrans.trans _ _ _ h.timing h'.timing⟩

/-- A line of the wave table section lets what has been read grow. It may open a state map. -/
theorem of_placeWaveTables {form : WaveTableLine} (h : r.placeWaveTables line form = .ok r') :
    r.timing.Grows r'.timing ∧ r'.place.block = r.place.block ∧
      r'.place.part = r.place.part := by
  have hall : ∀ {r' : TimingReader}, r.GrowsTo r' → r.timing.Grows r'.timing ∧
      r'.place.block = r.place.block ∧ r'.place.part = r.place.part :=
    fun hgrows ↦ ⟨hgrows.timing, hgrows.block_eq, hgrows.part_eq⟩
  cases form with
  | statemap =>
    obtain ⟨opened, hopened, h⟩ := except_bind_eq_ok_iff.mp h
    cases h
    obtain ⟨htiming, hblock, hpart⟩ := hall (of_inWaveTable hopened)
    exact ⟨htiming, hblock, hpart⟩
  | table name =>
    obtain ⟨wavetables, -, h⟩ := except_bind_eq_ok_iff.mp h
    cases h
    exact ⟨⟨.refl _, .refl _, .refl _⟩, rfl, rfl⟩
  | defines ports => exact hall (of_inWaveTable h)
  | pins pins => exact hall (of_inWaveTable h)
  | hrpf rest =>
    obtain ⟨marked, hmarked, h⟩ := except_bind_eq_ok_iff.mp h
    exact hall ((of_inWaveTable hmarked).trans (of_placeWaveTableRest h))
  | waveform index edges cycle =>
    have hrest : r.placeWaveTableRest line (.waveform index edges cycle) = .ok r' := h
    exact hall (of_placeWaveTableRest hrest)
  | brk edges =>
    have hrest : r.placeWaveTableRest line (.brk edges) = .ok r' := h
    exact hall (of_placeWaveTableRest hrest)
  | unplaced =>
    have hrest : r.placeWaveTableRest line .unplaced = .ok r' := h
    exact hall (of_placeWaveTableRest hrest)

/-! ### One line -/

/-- The reader with its state map closed. -/
def closeStatemap (r : TimingReader) : TimingReader :=
  { r with place := { r.place with inStatemap := false } }

theorem closeStatemap_eq_self (h : r.place.inStatemap = false) : r.closeStatemap = r := by
  obtain ⟨place, timing⟩ := r
  obtain ⟨part, inStatemap, wavetable, eqnset, timingset, specSetWavetable, specSetCheck, block⟩ :=
    place
  cases h
  rfl

/-- What a line that is placed can be: a section marker, a firmware command, or a line of the
section or the specification that is open. -/
theorem placeLine_cases (h : r.placeLine line = .ok r') :
    (Form.startsWith line "EQSP" = true ∧ r.openSection line = .ok r') ∨
    (Form.startsWith line "EQSP" = false ∧ isSkipped line = true ∧ r' = r) ∨
    (Form.startsWith line "EQSP" = false ∧ isSkipped line = false ∧
      ((r.place.part = .wavetables ∧ r.placeWaveTables line (.ofText line) = .ok r') ∨
        (r.place.part = .equations ∧ r.placeEquations line (.ofText line) = .ok r') ∨
        (r.place.part = .values ∧ ∃ b, r.place.block = some b ∧ r.placeInBlock line b = .ok r') ∨
        (r.place.part = .values ∧ r.place.block = none ∧
          r.placeValues line (.ofText line) = .ok r'))) := by
  unfold placeLine at h
  split at h
  · rename_i heqsp
    exact .inl ⟨heqsp, h⟩
  · rename_i heqsp
    have hplaced := Bool.eq_false_iff.mpr heqsp
    split at h
    · rename_i hskipped
      cases h
      exact .inr (.inl ⟨hplaced, hskipped, rfl⟩)
    · rename_i hskipped
      refine .inr (.inr ⟨hplaced, Bool.eq_false_iff.mpr hskipped, ?_⟩)
      split at h
      · cases h
      · rename_i hpart
        exact .inl ⟨hpart, h⟩
      · rename_i hpart
        exact .inr (.inl ⟨hpart, h⟩)
      · rename_i hpart
        refine .inr (.inr ?_)
        split at h
        · rename_i b hblock
          exact .inl ⟨hpart, b, hblock, h⟩
        · rename_i hblock
          exact .inr ⟨hpart, hblock, h⟩

/-- What a line that is read can be: one that starts with `NOOP`, a line of a state map, or a line
that is placed, which closes a state map if it starts as those do that end one. -/
theorem read_cases_of_ends {line : Line} (h : r.read line = .ok r') :
    (Form.startsWith line.text "NOOP" = true ∧ r' = r) ∨
    (Form.startsWith line.text "NOOP" = false ∧ r.place.inStatemap = true ∧
      statemapEnds.any (Form.startsWith line.text) = false ∧
      r.inWaveformBlock line.text (fun b ↦ .ok { b with statemap := b.statemap ++ [line.text] }) =
        .ok r') ∨
    (Form.startsWith line.text "NOOP" = false ∧
      (r.place.inStatemap = true → statemapEnds.any (Form.startsWith line.text) = true) ∧
      r.closeStatemap.placeLine line.text = .ok r') := by
  unfold read at h
  dsimp only at h
  split at h
  · cases h
  · split at h
    · rename_i hnoop
      cases h
      exact .inl ⟨hnoop, rfl⟩
    · rename_i hnoop
      have hnoop := Bool.eq_false_iff.mpr hnoop
      refine .inr ?_
      split at h
      · rename_i hstatemap
        split at h
        · rename_i hends
          exact .inr ⟨hnoop, fun _ ↦ hends, h⟩
        · rename_i hends
          exact .inl ⟨hnoop, hstatemap, Bool.eq_false_iff.mpr hends, h⟩
      · rename_i hstatemap
        refine .inr ⟨hnoop, fun htrue ↦ absurd htrue hstatemap, ?_⟩
        rw [closeStatemap_eq_self (Bool.eq_false_iff.mpr hstatemap)]
        exact h

/-- What a line that is read can be: one that starts with `NOOP`, a line of a state map, or a line
that is placed. -/
theorem read_cases {line : Line} (h : r.read line = .ok r') :
    (Form.startsWith line.text "NOOP" = true ∧ r' = r) ∨
    (Form.startsWith line.text "NOOP" = false ∧ r.place.inStatemap = true ∧
      statemapEnds.any (Form.startsWith line.text) = false ∧
      r.inWaveformBlock line.text (fun b ↦ .ok { b with statemap := b.statemap ++ [line.text] }) =
        .ok r') ∨
    (Form.startsWith line.text "NOOP" = false ∧
      r.closeStatemap.placeLine line.text = .ok r') :=
  (read_cases_of_ends h).imp_right (.imp_right fun ⟨hnoop, _, hplaced⟩ ↦ ⟨hnoop, hplaced⟩)

/-- A section marker comes outside specifications, and starts its section afresh. -/
theorem of_openSection (h : r.openSection line = .ok r') :
    r.place.block = none ∧ r'.timing = r.timing ∧
      ∃ name part, Form.section? "TIM" line.toList = some name ∧ r'.place = .startOf part ∧
        TimingSection.ofName? name = some part := by
  unfold openSection at h
  split at h
  · cases h
  · rename_i name hsection
    rw [hsection]
    split at h
    · cases h
    · rename_i hblock
      rw [Bool.not_eq_true, Option.isSome_eq_false_iff, Option.isNone_iff_eq_none] at hblock
      refine ⟨hblock, ?_⟩
      split at h
      · cases h
        exact ⟨rfl, "WVT", .wavetables, rfl, rfl, rfl⟩
      · cases h
        exact ⟨rfl, "EQN", .equations, rfl, rfl, rfl⟩
      · cases h
        exact ⟨rfl, "SPS", .values, rfl, rfl, rfl⟩
      · cases h

/-- A line that is placed leaves what has been read. -/
theorem holds_placeLine (h : r.placeLine line = .ok r') (hentry : r.Holds entry) :
    r'.Holds entry := by
  rcases placeLine_cases h with ⟨-, h⟩ | ⟨-, -, rfl⟩ |
    ⟨-, -, ⟨-, h⟩ | ⟨-, h⟩ | ⟨-, b, hblock, h⟩ | ⟨-, hblock, h⟩⟩
  · obtain ⟨hblock, htiming, -⟩ := of_openSection h
    rcases hentry with hentry | ⟨b, hb, -⟩
    · exact .inl (htiming ▸ hentry)
    · rw [hblock] at hb
      cases hb
  · exact hentry
  · obtain ⟨htiming, hblock, -⟩ := of_placeWaveTables h
    rcases hentry with hentry | ⟨b, hb, hentry⟩
    · exact .inl (htiming.holds hentry)
    · exact .inr ⟨b, hblock.trans hb, hentry⟩
  · exact (growsTo_placeEquations h).holds hentry
  · obtain ⟨-, -, htiming, b', hplace, hholds⟩ := of_placeInBlock h
    rcases hentry with hentry | ⟨b₁, hb, hentry⟩
    · exact .inl (htiming.holds hentry)
    · rw [hblock] at hb
      cases hb
      exact hholds _ ((SpecificationBlock.grows_place hplace).holds hentry)
  · obtain ⟨-, -, htiming⟩ := of_placeValues h
    rcases hentry with hentry | ⟨b, hb, -⟩
    · exact .inl (htiming.holds hentry)
    · rw [hblock] at hb
      cases hb

/-- What has been read stays. -/
theorem holds_read {line : Line} (h : r.read line = .ok r') (hentry : r.Holds entry) :
    r'.Holds entry := by
  rcases read_cases h with ⟨-, rfl⟩ | ⟨-, -, -, h⟩ | ⟨-, h⟩
  · exact hentry
  · exact (of_inWaveTable h).holds hentry
  · exact holds_placeLine h hentry

/-! ### Sections -/

/-- A section where specs are declared or given values is open. -/
structure InDefinitions (r : TimingReader) : Prop where
  part : r.place.part = .equations ∨ r.place.part = .values
  inStatemap : r.place.inStatemap = false

theorem InDefinitions.of_place_eq (h : r.InDefinitions) (hpart : r'.place.part = r.place.part)
    (hstatemap : r'.place.inStatemap = r.place.inStatemap) : r'.InDefinitions :=
  ⟨hpart ▸ h.part, hstatemap.trans h.inStatemap⟩

theorem InDefinitions.closeStatemap_eq (h : r.InDefinitions) : r.closeStatemap = r :=
  closeStatemap_eq_self h.inStatemap

theorem InDefinitions.part_ne_wavetables (h : r.InDefinitions) : r.place.part ≠ .wavetables := by
  rcases h.part with hpart | hpart <;> rw [hpart] <;> decide

/-- Only a section marker ends a section. -/
theorem inDefinitions_read {line : Line} (h : r.read line = .ok r')
    (hline : Form.section? "TIM" line.text.toList = none) (hr : r.InDefinitions) :
    r'.InDefinitions := by
  rcases read_cases h with ⟨-, rfl⟩ | ⟨-, -, -, h⟩ | ⟨-, h⟩
  · exact hr
  · have hgrows := of_inWaveTable h
    exact hr.of_place_eq hgrows.part_eq hgrows.inStatemap_eq
  · rw [hr.closeStatemap_eq] at h
    rcases placeLine_cases h with ⟨-, h⟩ | ⟨-, -, rfl⟩ |
      ⟨-, -, ⟨hpart, -⟩ | ⟨-, h⟩ | ⟨-, b, -, h⟩ | ⟨-, -, h⟩⟩
    · obtain ⟨-, -, name, part, hsection, -⟩ := of_openSection h
      rw [hline] at hsection
      cases hsection
    · exact hr
    · exact absurd hpart hr.part_ne_wavetables
    · have hgrows := growsTo_placeEquations h
      exact hr.of_place_eq hgrows.part_eq hgrows.inStatemap_eq
    · obtain ⟨hpart, hstatemap, -⟩ := of_placeInBlock h
      exact hr.of_place_eq hpart hstatemap
    · obtain ⟨hpart, hstatemap, -⟩ := of_placeValues h
      exact hr.of_place_eq hpart hstatemap

/-- A marker of an equation or a spec set section opens it, unless a state map takes it in. -/
theorem inDefinitions_read_marker {marker : Line} (h : r.read marker = .ok r')
    (hmarker : Form.section? "TIM" marker.text.toList = some "EQN" ∨
      Form.section? "TIM" marker.text.toList = some "SPS")
    (hends : r.place.inStatemap = true → statemapEnds.any (Form.startsWith marker.text) = true) :
    r'.InDefinitions := by
  obtain ⟨name, hsection, hname⟩ : ∃ name, Form.section? "TIM" marker.text.toList = some name ∧
      (name = "EQN" ∨ name = "SPS") := by
    rcases hmarker with hmarker | hmarker
    · exact ⟨"EQN", hmarker, .inl rfl⟩
    · exact ⟨"SPS", hmarker, .inr rfl⟩
  have heqsp := Form.startsWith_of_section? hsection
  -- a marker starts with its keyword, so not with `NOOP`
  rcases read_cases h with ⟨hnoop, -⟩ | ⟨-, hstatemap, htaken, -⟩ | ⟨-, h⟩
  · exact absurd (Form.eq_of_startsWith heqsp hnoop rfl) (by decide)
  · rw [hends hstatemap] at htaken
    cases htaken
  · have hmarked : r.closeStatemap.openSection marker.text = .ok r' := by
      unfold placeLine at h
      rwa [if_pos heqsp] at h
    obtain ⟨-, -, found, part, hfound, hplace, hpart⟩ := of_openSection hmarked
    rw [hsection] at hfound
    cases hfound
    refine ⟨?_, by rw [hplace]; rfl⟩
    rw [hplace]
    rcases hname with rfl | rfl
    · exact .inl (Option.some.inj hpart).symm
    · exact .inr (Option.some.inj hpart).symm

/-- A state map is open in the wave table section only, a specification only in the spec set
section. -/
structure Consistent (r : TimingReader) : Prop where
  statemap : r.place.inStatemap = true → r.place.part = .wavetables
  block : r.place.block.isSome = true → r.place.part = .values

theorem consistent_read {line : Line} (h : r.read line = .ok r') (hr : r.Consistent) :
    r'.Consistent := by
  rcases read_cases h with ⟨-, rfl⟩ | ⟨-, -, -, h⟩ | ⟨-, h⟩
  · exact hr
  · have hgrows := of_inWaveTable h
    constructor
    · rw [hgrows.inStatemap_eq, hgrows.part_eq]
      exact hr.statemap
    · rw [hgrows.block_eq, hgrows.part_eq]
      exact hr.block
  · -- a line that is placed finds no state map open, and at most a wave table line opens one
    have hnone : r.closeStatemap.place.inStatemap = true → r'.place.part = .wavetables := nofun
    rcases placeLine_cases h with ⟨-, h⟩ | ⟨-, -, rfl⟩ |
      ⟨-, -, ⟨hpart, h⟩ | ⟨hpart, h⟩ | ⟨hpart, b, -, h⟩ | ⟨hpart, -, h⟩⟩
    · obtain ⟨-, -, name, part, -, hplace, -⟩ := of_openSection h
      constructor
      · rw [hplace]
        exact nofun
      · rw [hplace]
        exact nofun
    · exact ⟨nofun, hr.block⟩
    · obtain ⟨-, hblock, hpart'⟩ := of_placeWaveTables h
      rw [hpart] at hpart'
      refine ⟨fun _ ↦ hpart', fun hsome ↦ ?_⟩
      rw [hblock] at hsome
      exact absurd ((hr.block hsome).symm.trans hpart) (by decide)
    · have hgrows := growsTo_placeEquations h
      rw [← hgrows.inStatemap_eq] at hnone
      refine ⟨hnone, fun hsome ↦ ?_⟩
      rw [hgrows.block_eq] at hsome
      exact absurd ((hr.block hsome).symm.trans hpart) (by decide)
    · obtain ⟨hpart', hstatemap, -⟩ := of_placeInBlock h
      rw [← hstatemap] at hnone
      exact ⟨hnone, fun _ ↦ hpart'.trans hpart⟩
    · obtain ⟨hpart', hstatemap, -⟩ := of_placeValues h
      rw [← hstatemap] at hnone
      exact ⟨hnone, fun _ ↦ hpart'.trans hpart⟩

/-- Outside the wave table section there are no state maps: a line is passed over or placed. -/
theorem placeLine_of_read {line : Line} (hr : r.Consistent) (hpart : r.place.part ≠ .wavetables)
    (h : r.read line = .ok r') :
    (Form.startsWith line.text "NOOP" = true ∧ r' = r) ∨
      (Form.startsWith line.text "NOOP" = false ∧ r.placeLine line.text = .ok r') := by
  have hstatemap : r.place.inStatemap = false := by
    rw [← Bool.not_eq_true]
    exact fun htrue ↦ hpart (hr.statemap htrue)
  rcases read_cases h with hnoop | ⟨-, htrue, -, -⟩ | ⟨hkept, h⟩
  · exact .inl hnoop
  · rw [hstatemap] at htrue
    cases htrue
  · rw [closeStatemap_eq_self hstatemap] at h
    exact .inr ⟨hkept, h⟩

theorem consistent_of_run {origin : String} {lines : List Line} (hr : r.Consistent)
    (h : readLines origin read r lines = .ok r') : r'.Consistent :=
  readLines_induction (P := Consistent) h hr fun _ _ _ _ hs hline ↦ consistent_read hline hs

theorem consistent_readLines {origin : String} {lines : List Line}
    (h : readLines origin read .start lines = .ok r) : r.Consistent := by
  have hstart : start.Consistent := ⟨nofun, nofun⟩
  exact consistent_of_run hstart h

/-! ### Definitions -/

/-- In the sections of definitions, a definition is dropped when its name starts with `NOOP`, else
it is entered. -/
theorem entered_of_read {line : Line} {d : LineDefinition} (hr : r.InDefinitions)
    (hd : Defines line.text d) (hname : d.name ∉ Timing.keywords) (h : r.read line = .ok r') :
    (Timing.isDropped d.name = true → r' = r) ∧
      (Timing.isDropped d.name = false → ∃ entry, r.entryOf d = some entry ∧ r'.Holds entry) := by
  have hnoop : Form.startsWith line.text "NOOP" = Timing.isDropped d.name :=
    hd.startsWith_eq "NOOP" (by decide)
  rcases read_cases h with ⟨hdropped, hsame⟩ | ⟨-, hstatemap, -, -⟩ | ⟨hkept, h⟩
  · rw [← hnoop, hdropped]
    exact ⟨fun _ ↦ hsame, fun hkept ↦ absurd hkept.symm Bool.false_ne_true⟩
  · rw [hr.inStatemap] at hstatemap
    cases hstatemap
  · rw [← hnoop, hkept]
    refine ⟨fun hdropped ↦ absurd hdropped Bool.false_ne_true, fun _ ↦ ?_⟩
    rw [hr.closeStatemap_eq] at h
    rcases placeLine_cases h with ⟨-, h⟩ | ⟨-, hskipped, -⟩ |
      ⟨-, -, ⟨hpart, -⟩ | ⟨-, h⟩ | ⟨-, b, hblock, h⟩ | ⟨-, hblock, h⟩⟩
    · -- only a section marker opens a section, and its front word is a keyword
      obtain ⟨-, -, name, part, hsection, -⟩ := of_openSection h
      have hnone :=
        hd.afterKeyword?_of_notMem Timing.isWord_of_mem_keywords hname "EQSP" (by decide)
      have hnosection := Form.noSection_of_noKeyword "TIM" hnone
      rw [hsection] at hnosection
      cases hnosection
    · rw [isSkipped_of_defines hd hname] at hskipped
      cases hskipped
    · exact absurd hpart hr.part_ne_wavetables
    · obtain ⟨entry, hentry, hholds⟩ := entered_of_placeEquations hd hname h
      exact ⟨entry, hentry, .inl hholds⟩
    · exact entered_of_placeInBlock hblock hd hname h
    · obtain ⟨entry, hentry, hholds⟩ := entered_of_placeValues hblock hd hname h
      exact ⟨entry, hentry, .inl hholds⟩

end TimingReader

/-! ### Texts -/

/-- The lines of an accepted text behind the header are a run that ends outside specifications. -/
theorem Timing.run_of_parse {text origin : String} {timing : Timing} {first : Line}
    {lines : List Line} (hparse : parse text origin = .ok timing)
    (hlines : significantLines text = first :: lines) :
    ∃ r, readLines origin TimingReader.read .start lines = .ok r ∧ r.place.block = none ∧
      r.timing = timing := by
  unfold parse at hparse
  obtain ⟨found, hheader, hparse⟩ := except_bind_eq_ok_iff.mp hparse
  obtain ⟨r, hr, hparse⟩ := except_bind_eq_ok_iff.mp hparse
  rw [hlines, afterHeader] at hheader
  split at hheader
  · cases hheader
    unfold TimingReader.finish at hparse
    split at hparse
    · rename_i hblock
      cases hparse
      exact ⟨r, hr, hblock, rfl⟩
    · cases hparse
  · cases hheader

/-- A line of an accepted text is read by the reader that the lines between the header and it
leave. What the reader holds after the line, the setup holds in the end. -/
theorem Timing.of_parse {text origin : String} {timing : Timing} {header line : Line}
    {before after : List Line} (hparse : parse text origin = .ok timing)
    (hlines : significantLines text = header :: before ++ line :: after) :
    ∃ r r', readLines origin TimingReader.read .start before = .ok r ∧ r.read line = .ok r' ∧
      ∀ entry, r'.Holds entry → timing.Holds entry := by
  obtain ⟨last, hrun, hblock, rfl⟩ := run_of_parse hparse hlines
  obtain ⟨r, hr, hrest⟩ := readLines_append_eq_ok_iff.mp hrun
  obtain ⟨r', hr', hafter⟩ := readLines_cons_eq_ok_iff.mp hrest
  refine ⟨r, r', hr, hr', fun entry hentry ↦ ?_⟩
  have hheld : last.Holds entry := readLines_induction (P := fun s ↦ s.Holds entry) hafter hentry
    fun s t line _ hs hread ↦ TimingReader.holds_read hread hs
  rcases hheld with hheld | ⟨b, hb, -⟩
  · exact hheld
  · rw [hblock] at hb
    cases hb

/-- The lines up to a place of a timing text end in an equation or a spec set section. A state map
that is open at its marker ends there. -/
def Timing.EndsInDefinitions (origin : String) (before : List Line) : Prop :=
  ∃ front marker between, before = front ++ marker :: between ∧
    (Form.section? "TIM" marker.text.toList = some "EQN" ∨
      Form.section? "TIM" marker.text.toList = some "SPS") ∧
    (∀ r, readLines origin TimingReader.read .start front = .ok r → r.place.inStatemap = true →
      TimingReader.statemapEnds.any (Form.startsWith marker.text) = true) ∧
    ∀ l ∈ between, Form.section? "TIM" l.text.toList = none

theorem TimingReader.inDefinitions_readLines {origin : String} {r : TimingReader}
    {before : List Line} (h : readLines origin read .start before = .ok r)
    (hbefore : Timing.EndsInDefinitions origin before) : r.InDefinitions := by
  obtain ⟨front, marker, between, rfl, hmarker, hends, hbetween⟩ := hbefore
  obtain ⟨r₁, hfront, hrest⟩ := readLines_append_eq_ok_iff.mp h
  obtain ⟨r₂, hread, hrest⟩ := readLines_cons_eq_ok_iff.mp hrest
  have hr₂ : r₂.InDefinitions := inDefinitions_read_marker hread hmarker (hends r₁ hfront)
  exact readLines_induction (P := InDefinitions) hrest hr₂
    fun s t line hmem hs hline ↦ inDefinitions_read hline (hbetween line hmem) hs

end TesterSetup
