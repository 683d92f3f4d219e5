import TesterSetup.Proofs.EdgeNames
import TesterSetup.Proofs.SpecificationTexts
import TesterSetup.Proofs.StateMaps

/-!
# Edges of waveforms

A waveform block holds what happens at the edges of its pins: under each of its waveforms, and on a
break. Only waveform and break lines change that, behind a mark or without one
(`TimingReader.actionStep_read`), and they do so for the block that is open. So the waveforms of a
block are those of its lines, the edges of each are what the entries of its line say, and the edges
of a break are those of a break line (`Timing.holdsWaveforms_of_parse`). Neither kind of line is
accepted with an entry that names no edge.
-/

set_option autoImplicit false

namespace TesterSetup

open TesterSetup.Text

/-! ### Lines with edges -/

namespace WaveTableLine

/-- The form of a line without its mark. -/
def unmarked : WaveTableLine → WaveTableLine
  | .hrpf rest => ofRest rest
  | form => form

/-- The text that a waveform or a break line has its edges in. -/
def edgesText? : WaveTableLine → Option String
  | .waveform _ edges _ => some edges
  | .brk edges => some edges
  | _ => none

end WaveTableLine

/-! ### What happens at edges -/

/-- What happens at the edges of the pins of a block: under its waveforms and on a break. -/
def WaveformBlock.actions (b : WaveformBlock) : List Waveform × List WaveEdge :=
  (b.waveforms.items, b.brk)

namespace BlockView

variable {v : BlockView} {name : String} {front blocks : List WaveformBlock} {b : WaveformBlock}

/-- What happens at the edges of the block at a place, if there is one. -/
def actionsAt (v : BlockView) (p : BlockPlace) : List Waveform × List WaveEdge :=
  (p.find? v.blocks).elim ([], []) WaveformBlock.actions

theorem actionsAt_of_open (h : v.Open name front b) :
    v.actionsAt ⟨name, front.length⟩ = b.actions := by
  rw [actionsAt, h.find?_eq, Option.elim_some]

theorem actionsAt_setOpen (h : v.Open name front b) (b' : WaveformBlock) :
    (v.setOpen name front b').actionsAt =
      Function.update v.actionsAt ⟨name, front.length⟩ b'.actions := by
  funext p
  rw [actionsAt, find?_setOpen h, Function.update_apply]
  split
  · rfl
  · rfl

/-- A change of the open block that leaves what happens at its edges. -/
theorem actionsAt_setOpen_of_eq (h : v.Open name front b) {b' : WaveformBlock}
    (hsame : b'.actions = b.actions) : (v.setOpen name front b').actionsAt = v.actionsAt := by
  rw [actionsAt_setOpen h, hsame, ← actionsAt_of_open h, Function.update_eq_self]

/-- Nothing happens at the edges of a new block. -/
theorem actionsAt_concat (h : v.blocks name = some blocks) (pins : List String)
    (table : Option String) (inStatemap : Bool) :
    actionsAt ⟨Function.update v.blocks name (some (blocks ++ [.ofPins pins])), table, inStatemap⟩ =
      v.actionsAt := by
  funext p
  rw [actionsAt, find?_concat h]
  by_cases hp : p = ⟨name, blocks.length⟩
  · have hnone : p.find? v.blocks = none := by
      rw [BlockPlace.find?, hp, h, Option.bind_some, List.getElem?_eq_none (Nat.le_refl _)]
    rw [if_pos hp, actionsAt, hnone]
    rfl
  · rw [if_neg hp]
    rfl

theorem actionsAt_table (h : v.blocks name = none) (table : Option String) (inStatemap : Bool) :
    actionsAt ⟨Function.update v.blocks name (some []), table, inStatemap⟩ = v.actionsAt := by
  funext p
  rw [actionsAt, find?_table]
  by_cases hp : p.table = name
  · have hnone : p.find? v.blocks = none := by
      rw [BlockPlace.find?, hp, h]
      rfl
    rw [if_pos hp, actionsAt, hnone]
  · rw [if_neg hp]
    rfl

end BlockView

/-! ### One line -/

namespace TimingReader

variable {r r' : TimingReader} {line : Line}

/-- A line is read in the wave table section and outside state maps. -/
structure InWaveTables (r : TimingReader) : Prop where
  part : r.place.part = .wavetables
  inStatemap : r.place.inStatemap = false

/-- The form that a line has in the wave table section, without its mark. Section marks and lines
that are passed over have none. -/
def waveTableForm? (line : Line) : Option WaveTableLine :=
  if Form.startsWith line.text "EQSP" || isPassedOver line.text then none
  else some (WaveTableLine.ofText line.text).unmarked

/-- What a line of a form does to what happens at edges. -/
inductive ActionStep (v : BlockView) (form : WaveTableLine) (v' : BlockView) : Prop
  /-- A line without edges. -/
  | other (hform : form.edgesText? = none) (hsame : v'.actionsAt = v.actionsAt)
  | waveform {p : BlockPlace} {text : String} {w : Waveform}
    (hform : form = .waveform w.index text w.deviceCycle) (hopen : v.openPlace? = some p)
    (hedges : List.Forall₂ WritesEdge (edgeEntries text) w.edges)
    (hadded : v'.actionsAt =
      Function.update v.actionsAt p ((v.actionsAt p).1 ++ [w], (v.actionsAt p).2))
  | brk {p : BlockPlace} {text : String} {edges : List WaveEdge}
    (hform : form = .brk text) (hopen : v.openPlace? = some p)
    (hedges : List.Forall₂ WritesEdge (edgeEntries text) edges)
    (hchanged : v'.actionsAt = Function.update v.actionsAt p ((v.actionsAt p).1, edges))

/-- A waveform or a break line, behind a mark or without one. -/
theorem actionStep_placeWaveTableRest {rest : String} {form : WaveTableLine}
    (h : r.placeWaveTableRest rest form = .ok r') :
    ActionStep r.blockView form r'.blockView := by
  cases form with
  | waveform index text cycle =>
    obtain ⟨edges, hedges, h⟩ := except_bind_eq_ok_iff.mp h
    obtain ⟨name, front, b, b', hb, hopen, hview⟩ := blockView_inWaveformBlock h
    obtain ⟨waveforms, hadd, hb⟩ := except_bind_eq_ok_iff.mp hb
    cases hb
    refine .waveform (w := ⟨index, edges, cycle⟩) rfl hopen.openPlace?_eq
      (readWaveEdges_eq_ok_iff.mp hedges) ?_
    rw [hview, BlockView.actionsAt_setOpen hopen, BlockView.actionsAt_of_open hopen,
      WaveformBlock.actions, Container.items_add (except_mapError_eq_ok_iff.mp hadd)]
    rfl
  | brk text =>
    obtain ⟨edges, hedges, h⟩ := except_bind_eq_ok_iff.mp h
    obtain ⟨name, front, b, b', hb, hopen, hview⟩ := blockView_inWaveformBlock h
    cases hb
    refine .brk rfl hopen.openPlace?_eq (readWaveEdges_eq_ok_iff.mp hedges) ?_
    rw [hview, BlockView.actionsAt_setOpen hopen, BlockView.actionsAt_of_open hopen]
    rfl
  | _ => cases h

/-- A line of the wave table section does what its form without the mark does. -/
theorem actionStep_placeWaveTables {text : String} {form : WaveTableLine}
    (h : r.placeWaveTables text form = .ok r') :
    ActionStep r.blockView form.unmarked r'.blockView := by
  cases form with
  | statemap =>
    obtain ⟨opened, hopened, h⟩ := except_bind_eq_ok_iff.mp h
    cases h
    obtain ⟨name, front, b, b', hb, hopen, hview⟩ := blockView_inWaveformBlock hopened
    cases hb
    have hsame : opened.blockView.actionsAt = r.blockView.actionsAt := by
      rw [hview, BlockView.actionsAt_setOpen_of_eq hopen rfl]
    exact .other rfl hsame
  | table name =>
    obtain ⟨wavetables, hadd, h⟩ := except_bind_eq_ok_iff.mp h
    cases h
    obtain ⟨hfresh, hblocks⟩ := blocksOf_add (except_mapError_eq_ok_iff.mp hadd)
    refine .other rfl ?_
    change BlockView.actionsAt ⟨_, some name, r.place.inStatemap⟩ = _
    rw [hblocks]
    exact BlockView.actionsAt_table (v := r.blockView) hfresh _ _
  | defines ports =>
    have hsame : r'.blockView = r.blockView := blockView_inWaveTable_of_blocks_eq h fun w w' hw ↦ by
      cases hw
      exact ⟨rfl, rfl⟩
    exact .other rfl (by rw [hsame])
  | pins pins =>
    obtain ⟨name, w, w', hw, -, hblocks, hview⟩ := blockView_inWaveTable h fun w w' hw ↦ by
      cases hw
      rfl
    cases hw
    refine .other rfl ?_
    rw [hview]
    exact BlockView.actionsAt_concat hblocks pins _ _
  | hrpf rest =>
    obtain ⟨marked, hmarked, h⟩ := except_bind_eq_ok_iff.mp h
    have hsame : marked.blockView = r.blockView :=
      blockView_inWaveTable_of_blocks_eq hmarked fun w w' hw ↦ by
        cases hw
        exact ⟨rfl, rfl⟩
    rw [← hsame]
    exact actionStep_placeWaveTableRest h
  | waveform index edges cycle =>
    have hrest : r.placeWaveTableRest text (.waveform index edges cycle) = .ok r' := h
    exact actionStep_placeWaveTableRest hrest
  | brk edges =>
    have hrest : r.placeWaveTableRest text (.brk edges) = .ok r' := h
    exact actionStep_placeWaveTableRest hrest
  | unplaced => cases h

/-- A line that ends a state map has no edges. -/
theorem edgesText?_of_endsStatemap {text : String} (hends : endsStatemap text = true)
    (hmarker : Form.startsWith text "EQSP" = false) :
    (WaveTableLine.ofText text).unmarked.edgesText? = none := by
  rcases ofText_of_endsStatemap hends hmarker with ⟨pins, hform⟩ | ⟨name, hform⟩ | hform
  all_goals
    rw [hform]
    rfl

/-- Only a line of the wave table section changes what happens at edges, outside state maps and by
its form. -/
theorem actionStep_read (h : r.read line = .ok r') :
    (r'.blockView.actionsAt = r.blockView.actionsAt ∧
      (r.InWaveTables → ∀ form, waveTableForm? line = some form → form.edgesText? = none)) ∨
    (r.InWaveTables ∧ ∃ form, waveTableForm? line = some form ∧
      ActionStep r.blockView form r'.blockView) := by
  have hnone : (Form.startsWith line.text "EQSP" || isPassedOver line.text) = true →
      ∀ form, waveTableForm? line = some form → form.edgesText? = none := by
    intro hmark form hform
    rw [waveTableForm?, if_pos hmark] at hform
    cases hform
  have hother : r.closeStatemap.place.part ≠ .wavetables →
      r'.blockView = r.closeStatemap.blockView →
        r'.blockView.actionsAt = r.blockView.actionsAt ∧
          (r.InWaveTables → ∀ form, waveTableForm? line = some form → form.edgesText? = none) := by
    intro hpart hview
    rw [hview]
    exact ⟨rfl, fun hwave ↦ absurd hwave.part hpart⟩
  rcases read_cases_of_ends h with ⟨hnoop, rfl⟩ | ⟨-, hin, -, h⟩ | ⟨hnoop, hends, h⟩
  · refine .inl ⟨rfl, fun _ ↦ hnone ?_⟩
    rw [isPassedOver, hnoop, Bool.true_or, Bool.or_true]
  · obtain ⟨name, front, b, b', hb, hopen, hview⟩ := blockView_inWaveformBlock h
    cases hb
    refine .inl ⟨?_, fun hwave ↦ absurd (hin.symm.trans hwave.inStatemap) Bool.false_ne_true.symm⟩
    rw [hview]
    exact BlockView.actionsAt_setOpen_of_eq hopen rfl
  · rcases placeLine_cases h with ⟨hmark, h⟩ | ⟨-, hskipped, rfl⟩ |
      ⟨hmark, hskipped, ⟨hpart, h⟩ | ⟨hpart, h⟩ | ⟨hpart, b, -, h⟩ | ⟨hpart, -, h⟩⟩
    · obtain ⟨-, htiming, -⟩ := of_openSection h
      have hsame : r'.blockView.actionsAt = r.blockView.actionsAt := by
        have hblocks : r'.timing.blocksOf = r.timing.blocksOf := congrArg Timing.blocksOf htiming
        funext p
        rw [BlockView.actionsAt, blockView, hblocks]
        rfl
      exact .inl ⟨hsame, fun _ ↦ hnone (by rw [hmark, Bool.true_or])⟩
    · refine .inl ⟨rfl, fun _ ↦ hnone ?_⟩
      rw [isPassedOver, hskipped, Bool.or_true, Bool.or_true]
    · have hstep := actionStep_placeWaveTables h
      have hform : waveTableForm? line = some (WaveTableLine.ofText line.text).unmarked := by
        rw [waveTableForm?, isPassedOver, hmark, hnoop, hskipped]
        rfl
      cases hin : r.place.inStatemap with
      | false =>
        rw [closeStatemap_eq_self hin] at hstep
        exact .inr ⟨⟨hpart, hin⟩, _, hform, hstep⟩
      | true =>
        have hedges := edgesText?_of_endsStatemap (hends hin) hmark
        refine .inl ⟨?_, fun hwave ↦ absurd (hin.symm.trans hwave.inStatemap)
          Bool.false_ne_true.symm⟩
        cases hstep with
        | other _ hsame => exact hsame
        | waveform hwaveform =>
          rw [hwaveform] at hedges
          cases hedges
        | brk hbrk =>
          rw [hbrk] at hedges
          cases hedges
    · exact .inl (hother (by rw [hpart]; decide) (blockView_placeEquations h))
    · exact .inl (hother (by rw [hpart]; decide) (blockView_placeInBlock h))
    · exact .inl (hother (by rw [hpart]; decide) (blockView_placeValues h))

/-- A line puts a waveform into the block that is open. -/
structure PutsWaveform (r : TimingReader) (line : Line) (p : BlockPlace) (w : Waveform) : Prop where
  inWaveTables : r.InWaveTables
  isOpen : r.blockView.openPlace? = some p
  form : ∃ text, waveTableForm? line = some (.waveform w.index text w.deviceCycle) ∧
    List.Forall₂ WritesEdge (edgeEntries text) w.edges

/-- A line says what happens in the block that is open on a break. -/
structure PutsBreak (r : TimingReader) (line : Line) (p : BlockPlace) (edges : List WaveEdge) :
    Prop where
  inWaveTables : r.InWaveTables
  isOpen : r.blockView.openPlace? = some p
  form : ∃ text, waveTableForm? line = some (.brk text) ∧
    List.Forall₂ WritesEdge (edgeEntries text) edges

/-- A line puts one waveform into one block at most. -/
theorem PutsWaveform.unique {p p' : BlockPlace} {w w' : Waveform} (h : r.PutsWaveform line p w)
    (h' : r.PutsWaveform line p' w') : p = p' ∧ w = w' := by
  obtain ⟨-, hopen, text, hform, hedges⟩ := h
  obtain ⟨-, hopen', text', hform', hedges'⟩ := h'
  rw [hopen] at hopen'
  rw [hform] at hform'
  obtain ⟨index, edges, cycle⟩ := w
  obtain ⟨index', edges', cycle'⟩ := w'
  cases hopen'
  cases hform'
  obtain rfl : edges = edges' := rightUnique_writesEdge.forall₂ hedges hedges'
  exact ⟨rfl, rfl⟩

/-- The waveforms of a block stay, and the open one gets those of its lines. -/
theorem mem_waveforms_read (h : r.read line = .ok r') (p : BlockPlace) (w : Waveform) :
    w ∈ (r'.blockView.actionsAt p).1 ↔
      w ∈ (r.blockView.actionsAt p).1 ∨ r.PutsWaveform line p w := by
  have hnoForm : ∀ {form : WaveTableLine}, waveTableForm? line = some form →
      (∀ text, form ≠ .waveform w.index text w.deviceCycle) → ¬r.PutsWaveform line p w := by
    rintro form hform hother ⟨-, -, text, hform', -⟩
    rw [hform] at hform'
    exact hother text (Option.some.inj hform')
  rcases actionStep_read h with ⟨hsame, hnone⟩ | ⟨hwave, form, hform, hstep⟩
  · rw [hsame, or_iff_left]
    rintro ⟨hwave, -, text, hform, -⟩
    cases hnone hwave _ hform
  · cases hstep with
    | other hnone hsame =>
      rw [hsame, or_iff_left (hnoForm hform _)]
      rintro text rfl
      cases hnone
    | @waveform place text added hadds hopen hedges hadded =>
      subst hadds
      have hputs : r.PutsWaveform line place added := ⟨hwave, hopen, text, hform, hedges⟩
      rw [hadded, Function.update_apply]
      by_cases hp : p = place
      · subst hp
        rw [if_pos rfl, List.mem_append, List.mem_singleton]
        refine or_congr_right ⟨?_, fun hother ↦ (hother.unique hputs).2⟩
        rintro rfl
        exact hputs
      · rw [if_neg hp, or_iff_left]
        exact fun hother ↦ hp (hother.unique hputs).1
    | brk hbrk hopen hedges hchanged =>
      rw [or_iff_left (hnoForm hform fun text heq ↦ by
        rw [hbrk] at heq
        cases heq), hchanged, Function.update_apply]
      split
      · rename_i hp
        rw [hp]
      · rfl

/-- A break of a block stays as it is, or it gets the edges of a line. -/
theorem break_read (h : r.read line = .ok r') (p : BlockPlace) :
    (r'.blockView.actionsAt p).2 = (r.blockView.actionsAt p).2 ∨
      r.PutsBreak line p (r'.blockView.actionsAt p).2 := by
  rcases actionStep_read h with ⟨hsame, -⟩ | ⟨hwave, form, hform, hstep⟩
  · rw [hsame]
    exact .inl rfl
  · cases hstep with
    | other _ hsame =>
      rw [hsame]
      exact .inl rfl
    | waveform _ _ _ hadded =>
      rw [hadded, Function.update_apply]
      split
      · rename_i hp
        rw [hp]
        exact .inl rfl
      · exact .inl rfl
    | brk hbrk hopen hedges hchanged =>
      rw [hchanged, Function.update_apply]
      split
      · rename_i hp
        subst hp hbrk
        exact .inr ⟨hwave, hopen, _, hform, hedges⟩
      · exact .inl rfl

/-- A line with edges is only read where a block is open, and each of its entries names an edge. -/
theorem open_of_read {form : WaveTableLine} {text : String} (hwave : r.InWaveTables)
    (hform : waveTableForm? line = some form) (htext : form.edgesText? = some text)
    (h : r.read line = .ok r') :
    ∃ p edges, r.blockView.openPlace? = some p ∧
      List.Forall₂ WritesEdge (edgeEntries text) edges := by
  rcases actionStep_read h with ⟨-, hnone⟩ | ⟨-, found, hfound, hstep⟩
  · rw [hnone hwave form hform] at htext
    cases htext
  · rw [hform] at hfound
    cases hfound
    cases hstep with
    | other hnone =>
      rw [hnone] at htext
      cases htext
    | waveform hwaveform hopen hedges =>
      subst hwaveform
      cases htext
      exact ⟨_, _, hopen, hedges⟩
    | brk hbrk hopen hedges =>
      subst hbrk
      cases htext
      exact ⟨_, _, hopen, hedges⟩

end TimingReader

/-! ### Texts -/

namespace Timing

/-- Some lines of a timing text end in the wave table section, outside state maps. -/
def AtWaveTables (origin : String) (before : List Line) : Prop :=
  ∃ r, readLines origin TimingReader.read .start before = .ok r ∧ r.InWaveTables

/-- Some lines of a timing text leave a waveform block open where waveforms are read. -/
def AtWaveforms (origin : String) (p : BlockPlace) (before : List Line) : Prop :=
  ∃ r, readLines origin TimingReader.read .start before = .ok r ∧ r.InWaveTables ∧
    r.blockView.openPlace? = some p

/-- What a setup holds of the lines with edges in the wave tables of its text. -/
structure HoldsWaveforms (timing : Timing) (origin : String) (lines : List Line) : Prop where
  /-- The waveforms of a block are those of its lines, with the edges that their entries say. -/
  waveforms : ∀ p b, timing.blockAt? p = some b → ∀ w, w ∈ b.waveforms.items ↔
    ∃ before line after text, lines = before ++ line :: after ∧ AtWaveforms origin p before ∧
      TimingReader.waveTableForm? line = some (.waveform w.index text w.deviceCycle) ∧
      List.Forall₂ WritesEdge (edgeEntries text) w.edges
  /-- The edges of a break are those of a break line of the block, if there are any. -/
  brk : ∀ p b, timing.blockAt? p = some b → b.brk ≠ [] →
    ∃ before line after text, lines = before ++ line :: after ∧ AtWaveforms origin p before ∧
      TimingReader.waveTableForm? line = some (.brk text) ∧
      List.Forall₂ WritesEdge (edgeEntries text) b.brk
  /-- Every line with edges belongs to a block, and each of its entries names an edge. -/
  named : ∀ before line after form text, lines = before ++ line :: after →
    AtWaveTables origin before → TimingReader.waveTableForm? line = some form →
    form.edgesText? = some text → (∃ p, AtWaveforms origin p before) ∧
      ∀ entry ∈ edgeEntries text, ∃ name action, splitAtColon? entry = some (name, action) ∧
        plainEdgeName (String.ofList name) ∈ edgeNames

variable {text origin : String} {timing : Timing} {header : Line} {lines : List Line}

/-- An accepted timing text is read waveform by waveform, each edge under any spelling of it. -/
theorem holdsWaveforms_of_parse (hparse : parse text origin = .ok timing)
    (hlines : significantLines text = header :: lines) : timing.HoldsWaveforms origin lines := by
  obtain ⟨r, hrun, -, rfl⟩ := run_of_parse hparse hlines
  have hactions : ∀ p b, r.timing.blockAt? p = some b → r.blockView.actionsAt p = b.actions :=
    fun p b hb ↦ congrArg (fun found ↦ Option.elim found ([], []) WaveformBlock.actions) hb
  constructor
  · intro p b hb w
    have hall := exists_line_iff (fun s a ↦ a.2 ∈ (s.blockView.actionsAt a.1).1)
      (fun s line a ↦ s.PutsWaveform line a.1 a.2) (fun _ ↦ List.not_mem_nil)
      (fun _ _ _ _ _ hread a ↦ TimingReader.mem_waveforms_read hread a.1 a.2) hrun (p, w)
    rw [hactions p b hb] at hall
    refine hall.trans (exists_congr fun before ↦ exists_congr fun line ↦ exists_congr fun after ↦ ?_)
    constructor
    · rintro ⟨hsplit, s, hs, hwave, hopen, text, hform, hedges⟩
      exact ⟨text, hsplit, ⟨s, hs, hwave, hopen⟩, hform, hedges⟩
    · rintro ⟨text, hsplit, ⟨s, hs, hwave, hopen⟩, hform, hedges⟩
      exact ⟨hsplit, s, hs, hwave, hopen, text, hform, hedges⟩
  · intro p b hb hne
    obtain ⟨before, line, after, hsplit, s, hs, hwave, hopen, text, hform, hedges⟩ :=
      exists_line_of_has (a := (p, b.brk))
        (fun s a ↦ (s.blockView.actionsAt a.1).2 = a.2 ∧ a.2 ≠ [])
        (fun s line a ↦ s.PutsBreak line a.1 a.2) (fun _ hempty ↦ hempty.2 hempty.1.symm)
        (by
          rintro - s line s' - hread a ⟨ha, hne⟩
          rcases TimingReader.break_read hread a.1 with hsame | hputs
          · exact .inl ⟨hsame.symm.trans ha, hne⟩
          · exact .inr (ha ▸ hputs)) hrun ⟨by rw [hactions p b hb]; rfl, hne⟩
    exact ⟨before, line, after, text, hsplit, ⟨s, hs, hwave, hopen⟩, hform, hedges⟩
  · rintro before line after form text rfl ⟨s, hs, hwave⟩ hform htext
    obtain ⟨s₁, hs₁, hrest⟩ := readLines_append_eq_ok_iff.mp hrun
    cases hs.symm.trans hs₁
    obtain ⟨s', hread, -⟩ := readLines_cons_eq_ok_iff.mp hrest
    obtain ⟨p, edges, hopen, hedges⟩ := TimingReader.open_of_read hwave hform htext hread
    exact ⟨⟨p, s, hs, hwave, hopen⟩, names_of_forall₂_writesEdge hedges⟩

end Timing

end TesterSetup
