import Mathlib.Logic.Function.Basic
import TesterSetup.Proofs.TimingSections

/-!
# Waveform blocks line by line

What the lines of a timing file do to its waveform blocks. Three things about a reader matter for
that: the blocks of each wave table, the wave table that is open, and whether a state map is open
(`BlockView`). A line that is read changes them in one of the eight ways of `BlockStep`
(`TimingReader.blockStep_read`): only the last block of the open wave table is ever changed, and
only at the end of a wave table is a block added.
-/

set_option autoImplicit false

namespace TesterSetup

open TesterSetup.Text

/-! ### Forms of lines -/

/-- An index of a waveform as it is written: hexadecimal digits. -/
structure IsHexNumeral (index : String) : Prop where
  ne_nil : index.toList ≠ []
  digits : ∀ c ∈ index.toList, Form.isHexDigit c = true

namespace WaveTableLine

variable {line index edges cycle : String}

/-- Whether a line opens a part of a setup where waveforms are read: a waveform block, a wave table
or, as a marker does, a section. -/
def startsPart (line : String) : Bool :=
  match ofText line with
  | .pins _ | .table _ => true
  | _ => (Form.section? "TIM" line.toList).isSome

theorem startsPart_of_pins {pins : List String} (h : ofText line = .pins pins) :
    startsPart line = true := by
  rw [startsPart, h]

theorem startsPart_of_table {name : String} (h : ofText line = .table name) :
    startsPart line = true := by
  rw [startsPart, h]

theorem startsPart_of_section? {name : String}
    (h : Form.section? "TIM" line.toList = some name) : startsPart line = true := by
  unfold startsPart
  split
  · rfl
  · rfl
  · rw [h]
    rfl

/-- What the lines that start a part begin with. -/
def partKeywords : List String :=
  ["PINS", "WAVETBL", "EQSP"]

theorem exists_keyword_of_startsPart (h : startsPart line = true) :
    ∃ keyword ∈ partKeywords, ∃ c rest, isBlank c = true ∧
      line.toList = keyword.toList ++ c :: rest := by
  have hkeyword : ∀ keyword ∈ partKeywords, ∀ rest,
      Form.afterKeyword? keyword line.toList = some rest → ∃ keyword ∈ partKeywords, ∃ c rest,
        isBlank c = true ∧ line.toList = keyword.toList ++ c :: rest :=
    fun keyword hmem rest hafter ↦ by
      obtain ⟨c, after, hblank, hline, -⟩ := Form.exists_of_afterKeyword? hafter
      exact ⟨keyword, hmem, c, after, hblank, hline⟩
  unfold startsPart at h
  split at h
  · rename_i pins hform
    cases found_of_ofText hform with
    | pins htext =>
      obtain ⟨rest, hafter, -⟩ := Option.bind_eq_some_iff.mp htext
      exact hkeyword "PINS" (by decide) rest hafter
  · rename_i name hform
    cases found_of_ofText hform with
    | table htext =>
      obtain ⟨rest, hafter, -⟩ := Option.bind_eq_some_iff.mp htext
      exact hkeyword "WAVETBL" (by decide) rest hafter
  · obtain ⟨name, hname⟩ := Option.isSome_iff_exists.mp h
    obtain ⟨rest, hafter, -⟩ := Option.bind_eq_some_iff.mp hname
    exact hkeyword "EQSP" (by decide) rest hafter

theorem ofText_statemap : ofText "STATEMAP" = .statemap := by
  rw [ofText]
  exact if_pos rfl

theorem ne_statemap_of_ofText (h : ofText line ≠ .statemap) : line ≠ "STATEMAP" := by
  rintro rfl
  exact h ofText_statemap

theorem eq_statemap_of_ofText (h : ofText line = .statemap) : line = "STATEMAP" := by
  cases found_of_ofText h with
  | statemap hline => exact hline

/-- A waveform line starts with its index and a blank. -/
theorem exists_of_waveform? {s : List Char} (h : Form.waveform? s = some (index, edges, cycle)) :
    IsHexNumeral index ∧ ∃ c rest, isBlank c = true ∧ s = index.toList ++ c :: rest := by
  unfold Form.waveform? at h
  dsimp only at h
  split at h
  · rename_i d digits c rest hindex hrest
    split at h
    · rename_i hc
      obtain ⟨⟨text, after⟩, -, h⟩ := Option.bind_eq_some_iff.mp h
      split at h
      · cases h
        have hs : s = s.takeWhile Form.isHexDigit ++ c :: rest := by
          rw [← hrest, List.takeWhile_append_dropWhile]
        rw [String.toList_ofList]
        refine ⟨⟨?_, ?_⟩, c, rest, hc, hs⟩
        · rw [String.toList_ofList, hindex]
          exact List.cons_ne_nil d digits
        · rw [String.toList_ofList]
          exact fun _ ↦ List.mem_takeWhile_imp
      · cases h
    · cases h
  · cases h

theorem Found.waveform?_eq (h : Found line (.waveform index edges cycle)) :
    Form.waveform? line.toList = some (index, edges, cycle) := by
  cases h with
  | waveform h => exact h

theorem Found.isHexNumeral (h : Found line (.waveform index edges cycle)) : IsHexNumeral index :=
  (exists_of_waveform? h.waveform?_eq).1

/-- The forms of a line that starts like a block or a table. -/
theorem ofText_of_front {rest : List Char}
    (h : line.toList = "PINS ".toList ++ rest ∨ line.toList = "WAVETBL ".toList ++ rest) :
    (∃ pins, ofText line = .pins pins) ∨ (∃ name, ofText line = .table name) ∨
      ofText line = .unplaced := by
  have hstatemap : line ≠ "STATEMAP" := by
    rintro rfl
    rcases h with h | h
    · exact absurd (List.cons.inj h).1 (by decide)
    · exact absurd (List.cons.inj h).1 (by decide)
  have hdefines : Form.argument? "DEFINES" line.toList = none := by
    rcases h with h | h <;> rw [h] <;> rfl
  have hmark : Form.strip? "HRPF".toList line.toList = none := by
    rcases h with h | h <;> rw [h] <;> rfl
  have hrest : ofRest line = .unplaced := by
    rw [ofRest]
    rcases h with h | h <;> rw [h] <;> rfl
  rw [ofText, if_neg hstatemap, hdefines, hmark, hrest]
  cases Form.argument? "WAVETBL" line.toList with
  | some name => exact .inr (.inl ⟨_, rfl⟩)
  | none =>
    cases Form.argument? "PINS" line.toList with
    | some names => exact .inl ⟨_, rfl⟩
    | none => exact .inr (.inr rfl)

end WaveTableLine

namespace TimingReader

variable {line : String}

/-- Whether a line ends a state map. -/
def endsStatemap (line : String) : Bool :=
  statemapEnds.any (Form.startsWith line)

/-- A line that ends a state map starts with a keyword and a space. -/
theorem front_of_endsStatemap (h : endsStatemap line = true) :
    ∃ rest, line.toList = "PINS ".toList ++ rest ∨ line.toList = "WAVETBL ".toList ++ rest ∨
      line.toList = "EQSP ".toList ++ rest := by
  simp only [endsStatemap, statemapEnds, List.any_cons, List.any_nil, Bool.or_false,
    Bool.or_eq_true, Form.startsWith, Option.isSome_iff_exists, Form.strip?_eq_some_iff] at h
  rcases h with ⟨rest, h⟩ | ⟨rest, h⟩ | ⟨rest, h⟩
  · exact ⟨rest, .inl h⟩
  · exact ⟨rest, .inr (.inl h)⟩
  · exact ⟨rest, .inr (.inr h)⟩

theorem endsStatemap_of_space {keyword : String} {rest : List Char}
    (hmem : keyword ∈ WaveTableLine.partKeywords)
    (h : line.toList = keyword.toList ++ ' ' :: rest) : endsStatemap line = true := by
  simp only [WaveTableLine.partKeywords, List.mem_cons, List.not_mem_nil, or_false] at hmem
  simp only [endsStatemap, statemapEnds, List.any_cons, List.any_nil, Form.startsWith, h]
  rcases hmem with rfl | rfl | rfl <;> rfl

theorem isSkipped_of_endsStatemap (h : endsStatemap line = true) : isSkipped line = false := by
  obtain ⟨rest, h⟩ := front_of_endsStatemap h
  have hword : Form.frontWord line.toList = "PINS".toList ∨
      Form.frontWord line.toList = "WAVETBL".toList ∨
      Form.frontWord line.toList = "EQSP".toList := by
    rcases h with h | h | h <;> rw [h]
    · exact .inl rfl
    · exact .inr (.inl rfl)
    · exact .inr (.inr rfl)
  apply isSkipped_of_frontWord
  · rcases hword with hword | hword | hword <;> rw [hword] <;> decide
  · rcases hword with hword | hword | hword <;> rw [hword] <;> decide

/-- The forms of a line that ends a state map and is no marker. -/
theorem ofText_of_endsStatemap (h : endsStatemap line = true)
    (hmarker : Form.startsWith line "EQSP" = false) :
    (∃ pins, WaveTableLine.ofText line = .pins pins) ∨
      (∃ name, WaveTableLine.ofText line = .table name) ∨
      WaveTableLine.ofText line = .unplaced := by
  obtain ⟨rest, h⟩ := front_of_endsStatemap h
  rcases h with h | h | h
  · exact WaveTableLine.ofText_of_front (.inl h)
  · exact WaveTableLine.ofText_of_front (.inr h)
  · rw [Form.startsWith, h] at hmarker
    cases hmarker

end TimingReader

/-! ### What of a reader waveform blocks depend on -/

/-- The waveform blocks of a wave table, if there is a wave table of that name. -/
def Timing.blocksOf (t : Timing) (name : String) : Option (List WaveformBlock) :=
  (t.wavetables.get? name).map WaveTable.blocks

/-- A reader as far as it matters for waveform blocks. -/
@[ext]
structure BlockView where
  /-- The blocks of each wave table. -/
  blocks : String → Option (List WaveformBlock)
  /-- The wave table that is open. -/
  table : Option String
  /-- Whether lines belong to a state map. -/
  inStatemap : Bool

namespace BlockView

/-- A block is open: it is the last one of the wave table that is open. -/
structure Open (v : BlockView) (name : String) (front : List WaveformBlock) (b : WaveformBlock) :
    Prop where
  table : v.table = some name
  blocks : v.blocks name = some (front ++ [b])

/-- One block is open at most. -/
theorem Open.unique {v : BlockView} {name name' : String} {front front' : List WaveformBlock}
    {b b' : WaveformBlock} (h : v.Open name front b) (h' : v.Open name' front' b') : b = b' := by
  have htable := h'.table
  rw [h.table] at htable
  cases htable
  have hblocks := h'.blocks
  rw [h.blocks] at hblocks
  exact List.singleton_inj.mp (List.append_inj' (Option.some.inj hblocks) rfl).2

/-- Puts a block in the place of the one that is open. -/
def setOpen (v : BlockView) (name : String) (front : List WaveformBlock) (b : WaveformBlock) :
    BlockView :=
  { v with blocks := Function.update v.blocks name (some (front ++ [b])) }

end BlockView

/-- What a line that is read does to waveform blocks. -/
inductive BlockStep (v : BlockView) (line : String) : BlockView → Prop
  /-- A line of other things. In a state map that is one that starts with `NOOP`. -/
  | pass (hin : v.inStatemap = true → Form.startsWith line "NOOP" = true)
    (hout : v.inStatemap = false → line ≠ "STATEMAP") : BlockStep v line v
  /-- The heading of a state map. -/
  | statemap {name : String} {front : List WaveformBlock} {b : WaveformBlock}
    (hline : line = "STATEMAP") (hout : v.inStatemap = false) (hopen : v.Open name front b) :
    BlockStep v line { v with inStatemap := true }
  /-- A line of a state map. -/
  | stored {name : String} {front : List WaveformBlock} {b : WaveformBlock}
    (hin : v.inStatemap = true) (hkept : Form.startsWith line "NOOP" = false)
    (hends : TimingReader.endsStatemap line = false) (hopen : v.Open name front b) :
    BlockStep v line (v.setOpen name front { b with statemap := b.statemap ++ [line] })
  | waveform {name : String} {front : List WaveformBlock} {b : WaveformBlock} {w : Waveform}
    {waveforms : Container Waveform} (hline : line ≠ "STATEMAP") (hout : v.inStatemap = false)
    (hopen : v.Open name front b) (hindex : IsHexNumeral w.index)
    (hadd : b.waveforms.add w = .ok waveforms) :
    BlockStep v line (v.setOpen name front { b with waveforms })
  | brk {name : String} {front : List WaveformBlock} {b : WaveformBlock} {edges : List WaveEdge}
    (hline : line ≠ "STATEMAP") (hout : v.inStatemap = false) (hopen : v.Open name front b) :
    BlockStep v line (v.setOpen name front { b with brk := edges })
  /-- The pins of a new block. -/
  | block {name : String} {blocks : List WaveformBlock} {pins : List String}
    (hpart : WaveTableLine.startsPart line = true) (htable : v.table = some name)
    (hblocks : v.blocks name = some blocks)
    (hends : v.inStatemap = true → TimingReader.endsStatemap line = true) :
    BlockStep v line
      ⟨Function.update v.blocks name (some (blocks ++ [.ofPins pins])), v.table, false⟩
  /-- The name of a new wave table. -/
  | table {name : String} (hpart : WaveTableLine.startsPart line = true)
    (hfresh : v.blocks name = none)
    (hends : v.inStatemap = true → TimingReader.endsStatemap line = true) :
    BlockStep v line ⟨Function.update v.blocks name (some []), some name, false⟩
  /-- A section marker. -/
  | marker (hpart : WaveTableLine.startsPart line = true)
    (hends : v.inStatemap = true → TimingReader.endsStatemap line = true) :
    BlockStep v line ⟨v.blocks, none, false⟩

namespace TimingReader

variable {r r' : TimingReader} {line : String}

/-- What of a reader matters for waveform blocks. -/
def blockView (r : TimingReader) : BlockView :=
  ⟨r.timing.blocksOf, r.place.wavetable, r.place.inStatemap⟩

/-! ### Changes of wave tables -/

theorem blocksOf_replace {t : Timing} {w w' : WaveTable} {name : String}
    (hget : t.wavetables.get? name = some w) (hname : w'.name = w.name) :
    { t with wavetables := t.wavetables.replace w' }.blocksOf =
      Function.update t.blocksOf name (some w'.blocks) := by
  obtain rfl : w'.name = name := hname.trans (Container.key_of_get? hget)
  funext other
  rw [Timing.blocksOf, Function.update_apply]
  by_cases hother : other = w'.name
  · rw [if_pos hother, hother]
    exact congrArg (Option.map WaveTable.blocks) (Container.get?_replace_of_get? hget)
  · rw [if_neg hother]
    exact congrArg (Option.map WaveTable.blocks)
      (Container.get?_replace_of_ne fun heq ↦ hother heq.symm)

theorem blocksOf_add {t : Timing} {name : String} {wavetables : Container WaveTable}
    (hadd : t.wavetables.add (.ofName name) = .ok wavetables) :
    t.blocksOf name = none ∧
      { t with wavetables }.blocksOf = Function.update t.blocksOf name (some []) := by
  constructor
  · exact congrArg (Option.map WaveTable.blocks)
      (Container.get?_eq_none_iff.mpr (Container.key_notMem_of_add hadd))
  · funext other
    rw [Timing.blocksOf, Function.update_apply]
    refine (congrArg (Option.map WaveTable.blocks) (Container.get?_add hadd other)).trans ?_
    by_cases hother : other = name
    · rw [if_pos hother, hother]
      exact congrArg (Option.map WaveTable.blocks) (if_pos rfl)
    · rw [if_neg hother]
      exact congrArg (Option.map WaveTable.blocks) (if_neg fun heq ↦ hother heq.symm)

/-- A change of the open wave table. -/
theorem inWaveTable_eq_ok {f : WaveTable → LineResult WaveTable}
    (h : r.inWaveTable line f = .ok r') :
    ∃ name w w', r.place.wavetable = some name ∧ r.timing.wavetables.get? name = some w ∧
      f w = .ok w' ∧ r' = { r with timing :=
        { r.timing with wavetables := r.timing.wavetables.replace w' } } := by
  unfold inWaveTable at h
  split at h
  · cases h
  · rename_i name hname
    obtain ⟨w, hw, h⟩ := except_bind_eq_ok_iff.mp h
    obtain ⟨w', hw', h⟩ := except_bind_eq_ok_iff.mp h
    cases h
    exact ⟨name, w, w', hname, Container.get?_of_require (except_mapError_eq_ok_iff.mp hw), hw', rfl⟩

/-- A change of the open wave table that keeps its name changes its blocks only. -/
theorem blockView_inWaveTable {f : WaveTable → LineResult WaveTable}
    (h : r.inWaveTable line f = .ok r') (hf : ∀ w w', f w = .ok w' → w'.name = w.name) :
    ∃ name w w', f w = .ok w' ∧ r.place.wavetable = some name ∧
      r.blockView.blocks name = some w.blocks ∧
      r'.blockView =
        { r.blockView with blocks := Function.update r.blockView.blocks name (some w'.blocks) } := by
  obtain ⟨name, w, w', hname, hget, hw', rfl⟩ := inWaveTable_eq_ok h
  refine ⟨name, w, w', hw', hname, ?_, ?_⟩
  · change (r.timing.wavetables.get? name).map _ = _
    rw [hget]
    rfl
  · ext1
    · exact blocksOf_replace hget (hf w w' hw')
    · rfl
    · rfl

/-- A change of the open wave table that keeps its blocks. -/
theorem blockView_inWaveTable_of_blocks_eq {f : WaveTable → LineResult WaveTable}
    (h : r.inWaveTable line f = .ok r')
    (hf : ∀ w w', f w = .ok w' → w'.name = w.name ∧ w'.blocks = w.blocks) :
    r'.blockView = r.blockView := by
  obtain ⟨name, w, w', hw', -, hblocks, hview⟩ :=
    blockView_inWaveTable h fun w w' hw ↦ (hf w w' hw).1
  rw [hview, (hf w w' hw').2, ← hblocks, Function.update_eq_self]

/-- A change of the open block. -/
theorem blockView_inWaveformBlock {f : WaveformBlock → LineResult WaveformBlock}
    (h : r.inWaveformBlock line f = .ok r') :
    ∃ name front b b', f b = .ok b' ∧ r.blockView.Open name front b ∧
      r'.blockView = r.blockView.setOpen name front b' := by
  have hname : ∀ w w' : WaveTable, (do
      let blocks ← updateLast w.blocks (.misfit line .waveformOutsideBlock) f
      return { w with blocks } : LineResult WaveTable) = .ok w' → w'.name = w.name := by
    intro w w' hw
    obtain ⟨blocks, -, hw⟩ := except_bind_eq_ok_iff.mp hw
    cases hw
    rfl
  obtain ⟨name, w, w', hw', htable, hblocks, hview⟩ := blockView_inWaveTable h hname
  obtain ⟨blocks, hupdate, hw'⟩ := except_bind_eq_ok_iff.mp hw'
  cases hw'
  obtain ⟨front, b, b', hfront, hb, hlast⟩ := updateLast_eq_ok hupdate
  refine ⟨name, front, b, b', hb, ⟨htable, hfront ▸ hblocks⟩, ?_⟩
  rw [hview, hlast]
  rfl

/-- The block that is open can be changed. -/
theorem exists_inWaveformBlock_eq_ok {f : WaveformBlock → LineResult WaveformBlock} {name : String}
    {front : List WaveformBlock} {b b' : WaveformBlock} (hopen : r.blockView.Open name front b)
    (hf : f b = .ok b') : ∃ r', r.inWaveformBlock line f = .ok r' := by
  have htable : r.place.wavetable = some name := hopen.table
  obtain ⟨w, hget, hblocks⟩ := Option.map_eq_some_iff.mp hopen.blocks
  have hrequire : r.timing.wavetables.require name = .ok w := by
    rw [Container.require, hget]
  have hupdate : updateLast w.blocks (.misfit line .waveformOutsideBlock) f =
      .ok (front ++ [b']) := by
    rw [updateLast, hblocks, List.getLast?_concat]
    dsimp only
    rw [hf, List.dropLast_concat]
    rfl
  refine ⟨{ r with timing := { r.timing with
    wavetables := r.timing.wavetables.replace { w with blocks := front ++ [b'] } } }, ?_⟩
  rw [inWaveformBlock, inWaveTable, htable]
  dsimp only
  rw [hrequire]
  refine except_bind_eq_ok_iff.mpr ⟨w, rfl, ?_⟩
  rw [hupdate]
  rfl

/-! ### One line -/

/-- A waveform or a break line, behind a mark or without one. -/
theorem blockStep_placeWaveTableRest {rest : String} (hline : line ≠ "STATEMAP")
    (hout : r.place.inStatemap = false) {form : WaveTableLine}
    (hindex : ∀ index edges cycle, form = .waveform index edges cycle → IsHexNumeral index)
    (h : r.placeWaveTableRest rest form = .ok r') : BlockStep r.blockView line r'.blockView := by
  cases form with
  | waveform index edges cycle =>
    obtain ⟨edges', -, h⟩ := except_bind_eq_ok_iff.mp h
    obtain ⟨name, front, b, b', hb, hopen, hview⟩ := blockView_inWaveformBlock h
    obtain ⟨waveforms, hadd, hb⟩ := except_bind_eq_ok_iff.mp hb
    cases hb
    rw [hview]
    exact .waveform hline hout hopen (hindex index edges cycle rfl)
      (except_mapError_eq_ok_iff.mp hadd)
  | brk edges =>
    obtain ⟨edges', -, h⟩ := except_bind_eq_ok_iff.mp h
    obtain ⟨name, front, b, b', hb, hopen, hview⟩ := blockView_inWaveformBlock h
    cases hb
    rw [hview]
    exact .brk hline hout hopen
  | _ => cases h

/-- A line of the wave table section that opens a block or a table. -/
theorem blockStep_of_startsPart (hends : r.place.inStatemap = true → endsStatemap line = true)
    (hform : (∃ pins, WaveTableLine.ofText line = .pins pins) ∨
      ∃ name, WaveTableLine.ofText line = .table name)
    (h : r.closeStatemap.placeWaveTables line (.ofText line) = .ok r') :
    BlockStep r.blockView line r'.blockView := by
  rcases hform with ⟨pins, hform⟩ | ⟨name, hform⟩
  · rw [hform] at h
    obtain ⟨name, w, w', hw, htable, hblocks, hview⟩ := blockView_inWaveTable h fun w w' hw ↦ by
      cases hw
      rfl
    cases hw
    rw [hview]
    exact .block (WaveTableLine.startsPart_of_pins hform) htable hblocks hends
  · rw [hform] at h
    obtain ⟨wavetables, hadd, h⟩ := except_bind_eq_ok_iff.mp h
    cases h
    obtain ⟨hfresh, hblocks⟩ := blocksOf_add (except_mapError_eq_ok_iff.mp hadd)
    change BlockStep r.blockView line ⟨_, some name, false⟩
    rw [hblocks]
    exact .table (WaveTableLine.startsPart_of_table hform) hfresh hends

theorem blockStep_statemap (hline : line = "STATEMAP") (hout : r.place.inStatemap = false)
    (h : r.placeWaveTables line .statemap = .ok r') :
    BlockStep r.blockView line r'.blockView := by
  obtain ⟨opened, hopened, h⟩ := except_bind_eq_ok_iff.mp h
  cases h
  obtain ⟨name, front, b, b', hb, hopen, hview⟩ := blockView_inWaveformBlock hopened
  cases hb
  have hblocks : opened.timing.blocksOf = r.blockView.blocks := by
    refine (congrArg BlockView.blocks hview).trans ?_
    rw [BlockView.setOpen, ← hopen.blocks, Function.update_eq_self]
  have htable : opened.place.wavetable = r.blockView.table := congrArg BlockView.table hview
  change BlockStep r.blockView line ⟨opened.timing.blocksOf, opened.place.wavetable, true⟩
  rw [hblocks, htable]
  exact .statemap hline hout hopen

/-- A line of the wave table section outside state maps. -/
theorem blockStep_outside (hout : r.place.inStatemap = false)
    (h : r.placeWaveTables line (.ofText line) = .ok r') :
    BlockStep r.blockView line r'.blockView := by
  have hends : r.place.inStatemap = true → endsStatemap line = true := by
    rw [hout]
    exact nofun
  have hpart : ((∃ pins, WaveTableLine.ofText line = .pins pins) ∨
      ∃ name, WaveTableLine.ofText line = .table name) →
        r.placeWaveTables line (.ofText line) = .ok r' → BlockStep r.blockView line r'.blockView := by
    have hclosed := fun hform ↦ @blockStep_of_startsPart r r' line hends hform
    rwa [closeStatemap_eq_self hout] at hclosed
  have hline : WaveTableLine.ofText line ≠ .statemap → line ≠ "STATEMAP" :=
    WaveTableLine.ne_statemap_of_ofText
  cases hform : WaveTableLine.ofText line with
  | pins pins => exact hpart (.inl ⟨pins, hform⟩) h
  | table name => exact hpart (.inr ⟨name, hform⟩) h
  | statemap =>
    rw [hform] at h
    exact blockStep_statemap (WaveTableLine.eq_statemap_of_ofText hform) hout h
  | defines ports =>
    rw [hform] at h hline
    have hsame : r'.blockView = r.blockView := blockView_inWaveTable_of_blocks_eq h fun w w' hw ↦ by
      cases hw
      exact ⟨rfl, rfl⟩
    rw [hsame]
    exact .pass (fun hin ↦ absurd (hin.symm.trans hout) nofun) fun _ ↦ hline nofun
  | hrpf rest =>
    rw [hform] at h hline
    obtain ⟨marked, hmarked, h⟩ := except_bind_eq_ok_iff.mp h
    have hsame : marked.blockView = r.blockView :=
      blockView_inWaveTable_of_blocks_eq hmarked fun w w' hw ↦ by
        cases hw
        exact ⟨rfl, rfl⟩
    rw [← hsame]
    have hout' : marked.place.inStatemap = false := (congrArg BlockView.inStatemap hsame).trans hout
    exact blockStep_placeWaveTableRest (hline nofun) hout'
      (fun _ _ _ hrest ↦ (WaveTableLine.found_of_ofRest hrest).isHexNumeral) h
  | waveform index edges cycle =>
    rw [hform] at h hline
    have hrest : r.placeWaveTableRest line (.waveform index edges cycle) = .ok r' := h
    refine blockStep_placeWaveTableRest (hline nofun) hout ?_ hrest
    rintro _ _ _ ⟨⟩
    exact (WaveTableLine.found_of_ofText hform).isHexNumeral
  | brk edges =>
    rw [hform] at h hline
    have hrest : r.placeWaveTableRest line (.brk edges) = .ok r' := h
    refine blockStep_placeWaveTableRest (hline nofun) hout ?_ hrest
    rintro _ _ _ ⟨⟩
  | unplaced =>
    rw [hform] at h
    cases h

/-- A line of the wave table section. In a state map only a line that ends it is placed. -/
theorem blockStep_placeWaveTables (hends : r.place.inStatemap = true → endsStatemap line = true)
    (hmarker : Form.startsWith line "EQSP" = false)
    (h : r.closeStatemap.placeWaveTables line (.ofText line) = .ok r') :
    BlockStep r.blockView line r'.blockView := by
  cases hin : r.place.inStatemap with
  | false =>
    rw [closeStatemap_eq_self hin] at h
    exact blockStep_outside hin h
  | true =>
    rcases ofText_of_endsStatemap (hends hin) hmarker with hpins | htable | hform
    · exact blockStep_of_startsPart hends (.inl hpins) h
    · exact blockStep_of_startsPart hends (.inr htable) h
    · rw [hform] at h
      cases h

/-! ### Other sections -/

theorem blockView_placeEquations {form : TimingEquationsLine}
    (h : r.placeEquations line form = .ok r') : r'.blockView = r.blockView := by
  have hblocks : r'.timing.blocksOf = r.timing.blocksOf := by
    rw [(frame_placeEquations h).2]
    rfl
  have hstatemap := (growsTo_placeEquations h).inStatemap_eq
  have htable : r'.place.wavetable = r.place.wavetable := by
    cases form with
    | eqnset num description =>
      obtain ⟨num, -, h⟩ := except_bind_eq_ok_iff.mp h
      obtain ⟨eqnsets, -, h⟩ := except_bind_eq_ok_iff.mp h
      cases h
      rfl
    | heading =>
      cases h
      rfl
    | timingSet num description =>
      unfold placeEquations at h
      dsimp only at h
      split at h
      · cases h
      · obtain ⟨num, -, h⟩ := except_bind_eq_ok_iff.mp h
        obtain ⟨opened, hopened, h⟩ := except_bind_eq_ok_iff.mp h
        cases h
        have hplace : opened.place = r.place := (frame_inEqnSet hopened).1
        change opened.place.wavetable = r.place.wavetable
        rw [hplace]
    | _ => exact congrArg TimingPlace.wavetable (frame_inEqnSet h).1
  exact BlockView.ext hblocks htable hstatemap

theorem blockView_placeInBlock {b : SpecificationBlock} (h : r.placeInBlock line b = .ok r') :
    r'.blockView = r.blockView := by
  obtain ⟨b', -, rfl | ⟨s, specifications, -, -, rfl⟩⟩ := frame_placeInBlock h
  · rfl
  · rfl

theorem blockView_placeValues {form : TimingValuesLine} (h : r.placeValues line form = .ok r') :
    r'.blockView = r.blockView := by
  cases form with
  | eqnset num =>
    obtain ⟨num, -, h⟩ := except_bind_eq_ok_iff.mp h
    cases h
    rfl
  | specSet num description =>
    unfold placeValues at h
    dsimp only at h
    split at h
    · cases h
    · obtain ⟨num, -, h⟩ := except_bind_eq_ok_iff.mp h
      obtain ⟨specsets, -, h⟩ := except_bind_eq_ok_iff.mp h
      cases h
      rfl
  | value value =>
    obtain ⟨spec, -, h⟩ := except_bind_eq_ok_iff.mp h
    split at h
    · cases h
    · obtain ⟨specs, -, h⟩ := except_bind_eq_ok_iff.mp h
      cases h
      rfl
  | unplaced => cases h
  | _ =>
    cases h
    rfl

/-! ### All lines -/

/-- The heading of a state map fits nothing outside the wave table section. -/
theorem ne_statemap_of_placed
    (h : r.placeEquations line (.ofText line) = .ok r' ∨
      (∃ b, r.placeInBlock line b = .ok r') ∨ r.placeValues line (.ofText line) = .ok r') :
    line ≠ "STATEMAP" := by
  rintro rfl
  have hequations : TimingEquationsLine.ofText "STATEMAP" = .unplaced := by decide +kernel
  have hblock : SpecificationLine.ofText "STATEMAP" = .unplaced := by rfl
  have hvalues : TimingValuesLine.ofText "STATEMAP" = .unplaced := by rfl
  rcases h with h | ⟨b, h⟩ | h
  · rw [hequations] at h
    obtain ⟨-, _, _, _, -, -, he, -⟩ := of_inEqnSet h fun e e' he ↦ nomatch he
    cases he
  · obtain ⟨b', hplace, -⟩ := frame_placeInBlock h
    rw [hblock] at hplace
    obtain ⟨_, -, hplace⟩ := except_bind_eq_ok_iff.mp hplace
    cases hplace
  · rw [hvalues] at h
    cases h

/-- A line that is read is a step of the waveform blocks. -/
theorem blockStep_read {line : Line} (hr : r.Consistent) (h : r.read line = .ok r') :
    BlockStep r.blockView line.text r'.blockView := by
  rcases read_cases_of_ends h with ⟨hnoop, rfl⟩ | ⟨hkept, hin, hends, h⟩ | ⟨-, hends, h⟩
  · refine .pass (fun _ ↦ hnoop) fun _ heq ↦ ?_
    rw [heq] at hnoop
    exact absurd hnoop (by decide)
  · obtain ⟨name, front, b, b', hb, hopen, hview⟩ := blockView_inWaveformBlock h
    cases hb
    rw [hview]
    exact .stored hin hkept hends hopen
  · -- outside the wave table section no state map is open
    have hoff : r.place.part ≠ .wavetables → r.place.inStatemap = false := by
      intro hpart
      rw [← Bool.not_eq_true]
      exact fun hin ↦ hpart (hr.statemap hin)
    have hsame : r.place.part ≠ .wavetables → r'.blockView = r.closeStatemap.blockView →
        line.text ≠ "STATEMAP" → BlockStep r.blockView line.text r'.blockView := by
      intro hpart hview hline
      rw [hview, closeStatemap_eq_self (hoff hpart)]
      exact .pass (fun hin ↦ absurd (hin.symm.trans (hoff hpart)) nofun) fun _ ↦ hline
    rcases placeLine_cases h with ⟨-, h⟩ | ⟨-, hskipped, rfl⟩ |
      ⟨hmarker, -, ⟨-, h⟩ | ⟨hpart, h⟩ | ⟨hpart, b, -, h⟩ | ⟨hpart, -, h⟩⟩
    · obtain ⟨-, htiming, name, part, hsection, hplace, -⟩ := of_openSection h
      have hview : r'.blockView = ⟨r.blockView.blocks, none, false⟩ := by
        rw [blockView, htiming, hplace]
        rfl
      rw [hview]
      exact .marker (WaveTableLine.startsPart_of_section? hsection) hends
    · have hout : r.place.inStatemap = false := by
        rw [← Bool.not_eq_true]
        intro hin
        rw [isSkipped_of_endsStatemap (hends hin)] at hskipped
        cases hskipped
      rw [closeStatemap_eq_self hout]
      refine .pass (fun hin ↦ absurd (hin.symm.trans hout) nofun) fun _ heq ↦ ?_
      rw [heq] at hskipped
      exact absurd hskipped (by decide)
    · exact blockStep_placeWaveTables hends hmarker h
    · have hother : r.place.part ≠ .wavetables := fun heq ↦ nomatch heq.symm.trans hpart
      exact hsame hother (blockView_placeEquations h) (ne_statemap_of_placed (.inl h))
    · have hother : r.place.part ≠ .wavetables := fun heq ↦ nomatch heq.symm.trans hpart
      exact hsame hother (blockView_placeInBlock h) (ne_statemap_of_placed (.inr (.inl ⟨b, h⟩)))
    · have hother : r.place.part ≠ .wavetables := fun heq ↦ nomatch heq.symm.trans hpart
      exact hsame hother (blockView_placeValues h) (ne_statemap_of_placed (.inr (.inr h)))

end TimingReader

end TesterSetup
