import TesterSetup.Proofs.LastOpenings
import TesterSetup.Proofs.WaveformBlocks

/-!
# State maps

The line `STATEMAP` opens a state map in the waveform block that is open, and the lines behind it
are stored there as they stand. The state map goes up to the first line that starts with `PINS`,
`WAVETBL` or `EQSP` and a space (`StateMap.stretch`); the lines of it that start with `NOOP` are
left out (`StateMap.stored`). A line that opens a block, a table or a section with another blank
behind its keyword does not end the state map but is stored in it.

From the heading of its state map on a block is open (`InStateMap`), then it is left for good
(`Settled`). What a line does to the one and to the other is said by `InStateMap.step` and
`Settled.step`, what a run leaves by `storedMap_of_run`. Stored lines come from nowhere else
(`StoredAmong.step`). `Timing.statemaps_of_parse` puts this together for the text of a file.
-/

set_option autoImplicit false

namespace TesterSetup

open TesterSetup.Text

/-! ### Places of blocks -/

/-- The place of a waveform block: its wave table and the number of blocks in front of it there. -/
@[ext]
structure BlockPlace where
  table : String
  number : Nat
  deriving DecidableEq

/-- The block at a place. -/
def BlockPlace.find? (p : BlockPlace) (blocks : String → Option (List WaveformBlock)) :
    Option WaveformBlock :=
  (blocks p.table).bind (·[p.number]?)

/-- The waveform block at a place of a timing setup. -/
def Timing.blockAt? (t : Timing) (p : BlockPlace) : Option WaveformBlock :=
  p.find? t.blocksOf

/-- The place of the block that is open. -/
def BlockView.openPlace? (v : BlockView) : Option BlockPlace :=
  v.table.bind fun table ↦ (v.blocks table).bind fun blocks ↦
    match blocks.length with
    | 0 => none
    | number + 1 => some ⟨table, number⟩

/-- The block in which a line opens a state map. -/
def TimingReader.opensStatemap (r : TimingReader) (line : Line) : Option BlockPlace :=
  if r.place.inStatemap = false ∧ line.text = "STATEMAP" then r.blockView.openPlace? else none

namespace BlockView

variable {v v' : BlockView} {line name : String} {front blocks : List WaveformBlock}
  {b b' : WaveformBlock} {p : BlockPlace}

theorem openPlace?_eq_some_iff :
    v.openPlace? = some p ↔ ∃ front b, v.Open p.table front b ∧ p.number = front.length := by
  constructor
  · intro h
    obtain ⟨table, htable, h⟩ := Option.bind_eq_some_iff.mp h
    obtain ⟨blocks, hblocks, h⟩ := Option.bind_eq_some_iff.mp h
    rcases blocks.eq_nil_or_concat with rfl | ⟨front, b, rfl⟩
    · cases h
    · rw [List.concat_eq_append] at hblocks h
      rw [List.length_append, List.length_singleton] at h
      cases h
      exact ⟨front, b, ⟨htable, hblocks⟩, rfl⟩
  · rintro ⟨front, b, ⟨htable, hblocks⟩, hnumber⟩
    rw [openPlace?, htable, Option.bind_some, hblocks, Option.bind_some, List.length_append,
      List.length_singleton, ← hnumber]

theorem Open.openPlace?_eq (h : v.Open name front b) : v.openPlace? = some ⟨name, front.length⟩ :=
  openPlace?_eq_some_iff.mpr ⟨front, b, h, rfl⟩

/-- A block that is put behind others is at its place, and the others stay at theirs. -/
theorem find?_update_concat (blocks : String → Option (List WaveformBlock)) (name : String)
    (front : List WaveformBlock) (b : WaveformBlock) (p : BlockPlace) :
    p.find? (Function.update blocks name (some (front ++ [b]))) =
      if p = ⟨name, front.length⟩ then some b
      else if p.table = name then front[p.number]? else p.find? blocks := by
  rw [BlockPlace.find?, Function.update_apply]
  by_cases htable : p.table = name
  · rw [if_pos htable, if_pos htable, Option.bind_some, List.getElem?_append]
    by_cases hnumber : p.number = front.length
    · rw [if_pos (BlockPlace.ext htable hnumber), hnumber, if_neg (Nat.lt_irrefl _), Nat.sub_self]
      rfl
    · rw [if_neg fun heq ↦ hnumber (congrArg BlockPlace.number heq)]
      split
      · rfl
      · rename_i hlength
        rw [List.getElem?_eq_none (Nat.le_of_not_lt hlength), List.getElem?_eq_none]
        rw [List.length_singleton]
        omega
  · rw [if_neg htable, if_neg fun heq ↦ htable (congrArg BlockPlace.table heq), if_neg htable]
    rfl

theorem find?_setOpen (h : v.Open name front b) (b' : WaveformBlock) (p : BlockPlace) :
    p.find? (v.setOpen name front b').blocks =
      if p = ⟨name, front.length⟩ then some b' else p.find? v.blocks := by
  have hold := find?_update_concat v.blocks name front b p
  rw [← h.blocks, Function.update_eq_self] at hold
  rw [setOpen, find?_update_concat]
  split
  · rfl
  · rename_i hp
    rw [if_neg hp] at hold
    exact hold.symm

theorem find?_concat (h : v.blocks name = some blocks) (b : WaveformBlock) (p : BlockPlace) :
    p.find? (Function.update v.blocks name (some (blocks ++ [b]))) =
      if p = ⟨name, blocks.length⟩ then some b else p.find? v.blocks := by
  rw [find?_update_concat]
  split
  · rfl
  · split
    · rename_i htable
      rw [BlockPlace.find?, htable, h]
      rfl
    · rfl

theorem Open.find?_eq (h : v.Open name front b) :
    BlockPlace.find? ⟨name, front.length⟩ v.blocks = some b := by
  rw [BlockPlace.find?, h.blocks]
  exact List.getElem?_concat_length

theorem openPlace?_setOpen (h : v.Open name front b) (b' : WaveformBlock) :
    (v.setOpen name front b').openPlace? = v.openPlace? := by
  have hopen : (v.setOpen name front b').Open name front b' :=
    ⟨h.table, Function.update_self ..⟩
  rw [hopen.openPlace?_eq, h.openPlace?_eq]

/-- A new block is open. -/
theorem open_concat (htable : v.table = some name) (blocks : List WaveformBlock)
    (b : WaveformBlock) :
    Open ⟨Function.update v.blocks name (some (blocks ++ [b])), v.table, false⟩ name blocks b :=
  ⟨htable, Function.update_self ..⟩

/-- A new wave table has no blocks. -/
theorem find?_table (blocks : String → Option (List WaveformBlock)) (name : String)
    (p : BlockPlace) :
    p.find? (Function.update blocks name (some [])) =
      if p.table = name then none else p.find? blocks := by
  rw [BlockPlace.find?, Function.update_apply]
  split
  · rfl
  · rfl

/-- A new wave table has no block that is open. -/
theorem openPlace?_table (blocks : String → Option (List WaveformBlock)) (name : String)
    (inStatemap : Bool) :
    openPlace? ⟨Function.update blocks name (some []), some name, inStatemap⟩ = none := by
  have hnew : Function.update blocks name (some []) name = some [] := Function.update_self ..
  change (Function.update blocks name (some []) name).bind _ = none
  rw [hnew, Option.bind_some]
  rfl

end BlockView

/-- The heading of a state map opens it and does nothing else. -/
theorem BlockStep.eq_of_heading {v v' : BlockView} {line : String} (h : BlockStep v line v')
    (hout : v.inStatemap = false) (hline : line = "STATEMAP") :
    v' = { v with inStatemap := true } := by
  subst hline
  have hpart : WaveTableLine.startsPart "STATEMAP" = false := rfl
  cases h with
  | pass _ hother => exact absurd rfl (hother hout)
  | statemap => rfl
  | stored hin => exact absurd (hin.symm.trans hout) nofun
  | waveform hother => exact absurd rfl hother
  | brk hother => exact absurd rfl hother
  | block hparts => exact absurd (hparts.symm.trans hpart) nofun
  | table hparts => exact absurd (hparts.symm.trans hpart) nofun
  | marker hparts => exact absurd (hparts.symm.trans hpart) nofun

/-! ### A block that is not open -/

section Steps

variable {v v' : BlockView} {line : String} {p : BlockPlace} {b : WaveformBlock}

/-- A block stands at a place and is not open. -/
structure Settled (v : BlockView) (p : BlockPlace) (b : WaveformBlock) : Prop where
  found : p.find? v.blocks = some b
  closed : v.openPlace? ≠ some p

theorem Settled.setOpen {name : String} {front : List WaveformBlock} {c c' : WaveformBlock}
    (h : Settled v p b) (hopen : v.Open name front c) : Settled (v.setOpen name front c') p b := by
  have hne : p ≠ ⟨name, front.length⟩ := by
    rintro rfl
    exact h.closed hopen.openPlace?_eq
  constructor
  · rw [BlockView.find?_setOpen hopen, if_neg hne]
    exact h.found
  · rw [BlockView.openPlace?_setOpen hopen]
    exact h.closed

/-- A new block leaves the others behind. -/
theorem settled_block {name : String} {blocks : List WaveformBlock} {c : WaveformBlock}
    (htable : v.table = some name) (hblocks : v.blocks name = some blocks)
    (hfound : p.find? v.blocks = some b) :
    Settled ⟨Function.update v.blocks name (some (blocks ++ [c])), v.table, false⟩ p b := by
  have hne : p ≠ ⟨name, blocks.length⟩ := by
    rintro rfl
    rw [BlockPlace.find?, hblocks, Option.bind_some, List.getElem?_eq_none (Nat.le_refl _)]
      at hfound
    cases hfound
  constructor
  · rw [BlockView.find?_concat hblocks, if_neg hne]
    exact hfound
  · rw [(BlockView.open_concat htable blocks c).openPlace?_eq]
    exact fun heq ↦ hne (Option.some.inj heq).symm

/-- A new wave table leaves the blocks of the others behind. -/
theorem settled_table {name : String} (hfresh : v.blocks name = none)
    (hfound : p.find? v.blocks = some b) :
    Settled ⟨Function.update v.blocks name (some []), some name, false⟩ p b := by
  have hne : p.table ≠ name := by
    rintro rfl
    rw [BlockPlace.find?, hfresh] at hfound
    cases hfound
  constructor
  · rw [BlockView.find?_table, if_neg hne]
    exact hfound
  · rw [BlockView.openPlace?_table]
    exact nofun

/-- A block that is not open is never changed and never becomes open. -/
theorem Settled.step (hstep : BlockStep v line v') (h : Settled v p b) : Settled v' p b := by
  cases hstep with
  | pass => exact h
  | statemap => exact ⟨h.found, h.closed⟩
  | stored _ _ _ hopen => exact h.setOpen hopen
  | waveform _ _ hopen => exact h.setOpen hopen
  | brk _ _ hopen => exact h.setOpen hopen
  | block _ htable hblocks => exact settled_block htable hblocks h.found
  | table _ hfresh => exact settled_table hfresh h.found
  | marker => exact ⟨h.found, nofun⟩

/-! ### A block with an open state map -/

/-- A block stands at a place, is open, and has an open state map. -/
structure InStateMap (v : BlockView) (p : BlockPlace) (b : WaveformBlock) : Prop where
  inStatemap : v.inStatemap = true
  openPlace : v.openPlace? = some p
  found : p.find? v.blocks = some b

theorem InStateMap.stored {name : String} {front : List WaveformBlock} {c : WaveformBlock}
    (h : InStateMap v p b) (hopen : v.Open name front c) :
    InStateMap (v.setOpen name front { c with statemap := c.statemap ++ [line] }) p
      { b with statemap := b.statemap ++ [line] } := by
  have hplace := h.openPlace
  rw [hopen.openPlace?_eq] at hplace
  cases hplace
  have hself := hopen.find?_eq
  rw [h.found] at hself
  cases hself
  refine ⟨h.inStatemap, ?_, ?_⟩
  · rw [BlockView.openPlace?_setOpen hopen]
    exact hopen.openPlace?_eq
  · rw [BlockView.find?_setOpen hopen, if_pos rfl]

/-- What a line can be in a state map: passed over, stored, or one that ends it. -/
theorem InStateMap.step (hstep : BlockStep v line v') (h : InStateMap v p b) :
    (Form.startsWith line "NOOP" = true ∧ v' = v) ∨
    (Form.startsWith line "NOOP" = false ∧ TimingReader.endsStatemap line = false ∧
      InStateMap v' p { b with statemap := b.statemap ++ [line] }) ∨
    (TimingReader.endsStatemap line = true ∧ WaveTableLine.startsPart line = true ∧
      Settled v' p b) := by
  have hin := h.inStatemap
  cases hstep with
  | pass hnoop => exact .inl ⟨hnoop hin, rfl⟩
  | statemap _ hout => exact absurd (hin.symm.trans hout) nofun
  | stored _ hkept hends hopen => exact .inr (.inl ⟨hkept, hends, h.stored hopen⟩)
  | waveform _ hout => exact absurd (hin.symm.trans hout) nofun
  | brk _ hout => exact absurd (hin.symm.trans hout) nofun
  | block hpart htable hblocks hends =>
    exact .inr (.inr ⟨hends hin, hpart, settled_block htable hblocks h.found⟩)
  | table hpart hfresh hends =>
    exact .inr (.inr ⟨hends hin, hpart, settled_table hfresh h.found⟩)
  | marker hpart hends => exact .inr (.inr ⟨hends hin, hpart, h.found, nofun⟩)

end Steps

/-! ### The lines of a state map -/

namespace StateMap

/-- The lines behind the heading of a state map that belong to it. -/
def stretch (after : List Line) : List Line :=
  after.takeWhile fun line ↦ !TimingReader.endsStatemap line.text

/-- The lines that are stored of them, as they stand. -/
def stored (after : List Line) : List String :=
  ((stretch after).filter fun line ↦ !Form.startsWith line.text "NOOP").map Line.text

/-- All lines up to the next block, wave table or section. -/
def upToPart (after : List Line) : List String :=
  (after.takeWhile fun line ↦ !WaveTableLine.startsPart line.text).map Line.text

variable {line : Line} {after : List Line}

theorem stored_cons_of_noop (hends : TimingReader.endsStatemap line.text = false)
    (hnoop : Form.startsWith line.text "NOOP" = true) :
    stored (line :: after) = stored after := by
  rw [stored, stretch, List.takeWhile_cons_of_pos (by rw [hends]; rfl),
    List.filter_cons_of_neg (by rw [hnoop]; exact nofun)]
  rfl

theorem stored_cons_of_kept (hends : TimingReader.endsStatemap line.text = false)
    (hkept : Form.startsWith line.text "NOOP" = false) :
    stored (line :: after) = line.text :: stored after := by
  rw [stored, stretch, List.takeWhile_cons_of_pos (by rw [hends]; rfl),
    List.filter_cons_of_pos (by rw [hkept]; rfl)]
  rfl

theorem stored_cons_of_ends (hends : TimingReader.endsStatemap line.text = true) :
    stored (line :: after) = [] := by
  rw [stored, stretch, List.takeWhile_cons_of_neg (by rw [hends]; exact nofun)]
  rfl

/-- A line that starts with `NOOP` starts no part and ends no state map. -/
theorem startsPart_of_noop {text : String} (h : Form.startsWith text "NOOP" = true) :
    WaveTableLine.startsPart text = false := by
  rw [← Bool.not_eq_true]
  intro hpart
  obtain ⟨keyword, hmem, c, rest, -, htext⟩ := WaveTableLine.exists_keyword_of_startsPart hpart
  rw [Form.startsWith, htext] at h
  simp only [WaveTableLine.partKeywords, List.mem_cons, List.not_mem_nil, or_false] at hmem
  rcases hmem with rfl | rfl | rfl <;> cases h

theorem endsStatemap_of_noop {text : String} (h : Form.startsWith text "NOOP" = true) :
    TimingReader.endsStatemap text = false := by
  rw [← Bool.not_eq_true]
  intro hends
  obtain ⟨rest, htext⟩ := TimingReader.front_of_endsStatemap hends
  rw [Form.startsWith] at h
  rcases htext with htext | htext | htext <;> rw [htext] at h <;> cases h

theorem endsStatemap_of_mem_stored {text : String} (h : text ∈ stored after) :
    TimingReader.endsStatemap text = false := by
  obtain ⟨line, hline, rfl⟩ := List.mem_map.mp h
  have hstretch := List.mem_takeWhile_imp (List.mem_filter.mp hline).1
  exact (Bool.not_eq_true' _).mp hstretch

/-- The line behind a state map, if there is one, starts a part. -/
def EndsAtPart (after : List Line) : Prop :=
  ∀ line ∈ (after.dropWhile fun l ↦ !TimingReader.endsStatemap l.text).head?,
    WaveTableLine.startsPart line.text = true

theorem upToPart_eq (hend : EndsAtPart after)
    (hparts : ∀ line ∈ stretch after, WaveTableLine.startsPart line.text = false) :
    upToPart after = (stretch after).map Line.text := by
  have hafter : stretch after ++ after.dropWhile (fun l ↦ !TimingReader.endsStatemap l.text) =
      after := List.takeWhile_append_dropWhile
  have hrest : (after.dropWhile fun l ↦ !TimingReader.endsStatemap l.text).takeWhile
      (fun line ↦ !WaveTableLine.startsPart line.text) = [] := by
    unfold EndsAtPart at hend
    cases hcases : after.dropWhile fun l ↦ !TimingReader.endsStatemap l.text with
    | nil => rfl
    | cons line rest =>
      rw [hcases] at hend
      exact List.takeWhile_cons_of_neg (by rw [hend line rfl]; exact nofun)
  rw [upToPart, ← hafter,
    List.takeWhile_append_of_pos fun line hline ↦ by rw [hparts line hline]; rfl,
    hrest, List.append_nil, hafter]

/-- What is stored are the lines up to the next part exactly when none of them starts with `NOOP`
and no line of the state map starts a part. -/
theorem stored_eq_upToPart_iff (hend : EndsAtPart after) :
    stored after = upToPart after ↔ ∀ line ∈ stretch after,
      Form.startsWith line.text "NOOP" = false ∧ WaveTableLine.startsPart line.text = false := by
  constructor
  · intro heq
    -- a line that starts a part is stored and does not stand in front of the next part
    have hparts : ∀ line ∈ stretch after, WaveTableLine.startsPart line.text = false := by
      intro line hline
      rw [← Bool.not_eq_true]
      intro hpart
      have hkept : Form.startsWith line.text "NOOP" = false := by
        rw [← Bool.not_eq_true]
        intro hnoop
        rw [startsPart_of_noop hnoop] at hpart
        cases hpart
      have hstored : line.text ∈ stored after :=
        List.mem_map_of_mem (List.mem_filter.mpr ⟨hline, by rw [hkept]; rfl⟩)
      rw [heq] at hstored
      obtain ⟨other, hother, htext⟩ := List.mem_map.mp hstored
      have hnone := List.mem_takeWhile_imp hother
      rw [htext, hpart] at hnone
      cases hnone
    have hstretch : upToPart after = (stretch after).map Line.text := upToPart_eq hend hparts
    have hlength : ((stretch after).filter fun line ↦ !Form.startsWith line.text "NOOP").length =
        (stretch after).length := by
      have hsame := congrArg List.length (heq.trans hstretch)
      rwa [stored, List.length_map, List.length_map] at hsame
    intro line hline
    have hkept := List.length_filter_eq_length_iff.mp hlength line hline
    exact ⟨(Bool.not_eq_true' _).mp hkept, hparts line hline⟩
  · intro hall
    have hfilter : (stretch after).filter (fun line ↦ !Form.startsWith line.text "NOOP") =
        stretch after :=
      List.filter_eq_self.mpr fun line hline ↦ by rw [(hall line hline).1]; rfl
    rw [stored, hfilter, upToPart_eq hend fun line hline ↦ (hall line hline).2]

end StateMap

/-! ### Runs -/

section Runs

variable {origin : String} {r r' : TimingReader} {p : BlockPlace} {b : WaveformBlock}
  {lines after : List Line}

theorem Settled.run (hr : r.Consistent) (h : Settled r.blockView p b)
    (hrun : readLines origin TimingReader.read r lines = .ok r') : Settled r'.blockView p b := by
  have hboth : r'.Consistent ∧ Settled r'.blockView p b :=
    readLines_induction (P := fun s ↦ s.Consistent ∧ Settled s.blockView p b) hrun ⟨hr, h⟩
      fun s t line _ hs hline ↦
        ⟨TimingReader.consistent_read hline hs.1,
          hs.2.step (TimingReader.blockStep_read hs.1 hline)⟩
  exact hboth.2

/-- A state map that is open takes in the lines of its stretch. -/
theorem storedMap_of_run (hr : r.Consistent) (hmap : InStateMap r.blockView p b)
    (hrun : readLines origin TimingReader.read r after = .ok r') :
    r'.timing.blockAt? p = some { b with statemap := b.statemap ++ StateMap.stored after } ∧
      StateMap.EndsAtPart after := by
  induction after generalizing r b with
  | nil =>
    cases hrun
    have hnil : b.statemap ++ StateMap.stored [] = b.statemap := List.append_nil _
    rw [hnil]
    exact ⟨hmap.found, nofun⟩
  | cons line after ih =>
    obtain ⟨m, hline, hrun⟩ := readLines_cons_eq_ok_iff.mp hrun
    have hm := TimingReader.consistent_read hline hr
    rcases hmap.step (TimingReader.blockStep_read hr hline) with
      ⟨hnoop, hsame⟩ | ⟨hkept, hends, hmap⟩ | ⟨hends, hpart, hsettled⟩
    · have hends := StateMap.endsStatemap_of_noop hnoop
      obtain ⟨hfound, hend⟩ := ih hm (hsame ▸ hmap) hrun
      rw [StateMap.stored_cons_of_noop hends hnoop, StateMap.EndsAtPart,
        List.dropWhile_cons_of_pos (by rw [hends]; rfl)]
      exact ⟨hfound, hend⟩
    · obtain ⟨hfound, hend⟩ := ih hm hmap hrun
      rw [StateMap.stored_cons_of_kept hends hkept, StateMap.EndsAtPart,
        List.dropWhile_cons_of_pos (by rw [hends]; rfl), hfound, List.append_assoc]
      exact ⟨rfl, hend⟩
    · rw [StateMap.stored_cons_of_ends hends, List.append_nil, StateMap.EndsAtPart,
        List.dropWhile_cons_of_neg (by rw [hends]; exact nofun)]
      refine ⟨(hsettled.run hm hrun).found, ?_⟩
      rintro _ ⟨⟩
      exact hpart

end Runs

/-! ### Where stored lines come from -/

section Origins

variable {v v' : BlockView} {line : String} {O O' : BlockPlace → Prop}

/-- The stored lines of the block at a place. -/
def BlockView.statemapAt? (v : BlockView) (p : BlockPlace) : Option (List String) :=
  (p.find? v.blocks).map WaveformBlock.statemap

theorem BlockView.statemapAt?_setOpen {name : String} {front : List WaveformBlock}
    {b b' : WaveformBlock} (hopen : v.Open name front b) (hsame : b'.statemap = b.statemap)
    (p : BlockPlace) : (v.setOpen name front b').statemapAt? p = v.statemapAt? p := by
  rw [statemapAt?, find?_setOpen hopen]
  split
  · rename_i hp
    rw [statemapAt?, hp, hopen.find?_eq]
    exact congrArg some hsame
  · rfl

/-- Outside a state map the block that is open has no stored lines yet. -/
def IsFresh (v : BlockView) : Prop :=
  v.inStatemap = false → ∀ p, v.openPlace? = some p → v.statemapAt? p = some []

theorem IsFresh.setOpen {name : String} {front : List WaveformBlock} {b b' : WaveformBlock}
    (h : IsFresh v) (hopen : v.Open name front b) (hsame : b'.statemap = b.statemap) :
    IsFresh (v.setOpen name front b') := by
  intro hout p hp
  rw [BlockView.openPlace?_setOpen hopen] at hp
  rw [BlockView.statemapAt?_setOpen hopen hsame]
  exact h hout p hp

theorem IsFresh.step (hstep : BlockStep v line v') (h : IsFresh v) : IsFresh v' := by
  cases hstep with
  | pass => exact h
  | statemap => exact nofun
  | stored hin =>
    intro hout
    exact absurd (hin.symm.trans hout) nofun
  | waveform _ _ hopen => exact h.setOpen hopen rfl
  | brk _ _ hopen => exact h.setOpen hopen rfl
  | block _ htable hblocks =>
    rintro - p hp
    rw [(BlockView.open_concat htable _ _).openPlace?_eq] at hp
    cases hp
    rw [BlockView.statemapAt?, BlockView.find?_concat hblocks, if_pos rfl]
    rfl
  | table =>
    rintro - p hp
    rw [BlockView.openPlace?_table] at hp
    cases hp
  | marker => exact fun _ _ hopen ↦ nomatch hopen

/-- Blocks with stored lines, and the one whose state map is open, are among some places. -/
structure StoredAmong (v : BlockView) (O : BlockPlace → Prop) : Prop where
  stored : ∀ p lines, v.statemapAt? p = some lines → lines ≠ [] → O p
  inStatemap : v.inStatemap = true → ∀ p, v.openPlace? = some p → O p

theorem StoredAmong.mono (h : StoredAmong v O) (hmono : ∀ p, O p → O' p) : StoredAmong v O' :=
  ⟨fun p lines hp hne ↦ hmono p (h.stored p lines hp hne),
    fun hin p hp ↦ hmono p (h.inStatemap hin p hp)⟩

theorem StoredAmong.setOpen {name : String} {front : List WaveformBlock} {b b' : WaveformBlock}
    (h : StoredAmong v O) (hopen : v.Open name front b) (hsame : b'.statemap = b.statemap) :
    StoredAmong (v.setOpen name front b') O := by
  constructor
  · intro p lines hp
    rw [BlockView.statemapAt?_setOpen hopen hsame] at hp
    exact h.stored p lines hp
  · intro hin p hp
    rw [BlockView.openPlace?_setOpen hopen] at hp
    exact h.inStatemap hin p hp

/-- Stored lines come to the block whose state map is open only. -/
theorem StoredAmong.step (hstep : BlockStep v line v') (h : StoredAmong v O)
    (hnew : v.inStatemap = false → line = "STATEMAP" → ∀ p, v.openPlace? = some p → O p) :
    StoredAmong v' O := by
  cases hstep with
  | pass => exact h
  | statemap hline hout => exact ⟨h.stored, fun _ ↦ hnew hout hline⟩
  | @stored name front c hin _ _ hopen =>
    have hO : O ⟨name, front.length⟩ := h.inStatemap hin _ hopen.openPlace?_eq
    constructor
    · intro p lines hp hne
      rw [BlockView.statemapAt?, BlockView.find?_setOpen hopen] at hp
      split at hp
      · rename_i heq
        exact heq ▸ hO
      · exact h.stored p lines hp hne
    · intro _ p hp
      rw [BlockView.openPlace?_setOpen hopen, hopen.openPlace?_eq] at hp
      exact Option.some.inj hp ▸ hO
  | waveform _ _ hopen => exact h.setOpen hopen rfl
  | brk _ _ hopen => exact h.setOpen hopen rfl
  | block _ htable hblocks =>
    refine ⟨fun p lines hp hne ↦ ?_, nofun⟩
    rw [BlockView.statemapAt?, BlockView.find?_concat hblocks] at hp
    split at hp
    · exact absurd (Option.some.inj hp).symm hne
    · exact h.stored p lines hp hne
  | table =>
    refine ⟨fun p lines hp hne ↦ ?_, nofun⟩
    rw [BlockView.statemapAt?, BlockView.find?_table] at hp
    split at hp
    · cases hp
    · exact h.stored p lines hp hne
  | marker => exact ⟨h.stored, nofun⟩

end Origins

/-! ### Texts -/

/-- A line opens a state map in a block, between some lines and others. -/
structure HeadsStatemap (origin : String) (lines before : List Line) (heading : Line)
    (after : List Line) (p : BlockPlace) : Prop where
  lines_eq : lines = before ++ heading :: after
  opensAt : OpensAt (readLines origin TimingReader.read .start) TimingReader.opensStatemap before
    heading p

namespace TimingReader

variable {origin line : String} {r : TimingReader} {lines before after : List Line}
  {heading : Line} {p : BlockPlace}

theorem of_opensStatemap (h : r.opensStatemap heading = some p) :
    r.place.inStatemap = false ∧ heading.text = "STATEMAP" ∧ r.blockView.openPlace? = some p := by
  unfold opensStatemap at h
  split at h
  · rename_i hheading
    exact ⟨hheading.1, hheading.2, h⟩
  · cases h

theorem isFresh_of_run (hrun : readLines origin read .start lines = .ok r) :
    IsFresh r.blockView := by
  have hboth : r.Consistent ∧ IsFresh r.blockView :=
    readLines_induction (P := fun s ↦ s.Consistent ∧ IsFresh s.blockView) hrun
      ⟨⟨nofun, nofun⟩, fun _ _ h ↦ nomatch h⟩ fun s t line _ hs hline ↦
        ⟨consistent_read hline hs.1, hs.2.step (blockStep_read hs.1 hline)⟩
  exact hboth.2

/-- The heading of a state map opens one in a block that has none. -/
theorem inStateMap_of_heading {r' : TimingReader} (hr : r.Consistent) (hfresh : IsFresh r.blockView)
    (hopens : r.opensStatemap heading = some p) (hread : r.read heading = .ok r') :
    ∃ b, b.statemap = [] ∧ InStateMap r'.blockView p b := by
  obtain ⟨hout, hline, hplace⟩ := of_opensStatemap hopens
  have hview : r'.blockView = { r.blockView with inStatemap := true } :=
    (blockStep_read hr hread).eq_of_heading hout hline
  obtain ⟨b, hfound, hnone⟩ := Option.map_eq_some_iff.mp (hfresh hout p hplace)
  refine ⟨b, hnone, ?_⟩
  rw [hview]
  exact ⟨rfl, hplace, hfound⟩

/-- What the heading of a state map leaves in its block. -/
theorem stored_of_headsStatemap (hrun : readLines origin read .start lines = .ok r)
    (h : HeadsStatemap origin lines before heading after p) :
    ∃ b, r.timing.blockAt? p = some b ∧ b.statemap = StateMap.stored after ∧
      StateMap.EndsAtPart after := by
  obtain ⟨rfl, m, hm, hopens⟩ := h
  obtain ⟨m', hm', hrun⟩ := readLines_append_eq_ok_iff.mp hrun
  rw [hm] at hm'
  cases hm'
  obtain ⟨next, hread, hrun⟩ := readLines_cons_eq_ok_iff.mp hrun
  have hconsistent := consistent_readLines hm
  obtain ⟨b, hnone, hmap⟩ :=
    inStateMap_of_heading hconsistent (isFresh_of_run hm) hopens hread
  obtain ⟨hfound, hend⟩ := storedMap_of_run (consistent_read hread hconsistent) hmap hrun
  refine ⟨_, hfound, ?_, hend⟩
  rw [hnone]
  rfl

/-- A block with stored lines was open at the heading of a state map. -/
theorem exists_headsStatemap (hrun : readLines origin read .start lines = .ok r)
    {b : WaveformBlock} (hfound : r.timing.blockAt? p = some b) (hne : b.statemap ≠ []) :
    ∃ before heading after, HeadsStatemap origin lines before heading after p := by
  have hall : readLines origin read .start ([] ++ lines) = .ok r ∧ StoredAmong r.blockView fun p ↦
      ∃ before heading after, HeadsStatemap origin ([] ++ lines) before heading after p := by
    refine readLines_induction_front (P := fun front s ↦
      readLines origin read .start front = .ok s ∧ StoredAmong s.blockView fun p ↦
        ∃ before heading after, HeadsStatemap origin front before heading after p) hrun ?_ ?_
    · exact ⟨rfl, nofun, nofun⟩
    · rintro front s t line - ⟨hs, hamong⟩ hread
      have ht : readLines origin read .start (front ++ [line]) = .ok t :=
        readLines_append_eq_ok_iff.mpr ⟨s, hs, readLines_cons_eq_ok_iff.mpr ⟨t, hread, rfl⟩⟩
      refine ⟨ht, StoredAmong.step (blockStep_read (consistent_readLines hs) hread)
        (hamong.mono ?_) ?_⟩
      · rintro p ⟨before, heading, after, rfl, hopens⟩
        exact ⟨before, heading, after ++ [line], by simp, hopens⟩
      · intro hout hline p hp
        exact ⟨front, line, [], rfl, s, hs, (if_pos ⟨hout, hline⟩).trans hp⟩
  have hstored : r.blockView.statemapAt? p = some b.statemap := by
    change (r.timing.blockAt? p).map _ = _
    rw [hfound]
    rfl
  exact hall.2.stored p b.statemap hstored hne

end TimingReader

/-- In an accepted timing text, the block in which a state map is opened holds the lines that are
stored of it, as they stand and in order. They are all the lines up to the next block, wave table or
section exactly when no line of the state map starts with `NOOP` or starts a part. All stored lines
come from state maps, and those that start a part have another blank than a space behind their
keyword. -/
theorem Timing.statemaps_of_parse (text origin : String) (timing : Timing) (header : Line)
    (lines : List Line) (hparse : parse text origin = .ok timing)
    (hlines : significantLines text = header :: lines) :
    (∀ before heading after p, HeadsStatemap origin lines before heading after p →
      ∃ b, timing.blockAt? p = some b ∧ b.statemap = StateMap.stored after ∧
        (b.statemap = StateMap.upToPart after ↔ ∀ line ∈ StateMap.stretch after,
          Form.startsWith line.text "NOOP" = false ∧
            WaveTableLine.startsPart line.text = false)) ∧
    ∀ p b, timing.blockAt? p = some b →
      (b.statemap ≠ [] → ∃ before heading after, HeadsStatemap origin lines before heading after p) ∧
      ∀ line ∈ b.statemap, WaveTableLine.startsPart line = true →
        ∃ keyword ∈ WaveTableLine.partKeywords, ∃ c rest,
          line.toList = keyword.toList ++ c :: rest ∧ isBlank c = true ∧ c ≠ ' ' := by
  obtain ⟨r, hrun, -, rfl⟩ := run_of_parse hparse hlines
  have hheaded : ∀ before heading after p, HeadsStatemap origin lines before heading after p →
      ∃ b, r.timing.blockAt? p = some b ∧ b.statemap = StateMap.stored after ∧
        StateMap.EndsAtPart after :=
    fun _ _ _ _ ↦ TimingReader.stored_of_headsStatemap hrun
  constructor
  · intro before heading after p hheads
    obtain ⟨b, hfound, hstored, hend⟩ := hheaded before heading after p hheads
    refine ⟨b, hfound, hstored, ?_⟩
    rw [hstored]
    exact StateMap.stored_eq_upToPart_iff hend
  · intro p b hfound
    refine ⟨TimingReader.exists_headsStatemap hrun hfound, fun line hline hpart ↦ ?_⟩
    obtain ⟨before, heading, after, hheads⟩ :=
      TimingReader.exists_headsStatemap hrun hfound (List.ne_nil_of_mem hline)
    obtain ⟨b', hfound', hstored, -⟩ := hheaded before heading after p hheads
    rw [hfound] at hfound'
    cases hfound'
    rw [hstored] at hline
    have hends := StateMap.endsStatemap_of_mem_stored hline
    obtain ⟨keyword, hmem, c, rest, hblank, hchars⟩ :=
      WaveTableLine.exists_keyword_of_startsPart hpart
    refine ⟨keyword, hmem, c, rest, hchars, hblank, ?_⟩
    rintro rfl
    rw [TimingReader.endsStatemap_of_space hmem hchars] at hends
    cases hends

/-- A text with a state map that a line with `NOOP` in front belongs to. -/
def noopStatemapText : String :=
  "hp93000,timing,0.1\nEQSP TIM,WVT,#1\nWAVETBL w\nPINS A\nSTATEMAP\n0 01\nNOOP 1\nPINS B\n"

/-- A text with a state map in front of a block whose keyword has a tab behind it. -/
def tabbedPinsText : String :=
  "hp93000,timing,0.1\nEQSP TIM,WVT,#1\nWAVETBL w\nPINS A\nSTATEMAP\n0 01\nPINS\tB\n" ++
    "1 \"d1:F00\" 0\n"

/-- The lines in front of the state map of both texts. -/
def statemapFront : List Line :=
  [⟨2, "EQSP TIM,WVT,#1"⟩, ⟨3, "WAVETBL w"⟩, ⟨4, "PINS A"⟩]

theorem headsStatemap_front (after : List Line) :
    HeadsStatemap "a" (statemapFront ++ ⟨5, "STATEMAP"⟩ :: after) statemapFront ⟨5, "STATEMAP"⟩ after
      ⟨"w", 0⟩ :=
  ⟨rfl, _, rfl, rfl⟩

/-- The line that starts with `NOOP` is not stored, though it stands in front of the next block. -/
theorem Timing.statemaps_of_parse_noop :
    ∃ timing b, parse noopStatemapText "a" = .ok timing ∧ timing.blockAt? ⟨"w", 0⟩ = some b ∧
      b.statemap = ["0 01"] ∧
      StateMap.upToPart [⟨6, "0 01"⟩, ⟨7, "NOOP 1"⟩, ⟨8, "PINS B"⟩] = ["0 01", "NOOP 1"] := by
  obtain ⟨timing, hparse⟩ : ∃ timing, parse noopStatemapText "a" = .ok timing :=
    exists_eq_ok_of_isOk (by decide +kernel)
  have hlines : significantLines noopStatemapText = ⟨1, "hp93000,timing,0.1"⟩ ::
      (statemapFront ++ ⟨5, "STATEMAP"⟩ ::
        [⟨6, "0 01"⟩, ⟨7, "NOOP 1"⟩, ⟨8, "PINS B"⟩]) := by
    decide +kernel
  obtain ⟨b, hfound, hstored, -⟩ :=
    (statemaps_of_parse _ _ _ _ _ hparse hlines).1 _ _ _ _ (headsStatemap_front _)
  exact ⟨timing, b, hparse, hfound, hstored.trans (by decide +kernel), by decide +kernel⟩

/-- A state map takes in a block whose keyword has a tab behind it, and its waveform. -/
theorem Timing.not_forall_statemaps_end :
    (¬∀ (text origin : String) (timing : Timing) (p : BlockPlace) (b : WaveformBlock),
      parse text origin = .ok timing → timing.blockAt? p = some b →
      ∀ line ∈ b.statemap, WaveTableLine.startsPart line = false) ∧
    ¬∀ (text origin : String) (timing : Timing) (header : Line) (lines before : List Line)
      (heading : Line) (after : List Line) (p : BlockPlace) (b : WaveformBlock),
      parse text origin = .ok timing → significantLines text = header :: lines →
      HeadsStatemap origin lines before heading after p → timing.blockAt? p = some b →
      b.statemap = StateMap.upToPart after := by
  obtain ⟨timing, hparse, hmap⟩ : ∃ timing, parse tabbedPinsText "a" = .ok timing ∧
      ((timing.blockAt? ⟨"w", 0⟩).map WaveformBlock.statemap ==
        some ["0 01", "PINS\tB", "1 \"d1:F00\" 0"]) = true :=
    exists_eq_ok_of_any (by decide +kernel)
  obtain ⟨b, hfound, hstatemap⟩ := Option.map_eq_some_iff.mp (eq_of_beq hmap)
  constructor
  · intro hall
    have hnone := hall _ _ timing _ b hparse hfound "PINS\tB" (by rw [hstatemap]; decide)
    exact absurd hnone (by decide +kernel)
  · intro hall
    have hlines : significantLines tabbedPinsText = ⟨1, "hp93000,timing,0.1"⟩ ::
        (statemapFront ++ ⟨5, "STATEMAP"⟩ ::
          [⟨6, "0 01"⟩, ⟨7, "PINS\tB"⟩, ⟨8, "1 \"d1:F00\" 0"⟩]) := by
      decide +kernel
    have hstored := hall _ _ timing _ _ _ _ _ _ b hparse hlines (headsStatemap_front _) hfound
    rw [hstatemap] at hstored
    exact absurd hstored (by decide +kernel)

end TesterSetup
