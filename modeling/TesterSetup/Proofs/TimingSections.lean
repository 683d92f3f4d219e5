import TesterSetup.Proofs.TimingReading
import TesterSetup.Proofs.WrittenForms

/-!
# What the sections of a timing file change

Each section of a timing file changes one kind of parts and leaves the others as they are: wave
tables (`TimingReader.frame_placeWaveTables`), equation sets (`frame_placeEquations`), spec sets
(`frame_placeValues`) or, in a block, specifications (`frame_placeInBlock`). A new wave table comes
with the line that names it and a new specification with its block, so what the names on such lines
have in common is shared by all wave tables and specifications of a setup. They are trimmed
(`Timing.hasBareEnds_of_parse`).
-/

set_option autoImplicit false

namespace TesterSetup

open TesterSetup.Text

namespace TimingReader

variable {r r' : TimingReader} {line : String}

/-! ### Frames -/

/-- A change of a wave table leaves all else as it is. -/
theorem frame_inWaveTable {f : WaveTable → LineResult WaveTable}
    (h : r.inWaveTable line f = .ok r') :
    ∃ w, r' = { r with timing :=
      { r.timing with wavetables := r.timing.wavetables.replace w } } := by
  unfold inWaveTable at h
  split at h
  · cases h
  · obtain ⟨w, -, h⟩ := except_bind_eq_ok_iff.mp h
    obtain ⟨w', -, h⟩ := except_bind_eq_ok_iff.mp h
    cases h
    exact ⟨w', rfl⟩

theorem frame_placeWaveTableRest {form : WaveTableLine}
    (h : r.placeWaveTableRest line form = .ok r') :
    ∃ w, r' = { r with timing :=
      { r.timing with wavetables := r.timing.wavetables.replace w } } := by
  cases form with
  | waveform index edges cycle =>
    obtain ⟨edges, -, h⟩ := except_bind_eq_ok_iff.mp h
    exact frame_inWaveTable h
  | brk edges =>
    obtain ⟨edges, -, h⟩ := except_bind_eq_ok_iff.mp h
    exact frame_inWaveTable h
  | _ => cases h

/-- A line of the wave table section changes wave tables, and adds the one that it names. -/
theorem frame_placeWaveTables {form : WaveTableLine} (h : r.placeWaveTables line form = .ok r') :
    r'.place.block = r.place.block ∧
      r'.timing = { r.timing with wavetables := r'.timing.wavetables } ∧
      ∀ name ∈ r'.timing.wavetables.keys, name ∈ r.timing.wavetables.keys ∨
        form = .table name := by
  have hchanged : ∀ {w : WaveTable} {marked : TimingReader}, marked = { r with timing :=
      { r.timing with wavetables := r.timing.wavetables.replace w } } →
      marked.place.block = r.place.block ∧
        marked.timing = { r.timing with wavetables := marked.timing.wavetables } ∧
        ∀ name ∈ marked.timing.wavetables.keys, name ∈ r.timing.wavetables.keys ∨
          form = .table name := by
    rintro w _ rfl
    exact ⟨rfl, rfl, fun name hname ↦ .inl (Container.keys_replace _ w ▸ hname)⟩
  cases form with
  | statemap =>
    obtain ⟨opened, hopened, h⟩ := except_bind_eq_ok_iff.mp h
    cases h
    obtain ⟨w, hw⟩ := frame_inWaveTable hopened
    obtain ⟨hblock, htiming, hnames⟩ := hchanged hw
    exact ⟨hblock, htiming, hnames⟩
  | table name =>
    obtain ⟨wavetables, hadd, h⟩ := except_bind_eq_ok_iff.mp h
    cases h
    refine ⟨rfl, rfl, fun name' hname ↦ ?_⟩
    change name' ∈ wavetables.items.map _ at hname
    rw [Container.items_add (except_mapError_eq_ok_iff.mp hadd), List.map_append,
      List.mem_append, List.map_singleton, List.mem_singleton] at hname
    exact hname.imp_right fun hnew ↦ congrArg _ hnew.symm
  | defines ports =>
    obtain ⟨w, hw⟩ := frame_inWaveTable h
    exact hchanged hw
  | pins pins =>
    obtain ⟨w, hw⟩ := frame_inWaveTable h
    exact hchanged hw
  | hrpf rest =>
    obtain ⟨marked, hmarked, h⟩ := except_bind_eq_ok_iff.mp h
    obtain ⟨w, rfl⟩ := frame_inWaveTable hmarked
    obtain ⟨w', rfl⟩ := frame_placeWaveTableRest h
    refine ⟨rfl, rfl, fun name hname ↦ .inl ?_⟩
    rwa [Container.keys_replace, Container.keys_replace] at hname
  | waveform index edges cycle =>
    have hrest : r.placeWaveTableRest line (.waveform index edges cycle) = .ok r' := h
    obtain ⟨w, hw⟩ := frame_placeWaveTableRest hrest
    exact hchanged hw
  | brk edges =>
    have hrest : r.placeWaveTableRest line (.brk edges) = .ok r' := h
    obtain ⟨w, hw⟩ := frame_placeWaveTableRest hrest
    exact hchanged hw
  | unplaced => cases h

/-- A change of the open equation set. -/
theorem inEqnSet_eq_ok {f : TimingEqnSet → LineResult TimingEqnSet}
    (h : r.inEqnSet line f = .ok r') :
    ∃ num e e', r.place.eqnset = some num ∧ r.timing.eqnsets.get? num = some e ∧ f e = .ok e' ∧
      r' = { r with timing := { r.timing with eqnsets := r.timing.eqnsets.replace e' } } := by
  unfold inEqnSet at h
  split at h
  · cases h
  · rename_i num hnum
    obtain ⟨e, he, h⟩ := except_bind_eq_ok_iff.mp h
    obtain ⟨e', he', h⟩ := except_bind_eq_ok_iff.mp h
    cases h
    exact ⟨num, e, e', hnum, Container.get?_of_require (except_mapError_eq_ok_iff.mp he), he', rfl⟩

/-- A change of the open timing set. -/
theorem inTimingSet_eq_ok {f : TimingSet → LineResult TimingSet} {e e' : TimingEqnSet}
    (h : r.inTimingSet line f e = .ok e') :
    ∃ num s s', r.place.timingset = some num ∧ e.setups.timingsets.get? num = some s ∧
      f s = .ok s' ∧ e' = { e with setups :=
        { e.setups with timingsets := e.setups.timingsets.replace s' } } := by
  unfold inTimingSet at h
  split at h
  · cases h
  · rename_i num hnum
    obtain ⟨s, hs, h⟩ := except_bind_eq_ok_iff.mp h
    obtain ⟨s', hs', h⟩ := except_bind_eq_ok_iff.mp h
    cases h
    exact ⟨num, s, s', hnum, Container.get?_of_require (except_mapError_eq_ok_iff.mp hs), hs', rfl⟩

/-- A change of an equation set leaves all else as it is. -/
theorem frame_inEqnSet {f : TimingEqnSet → LineResult TimingEqnSet}
    (h : r.inEqnSet line f = .ok r') :
    r'.place = r.place ∧ r'.timing = { r.timing with eqnsets := r'.timing.eqnsets } := by
  obtain ⟨num, e, e', -, -, -, rfl⟩ := inEqnSet_eq_ok h
  exact ⟨rfl, rfl⟩

/-- A line of the equation section changes equation sets. -/
theorem frame_placeEquations {form : TimingEquationsLine}
    (h : r.placeEquations line form = .ok r') :
    r'.place.block = r.place.block ∧
      r'.timing = { r.timing with eqnsets := r'.timing.eqnsets } := by
  have hchanged : ∀ {f : TimingEqnSet → LineResult TimingEqnSet} {opened : TimingReader},
      r.inEqnSet line f = .ok opened → opened.place.block = r.place.block ∧
        opened.timing = { r.timing with eqnsets := opened.timing.eqnsets } := fun h ↦
    (frame_inEqnSet h).imp_left fun hplace ↦ by rw [hplace]
  cases form with
  | eqnset num description =>
    obtain ⟨num, -, h⟩ := except_bind_eq_ok_iff.mp h
    obtain ⟨eqnsets, -, h⟩ := except_bind_eq_ok_iff.mp h
    cases h
    exact ⟨rfl, rfl⟩
  | heading =>
    cases h
    exact ⟨rfl, rfl⟩
  | timingSet num description =>
    unfold placeEquations at h
    dsimp only at h
    split at h
    · cases h
    · obtain ⟨num, -, h⟩ := except_bind_eq_ok_iff.mp h
      obtain ⟨opened, hopened, h⟩ := except_bind_eq_ok_iff.mp h
      cases h
      obtain ⟨hblock, htiming⟩ := hchanged hopened
      exact ⟨hblock, htiming⟩
  | _ => exact hchanged h

/-- A line of a block leaves the block open, or completes it and adds its specification. -/
theorem frame_placeInBlock {b : SpecificationBlock} (h : r.placeInBlock line b = .ok r') :
    ∃ b', b.place line (.ofText line) = .ok b' ∧
      (r' = { r with place := { r.place with block := some b' } } ∨
        ∃ s specifications, b'.complete line = .ok s ∧
          r.timing.specifications.add s = .ok specifications ∧
          r' = ⟨{ r.place with block := none }, { r.timing with specifications }⟩) := by
  unfold placeInBlock at h
  dsimp only at h
  obtain ⟨b', hb', h⟩ := except_bind_eq_ok_iff.mp h
  refine ⟨b', hb', ?_⟩
  split at h
  · obtain ⟨s, hs, h⟩ := except_bind_eq_ok_iff.mp h
    obtain ⟨specifications, hadd, h⟩ := except_bind_eq_ok_iff.mp h
    cases h
    exact .inr ⟨s, specifications, hs, except_mapError_eq_ok_iff.mp hadd, rfl⟩
  · cases h
    exact .inl rfl

theorem timing_placeInBlock {b : SpecificationBlock} (h : r.placeInBlock line b = .ok r') :
    r'.timing = { r.timing with specifications := r'.timing.specifications } := by
  obtain ⟨b', -, rfl | ⟨s, specifications, -, -, rfl⟩⟩ := frame_placeInBlock h
  · rfl
  · rfl

/-- A line of the spec set section changes spec sets, or opens the block that it names. -/
theorem frame_placeValues {form : TimingValuesLine} (h : r.placeValues line form = .ok r') :
    r'.timing = { r.timing with specsets := r'.timing.specsets } ∧
      ∀ b, r'.place.block = some b → r.place.block = some b ∨
        ∃ brace, form = .specification b.specification.name brace := by
  cases form with
  | specification name brace =>
    cases h
    refine ⟨rfl, ?_⟩
    rintro b ⟨⟩
    exact .inr ⟨brace, rfl⟩
  | eqnset num =>
    obtain ⟨num, -, h⟩ := except_bind_eq_ok_iff.mp h
    cases h
    exact ⟨rfl, fun _ ↦ .inl⟩
  | specSet num description =>
    unfold placeValues at h
    dsimp only at h
    split at h
    · cases h
    · obtain ⟨num, -, h⟩ := except_bind_eq_ok_iff.mp h
      obtain ⟨specsets, -, h⟩ := except_bind_eq_ok_iff.mp h
      cases h
      exact ⟨rfl, fun _ ↦ .inl⟩
  | value value =>
    obtain ⟨spec, -, h⟩ := except_bind_eq_ok_iff.mp h
    split at h
    · cases h
    · obtain ⟨specs, -, h⟩ := except_bind_eq_ok_iff.mp h
      cases h
      exact ⟨rfl, fun _ ↦ .inl⟩
  | unplaced => cases h
  | _ =>
    cases h
    exact ⟨rfl, fun _ ↦ .inl⟩

/-! ### Names of wave tables and specifications -/

/-- The names of wave tables and specifications are trimmed, that of an open block as well. -/
structure HasBareNames (r : TimingReader) : Prop where
  wavetables : ∀ name ∈ r.timing.wavetables.keys, HasBareEnds name.toList
  specifications : ∀ name ∈ r.timing.specifications.keys, HasBareEnds name.toList
  block : ∀ b, r.place.block = some b → HasBareEnds b.specification.name.toList

theorem HasBareNames.of_eq (hr : r.HasBareNames)
    (hwavetables : r'.timing.wavetables = r.timing.wavetables)
    (hspecifications : r'.timing.specifications = r.timing.specifications)
    (hblock : r'.place.block = r.place.block) : r'.HasBareNames :=
  ⟨by rw [hwavetables]; exact hr.wavetables, by rw [hspecifications]; exact hr.specifications,
    by rw [hblock]; exact hr.block⟩

theorem table_ofText {name : String} (h : WaveTableLine.ofText line = .table name) :
    ∃ text, name = unquote text := by
  cases WaveTableLine.found_of_ofText h with
  | table _ hname => exact ⟨_, hname⟩

theorem specification_ofText {name : String} {brace : Bool}
    (h : TimingValuesLine.ofText line = .specification name brace) :
    ∃ text, name = unquote text := by
  unfold TimingValuesLine.ofText at h
  dsimp only at h
  split at h
  · rename_i text _ _
    exact ⟨text, (TimingValuesLine.specification.inj h).1.symm⟩
  · repeat' split at h
    all_goals cases h

theorem hasBareNames_placeInBlock {b : SpecificationBlock} (hr : r.HasBareNames)
    (hb : r.place.block = some b) (h : r.placeInBlock line b = .ok r') : r'.HasBareNames := by
  obtain ⟨b', hplace, hr'⟩ := frame_placeInBlock h
  have hname : HasBareEnds b'.specification.name.toList := by
    rw [(SpecificationBlock.grows_place hplace).name_eq]
    exact hr.block b hb
  rcases hr' with rfl | ⟨s, specifications, hcomplete, hadd, rfl⟩
  · refine ⟨hr.wavetables, hr.specifications, ?_⟩
    rintro _ ⟨⟩
    exact hname
  · refine ⟨hr.wavetables, fun name hmem ↦ ?_, nofun⟩
    change name ∈ specifications.items.map _ at hmem
    rw [Container.items_add hadd, List.map_append, List.mem_append, List.map_singleton,
      List.mem_singleton] at hmem
    rcases hmem with hold | rfl
    · exact hr.specifications name hold
    · obtain ⟨hsame, -⟩ := SpecificationBlock.of_complete hcomplete
      change HasBareEnds s.name.toList
      rwa [hsame]

/-- A line adds names only as it has them, without the blanks and quotes around them. -/
theorem hasBareNames_read {line : Line} (hr : r.HasBareNames) (h : r.read line = .ok r') :
    r'.HasBareNames := by
  have hclosed : r.closeStatemap.HasBareNames := hr.of_eq rfl rfl rfl
  rcases read_cases h with ⟨-, rfl⟩ | ⟨-, -, -, h⟩ | ⟨-, h⟩
  · exact hr
  · obtain ⟨w, rfl⟩ := frame_inWaveTable h
    exact ⟨fun name hname ↦ hr.wavetables name (Container.keys_replace _ w ▸ hname),
      hr.specifications, hr.block⟩
  · rcases placeLine_cases h with ⟨-, h⟩ | ⟨-, -, rfl⟩ |
      ⟨-, -, ⟨-, h⟩ | ⟨-, h⟩ | ⟨-, b, hblock, h⟩ | ⟨-, -, h⟩⟩
    · obtain ⟨hblock, htiming, _, part, -, hplace, -⟩ := of_openSection h
      refine hclosed.of_eq (by rw [htiming]) (by rw [htiming]) ?_
      rw [hblock, hplace]
      rfl
    · exact hclosed
    · obtain ⟨hblock, htiming, hnames⟩ := frame_placeWaveTables h
      refine ⟨fun name hname ↦ ?_, by rw [htiming]; exact hr.specifications,
        by rw [hblock]; exact hr.block⟩
      rcases hnames name hname with hold | htable
      · exact hr.wavetables name hold
      · obtain ⟨text, rfl⟩ := table_ofText htable
        exact hasBareEnds_unquote text
    · obtain ⟨hblock, htiming⟩ := frame_placeEquations h
      exact hclosed.of_eq (by rw [htiming]) (by rw [htiming]) hblock
    · exact hasBareNames_placeInBlock hclosed hblock h
    · obtain ⟨htiming, hblock⟩ := frame_placeValues h
      refine ⟨by rw [htiming]; exact hr.wavetables, by rw [htiming]; exact hr.specifications,
        fun b hb ↦ ?_⟩
      rcases hblock b hb with hold | ⟨brace, hform⟩
      · exact hr.block b hold
      · obtain ⟨text, hname⟩ := specification_ofText hform
        rw [hname]
        exact hasBareEnds_unquote text

end TimingReader

/-- The wave tables and specifications of a timing file have trimmed names. -/
theorem Timing.hasBareEnds_of_parse {text origin : String} {timing : Timing}
    (h : parse text origin = .ok timing) :
    (∀ name ∈ timing.wavetables.keys, HasBareEnds name.toList) ∧
      ∀ name ∈ timing.specifications.keys, HasBareEnds name.toList := by
  obtain ⟨lines, -, h⟩ := except_bind_eq_ok_iff.mp h
  obtain ⟨r, hread, hfinish⟩ := except_bind_eq_ok_iff.mp h
  have hnames : r.HasBareNames := by
    refine readLines_induction hread ?_ fun _ _ _ _ ↦ TimingReader.hasBareNames_read
    exact ⟨List.forall_mem_nil _, List.forall_mem_nil _, nofun⟩
  unfold TimingReader.finish at hfinish
  split at hfinish
  · cases hfinish
    exact ⟨hnames.wavetables, hnames.specifications⟩
  · cases hfinish

end TesterSetup
