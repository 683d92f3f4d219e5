import TesterSetup.Proofs.ValueTargets

/-!
# Wave tables and check modes of spec sets

A spec set of a timing setup outside a specification carries the names of a wave table and of a
check mode. Both stand on lines of their own in front of the line that opens the spec set. Within one
section of spec sets a name holds until another one takes its place (`TimingReader.named_read`): a
spec set has the last one between the marker of its section and its own line.

The line that names the equation set of the spec set ends nothing. When it is followed by a wave
table and a check mode these are the ones of the spec set (`SpecSetPlace.openedLast_stretch`), but
when it is not, the spec set keeps the names that were given for the equation set before it.
-/

set_option autoImplicit false

namespace TesterSetup

open TesterSetup.Text

/-! ### Sections -/

namespace TimingReader

variable {r r' : TimingReader} {line : Line}

/-- The section that is open. None is before the first marker. -/
def openPart (r : TimingReader) : Option TimingSection :=
  if r.place.part = .preamble then none else some r.place.part

/-- The section that a line opens. A state map takes in all but the markers that end it. -/
def opensPart (r : TimingReader) (line : Line) : Option TimingSection :=
  if r.place.inStatemap = true ∧ statemapEnds.any (Form.startsWith line.text) = false then none
  else (Form.section? "TIM" line.text.toList).bind TimingSection.ofName?

theorem opensPart_eq_none (h : Form.section? "TIM" line.text.toList = none) :
    r.opensPart line = none := by
  rw [opensPart, h, Option.bind_none, ite_self]

theorem openPart_eq_some_iff {part : TimingSection} (hpart : part ≠ .preamble) :
    r.openPart = some part ↔ r.place.part = part := by
  unfold openPart
  split
  · rename_i hpreamble
    rw [hpreamble]
    exact ⟨nofun, fun h ↦ absurd h.symm hpart⟩
  · exact Option.some_inj

/-- A line that is no marker leaves the section open. -/
theorem openPart_of_part_eq (hline : Form.section? "TIM" line.text.toList = none)
    (hpart : r'.place.part = r.place.part) : r'.openPart = (r.opensPart line).or r.openPart := by
  rw [opensPart_eq_none hline, Option.none_or, openPart, hpart, openPart]

theorem section?_eq_none_of_startsWith (h : Form.startsWith line.text "EQSP" = false) :
    Form.section? "TIM" line.text.toList = none := by
  cases hsection : Form.section? "TIM" line.text.toList with
  | none => rfl
  | some name =>
    rw [Form.startsWith_of_section? hsection] at h
    cases h

/-- A line opens a section, or leaves the one that is open. -/
theorem openPart_read (h : r.read line = .ok r') :
    r'.openPart = (r.opensPart line).or r.openPart := by
  rcases read_cases_of_ends h with ⟨hnoop, rfl⟩ | ⟨-, hstatemap, hkept, h⟩ | ⟨-, hends, h⟩
  · refine openPart_of_part_eq (section?_eq_none_of_startsWith ?_) rfl
    rw [← Bool.not_eq_true]
    intro heqsp
    exact absurd (Form.eq_of_startsWith heqsp hnoop rfl) (by decide)
  · rw [opensPart, if_pos ⟨hstatemap, hkept⟩, Option.none_or, openPart,
      (of_inWaveTable h).part_eq, openPart]
  · rcases placeLine_cases h with ⟨-, h⟩ | ⟨heqsp, -, rfl⟩ |
      ⟨heqsp, -, ⟨-, h⟩ | ⟨-, h⟩ | ⟨-, b, -, h⟩ | ⟨-, -, h⟩⟩
    · obtain ⟨-, -, name, part, hsection, hplace, hname⟩ := of_openSection h
      have hplaced : ¬(r.place.inStatemap = true ∧
          statemapEnds.any (Form.startsWith line.text) = false) := by
        rintro ⟨hstatemap, hkept⟩
        rw [hends hstatemap] at hkept
        cases hkept
      have hpart : part ≠ .preamble := by
        rintro rfl
        unfold TimingSection.ofName? at hname
        split at hname <;> cases hname
      rw [opensPart, if_neg hplaced, hsection, Option.bind_some, hname, Option.some_or,
        openPart_eq_some_iff hpart, hplace]
      rfl
    · exact openPart_of_part_eq (section?_eq_none_of_startsWith heqsp) rfl
    · exact openPart_of_part_eq (section?_eq_none_of_startsWith heqsp) (of_placeWaveTables h).2.2
    · exact openPart_of_part_eq (section?_eq_none_of_startsWith heqsp)
        (growsTo_placeEquations h).part_eq
    · exact openPart_of_part_eq (section?_eq_none_of_startsWith heqsp) (of_placeInBlock h).1
    · exact openPart_of_part_eq (section?_eq_none_of_startsWith heqsp) (of_placeValues h).1

/-- A marker opens its section with nothing in it. -/
theorem place_of_opensPart {part : TimingSection} (h : r.read line = .ok r')
    (hline : r.opensPart line = some part) : r'.place = .startOf part := by
  unfold opensPart at hline
  split at hline
  · cases hline
  · rename_i hplaced
    obtain ⟨name, hsection, hname⟩ := Option.bind_eq_some_iff.mp hline
    have heqsp := Form.startsWith_of_section? hsection
    rcases read_cases h with ⟨hnoop, -⟩ | ⟨-, hstatemap, hkept, -⟩ | ⟨-, h⟩
    · exact absurd (Form.eq_of_startsWith heqsp hnoop rfl) (by decide)
    · exact absurd ⟨hstatemap, hkept⟩ hplaced
    · rcases placeLine_cases h with ⟨-, h⟩ | ⟨hother, -⟩ | ⟨hother, -⟩
      · obtain ⟨-, -, found, opened, hfound, hplace, hopened⟩ := of_openSection h
        rw [hsection] at hfound
        cases hfound
        rw [hname] at hopened
        cases hopened
        exact hplace
      · rw [heqsp] at hother
        cases hother
      · rw [heqsp] at hother
        cases hother

end TimingReader

/-! ### What is named -/

/-- The number of an equation set that a line names. -/
def TimingValuesLine.eqnset? : TimingValuesLine → Option Nat
  | .eqnset num => (readSetNum num).toOption
  | _ => none

/-- The wave table that a line names. -/
def TimingValuesLine.wavetable? : TimingValuesLine → Option String
  | .wavetable name => some name
  | _ => none

/-- The check mode that a line sets. -/
def TimingValuesLine.check? : TimingValuesLine → Option String
  | .check mode => some mode
  | _ => none

namespace TimingReader

variable {r r' : TimingReader}

/-- The number of the equation set that a line of the spec set section names. -/
def namesEqnSet (r : TimingReader) (line : Line) : Option Nat :=
  (r.valuesLine? line).bind TimingValuesLine.eqnset?

/-- The wave table that a line of the spec set section names. -/
def namesWaveTable (r : TimingReader) (line : Line) : Option String :=
  (r.valuesLine? line).bind TimingValuesLine.wavetable?

/-- The check mode that a line of the spec set section sets. -/
def setsCheck (r : TimingReader) (line : Line) : Option String :=
  (r.valuesLine? line).bind TimingValuesLine.check?

/-- What a line of the spec set section does to the names. -/
structure Names (r r' : TimingReader) (eqnset : Option Nat) (wavetable check : Option String) :
    Prop where
  eqnset : r'.place.eqnset = eqnset.or r.place.eqnset
  wavetable : r'.place.specSetWavetable = wavetable.or r.place.specSetWavetable
  check : r'.place.specSetCheck = check.or r.place.specSetCheck

theorem names_placeValues {line : String} {form : TimingValuesLine}
    (h : r.placeValues line form = .ok r') :
    r.Names r' form.eqnset? form.wavetable? form.check? := by
  cases form with
  | eqnset num =>
    obtain ⟨n, hnum, h⟩ := except_bind_eq_ok_iff.mp h
    cases h
    refine ⟨?_, rfl, rfl⟩
    rw [TimingValuesLine.eqnset?, except_mapError_eq_ok_iff.mp hnum]
    rfl
  | specSet num description =>
    unfold placeValues at h
    dsimp only at h
    split at h
    · cases h
    · obtain ⟨n, -, h⟩ := except_bind_eq_ok_iff.mp h
      obtain ⟨specsets, -, h⟩ := except_bind_eq_ok_iff.mp h
      cases h
      exact ⟨rfl, rfl, rfl⟩
  | value value =>
    obtain ⟨spec, -, h⟩ := except_bind_eq_ok_iff.mp h
    split at h
    · cases h
    · obtain ⟨specs, -, h⟩ := except_bind_eq_ok_iff.mp h
      cases h
      exact ⟨rfl, rfl, rfl⟩
  | unplaced => cases h
  | _ =>
    cases h
    exact ⟨rfl, rfl, rfl⟩

/-- Within a section of spec sets a line names something, or leaves what is named. -/
theorem named_read {line : Line} (hr : r.Consistent) (hpart : r.place.part = .values)
    (hline : r.opensPart line = none) (h : r.read line = .ok r') :
    r.Names r' (r.namesEqnSet line) (r.namesWaveTable line) (r.setsCheck line) := by
  cases hform : r.valuesLine? line with
  | some form =>
    rw [namesEqnSet, namesWaveTable, setsCheck, hform]
    exact names_placeValues (read_valuesLine hr h hform)
  | none =>
    rw [namesEqnSet, namesWaveTable, setsCheck, hform]
    rcases placeLine_of_read hr (by rw [hpart]; decide) h with ⟨-, rfl⟩ | ⟨hnoop, hplaced⟩
    · exact ⟨rfl, rfl, rfl⟩
    · rcases placeLine_cases hplaced with ⟨-, hmarker⟩ | ⟨-, -, rfl⟩ |
        ⟨heqsp, hkept, ⟨hother, -⟩ | ⟨hother, -⟩ | ⟨-, b, -, hblock⟩ | ⟨-, hblock, -⟩⟩
      · obtain ⟨-, -, name, part, hsection, -, hname⟩ := of_openSection hmarker
        have hplaced : ¬(r.place.inStatemap = true ∧
            statemapEnds.any (Form.startsWith line.text) = false) :=
          fun hstatemap ↦ absurd ((hr.statemap hstatemap.1).symm.trans hpart) (by decide)
        rw [opensPart, if_neg hplaced, hsection, Option.bind_some, hname] at hline
        cases hline
      · exact ⟨rfl, rfl, rfl⟩
      · rw [hpart] at hother
        cases hother
      · rw [hpart] at hother
        cases hother
      · obtain ⟨b', -, rfl | ⟨s, specifications, -, -, rfl⟩⟩ := frame_placeInBlock hblock
        · exact ⟨rfl, rfl, rfl⟩
        · exact ⟨rfl, rfl, rfl⟩
      · unfold valuesLine? at hform
        rw [if_pos ⟨hpart, hblock, hnoop, heqsp, hkept⟩] at hform
        cases hform

end TimingReader

/-! ### Stretches of a section -/

section Stretches

variable {origin : String} {front stretch : List Line} {r₀ r : TimingReader}

/-- Up to the next marker the section stays open. -/
theorem TimingReader.part_of_noOpening {part : TimingSection} (hpart : part ≠ .preamble)
    (hfront : readLines origin read .start front = .ok r₀) (hopen : r₀.place.part = part)
    (hnone : NoOpening (readLines origin read .start) opensPart front stretch)
    (hrun : readLines origin read r₀ stretch = .ok r) : r.place.part = part := by
  obtain ⟨last, hlast, hkept⟩ := openedLast_of_run opensPart openPart hfront hrun
    fun _ _ _ _ _ _ _ hread ↦ openPart_read hread
  rw [hlast.eq_none hnone, Option.none_or, (openPart_eq_some_iff hpart).mpr hopen,
    openPart_eq_some_iff hpart] at hkept
  exact hkept

/-- What is named after a stretch of a section of spec sets is what its lines named last, or else
what was named before. -/
theorem TimingReader.named_of_run (hfront : readLines origin read .start front = .ok r₀)
    (hopen : r₀.place.part = .values)
    (hnone : NoOpening (readLines origin read .start) opensPart front stretch)
    (hrun : readLines origin read r₀ stretch = .ok r) :
    ∃ eqnset wavetable check,
      OpenedLast (readLines origin read .start) namesEqnSet front stretch eqnset ∧
      OpenedLast (readLines origin read .start) namesWaveTable front stretch wavetable ∧
      OpenedLast (readLines origin read .start) setsCheck front stretch check ∧
      r₀.Names r eqnset wavetable check := by
  have hstep : ∀ mid line rest (s s' : TimingReader), stretch = mid ++ line :: rest →
      readLines origin read .start (front ++ mid) = .ok s → s.read line = .ok s' →
      s.Names s' (s.namesEqnSet line) (s.namesWaveTable line) (s.setsCheck line) := by
    rintro mid line rest s s' rfl hs hread
    have hmid : readLines origin read r₀ mid = .ok s := by
      obtain ⟨m, hm, hmid⟩ := readLines_append_eq_ok_iff.mp hs
      rw [hfront] at hm
      cases hm
      exact hmid
    have hpart := part_of_noOpening (by decide) hfront hopen hnone.of_append_left hmid
    exact named_read (consistent_readLines hs) hpart (hnone.opens_eq_none rfl hs) hread
  obtain ⟨eqnset, heqnset, hkept⟩ := openedLast_of_run namesEqnSet
    (fun r ↦ r.place.eqnset) hfront hrun
    fun mid line rest s s' hlines hs hread ↦ (hstep mid line rest s s' hlines hs hread).eqnset
  obtain ⟨wavetable, hwavetable, hkept'⟩ := openedLast_of_run namesWaveTable
    (fun r ↦ r.place.specSetWavetable) hfront hrun
    fun mid line rest s s' hlines hs hread ↦ (hstep mid line rest s s' hlines hs hread).wavetable
  obtain ⟨check, hcheck, hkept''⟩ := openedLast_of_run setsCheck
    (fun r ↦ r.place.specSetCheck) hfront hrun
    fun mid line rest s s' hlines hs hread ↦ (hstep mid line rest s s' hlines hs hread).check
  exact ⟨eqnset, wavetable, check, heqnset, hwavetable, hcheck, hkept, hkept', hkept''⟩

/-- A marker starts its section with nothing named. -/
theorem TimingReader.startOf_of_opensAt {marker : Line} {part : TimingSection}
    (hmarker : OpensAt (readLines origin read .start) opensPart front marker part)
    (hrun : readLines origin read .start (front ++ [marker]) = .ok r) :
    r.place = .startOf part := by
  obtain ⟨s, hs, hopens⟩ := hmarker
  obtain ⟨s', hs', hread⟩ := readLines_append_eq_ok_iff.mp hrun
  rw [hs] at hs'
  cases hs'
  obtain ⟨r', hread, hend⟩ := readLines_cons_eq_ok_iff.mp hread
  cases hend
  exact place_of_opensPart hread hopens

end Stretches

/-! ### Places -/

/-- The spec sets are those that the lines opened. -/
theorem TimingReader.exists_opensBinding_iff {origin : String} {lines : List Line} {r : TimingReader}
    (h : readLines origin read .start lines = .ok r) (binding : SpecSetBinding) :
    binding ∈ r.timing.specsets.items.map SpecSet.binding ↔
      ∃ before line after, lines = before ++ line :: after ∧
        OpensAt (readLines origin read .start) opensBinding before line binding :=
  exists_opensAt_iff opensBinding
    (fun r binding ↦ binding ∈ r.timing.specsets.items.map SpecSet.binding)
    (fun _ ↦ List.not_mem_nil)
    (fun before s line s' hs hread binding ↦ by
      rw [bindings_read (consistent_readLines hs) hread, List.mem_append, Option.mem_toList])
    h binding

/-- Where a spec set of a timing text stands: behind an `EQNSET` line of a section. -/
structure SpecSetPlace where
  /-- The lines in front of the section. -/
  front : List Line
  marker : Line
  /-- The lines of the section in front of the `EQNSET` line. -/
  opening : List Line
  eqnset : Line
  /-- The lines between the `EQNSET` line and the one that opens the spec set. -/
  stretch : List Line
  line : Line
  after : List Line

namespace SpecSetPlace

variable {p : SpecSetPlace} {origin : String} {lines : List Line} {s : SpecSet}

/-- The lines up to the marker of the section. -/
def start (p : SpecSetPlace) : List Line :=
  p.front ++ [p.marker]

/-- The lines of the section in front of the one that opens the spec set. -/
def inSection (p : SpecSetPlace) : List Line :=
  p.opening ++ p.eqnset :: p.stretch

/-- The lines up to the `EQNSET` line. -/
def upToEqnSet (p : SpecSetPlace) : List Line :=
  p.start ++ p.opening ++ [p.eqnset]

/-- Some lines of a timing text have a spec set at a place: its equation set is the one that the last
`EQNSET` line of the section names. -/
structure IsOf (p : SpecSetPlace) (origin : String) (lines : List Line) (s : SpecSet) : Prop where
  lines_eq : lines = p.start ++ p.inSection ++ p.line :: p.after
  opensPart : OpensAt (readLines origin TimingReader.read .start) TimingReader.opensPart p.front
    p.marker .values
  noPart : NoOpening (readLines origin TimingReader.read .start) TimingReader.opensPart p.start
    p.inSection
  namesEqnSet : OpensAt (readLines origin TimingReader.read .start) TimingReader.namesEqnSet
    (p.start ++ p.opening) p.eqnset s.eqnset
  noEqnSet : NoOpening (readLines origin TimingReader.read .start) TimingReader.namesEqnSet
    p.upToEqnSet p.stretch
  opensSpecSet : OpensAt (readLines origin TimingReader.read .start) TimingReader.opensSpecSet
    (p.start ++ p.inSection) p.line s.id

/-- What the reader knows where a spec set is opened. -/
theorem of_opensSpecSet {r : TimingReader} {line : Line} {id : SpecSetId}
    (h : r.opensSpecSet line = some id) :
    r.place.part = .values ∧ r.place.eqnset = some id.eqnset := by
  unfold TimingReader.opensSpecSet at h
  split at h
  · rename_i num description hform
    unfold TimingReader.valuesLine? at hform
    split at hform
    · rename_i hplace
      obtain ⟨eqnset, heqnset, hnum⟩ := Option.bind_eq_some_iff.mp h
      obtain ⟨n, -, hid⟩ := Option.bind_eq_some_iff.mp hnum
      cases hid
      exact ⟨hplace.1, heqnset⟩
    · cases hform
  · cases h

variable {r : TimingReader}

/-- Every spec set that has been read stands at a place. -/
theorem exists_isOf (hrun : readLines origin TimingReader.read .start lines = .ok r)
    (hs : s ∈ r.timing.specsets.items) : ∃ p : SpecSetPlace, p.IsOf origin lines s := by
  obtain ⟨before, line, after, rfl, m, hm, hbinding⟩ :=
    (TimingReader.exists_opensBinding_iff hrun s.binding).mp (List.mem_map_of_mem hs)
  obtain ⟨id, hid, hsame⟩ := Option.map_eq_some_iff.mp hbinding
  obtain rfl : id = s.id := congrArg SpecSetBinding.id hsame
  obtain ⟨hpart, heqnset⟩ := of_opensSpecSet hid
  -- the section that the line stands in
  obtain ⟨front, marker, inside, rfl, hopens, hnone⟩ := (lastOpening_of_run
    TimingReader.openPart rfl (fun _ _ _ _ _ ↦ TimingReader.openPart_read) hm).2 .values
    ((TimingReader.openPart_eq_some_iff (by decide)).mpr hpart)
  rw [List.append_cons front marker inside] at hm ⊢
  obtain ⟨m₀, hm₀, hinside⟩ := readLines_append_eq_ok_iff.mp hm
  have hstart := TimingReader.startOf_of_opensAt hopens hm₀
  -- the `EQNSET` line that was the last of the section
  obtain ⟨last, _, _, hlast, -, -, hnames⟩ :=
    TimingReader.named_of_run hm₀ (by rw [hstart]; rfl) hnone hinside
  have hnamed := hnames.eqnset
  rw [heqnset, hstart] at hnamed
  cases last with
  | none => cases hnamed
  | some eqnset =>
    cases hnamed
    obtain ⟨opening, named, stretch, rfl, hnamed, hrest⟩ := hlast
    exact ⟨⟨front, marker, opening, named, stretch, line, after⟩, rfl, hopens, hnone, hnamed, hrest,
      m, hm, hid⟩

/-- A spec set that stands at a place has what is named there. -/
theorem IsOf.named (h : p.IsOf origin lines s)
    (hrun : readLines origin TimingReader.read .start lines = .ok r)
    (hs : s ∈ r.timing.specsets.items) :
    ∃ m, readLines origin TimingReader.read .start (p.start ++ p.inSection) = .ok m ∧
      m.place.specSetWavetable = s.wavetable ∧ m.place.specSetCheck = s.check := by
  obtain ⟨m, hm, hid⟩ := h.opensSpecSet
  refine ⟨m, hm, ?_⟩
  have hbinding : m.opensBinding p.line =
      some ⟨s.id, m.place.specSetWavetable, m.place.specSetCheck⟩ := by
    rw [TimingReader.opensBinding, hid, Option.map_some]
  have hmem := (TimingReader.exists_opensBinding_iff hrun _).mpr
    ⟨_, _, _, h.lines_eq, m, hm, hbinding⟩
  obtain ⟨s', hs', hsame⟩ := List.mem_map.mp hmem
  -- the keys of spec sets are distinct
  obtain rfl := List.inj_on_of_nodup_map r.timing.specsets.nodup hs' hs
    (congrArg SpecSetBinding.id hsame)
  exact ⟨(congrArg SpecSetBinding.wavetable hsame).symm, (congrArg SpecSetBinding.check hsame).symm⟩

/-- A spec set that stands at a place has what was named last between the marker of its section and
its own line. -/
theorem IsOf.openedLast (h : p.IsOf origin lines s)
    (hrun : readLines origin TimingReader.read .start lines = .ok r)
    (hs : s ∈ r.timing.specsets.items) :
    OpenedLast (readLines origin TimingReader.read .start) TimingReader.namesWaveTable p.start
      p.inSection s.wavetable ∧
    OpenedLast (readLines origin TimingReader.read .start) TimingReader.setsCheck p.start
      p.inSection s.check := by
  obtain ⟨m, hm, hwavetable, hcheck⟩ := h.named hrun hs
  obtain ⟨m₀, hm₀, hinside⟩ := readLines_append_eq_ok_iff.mp hm
  have hstart := TimingReader.startOf_of_opensAt h.opensPart hm₀
  obtain ⟨_, wavetable, check, -, hlast, hlast', hnames⟩ :=
    TimingReader.named_of_run hm₀ (by rw [hstart]; rfl) h.noPart hinside
  have hnamed := hnames.wavetable
  have hset := hnames.check
  rw [hstart, TimingPlace.startOf, Option.or_none] at hnamed hset
  rw [← hwavetable, ← hcheck, hnamed, hset]
  exact ⟨hlast, hlast'⟩

/-- When something is named behind the `EQNSET` line, the spec set has what was named last there. -/
theorem IsOf.openedLast_stretch (h : p.IsOf origin lines s)
    (hrun : readLines origin TimingReader.read .start lines = .ok r)
    (hs : s ∈ r.timing.specsets.items) :
    (¬NoOpening (readLines origin TimingReader.read .start) TimingReader.namesWaveTable p.upToEqnSet
        p.stretch →
      OpenedLast (readLines origin TimingReader.read .start) TimingReader.namesWaveTable p.upToEqnSet
        p.stretch s.wavetable) ∧
    (¬NoOpening (readLines origin TimingReader.read .start) TimingReader.setsCheck p.upToEqnSet
        p.stretch →
      OpenedLast (readLines origin TimingReader.read .start) TimingReader.setsCheck p.upToEqnSet
        p.stretch s.check) := by
  obtain ⟨m, hm, hwavetable, hcheck⟩ := h.named hrun hs
  have hinside : p.inSection = (p.opening ++ [p.eqnset]) ++ p.stretch := by
    rw [inSection, List.append_cons]
  have hnone := h.noPart
  rw [hinside] at hm hnone
  rw [← List.append_assoc] at hm
  obtain ⟨m₁, hm₁, hstretch⟩ := readLines_append_eq_ok_iff.mp hm
  obtain ⟨m₀, hm₀, hopening⟩ := readLines_append_eq_ok_iff.mp hm₁
  have hpart : m₁.place.part = .values := by
    have hstart := TimingReader.startOf_of_opensAt h.opensPart hm₀
    exact TimingReader.part_of_noOpening (by decide) hm₀ (by rw [hstart]; rfl)
      hnone.of_append_left hopening
  obtain ⟨_, wavetable, check, -, hlast, hlast', hnames⟩ :=
    TimingReader.named_of_run hm₁ hpart hnone.of_append_right hstretch
  rw [upToEqnSet, List.append_assoc, ← hwavetable, ← hcheck, hnames.wavetable, hnames.check]
  constructor
  · intro hsome
    rwa [hlast.or_eq hsome]
  · intro hsome
    rwa [hlast'.or_eq hsome]

end SpecSetPlace

/-- In an accepted timing text every spec set stands at a place, behind an `EQNSET` line of a
section. Its wave table and its check mode are the last ones that are named in the section before it,
or absent when there are none. When they are named behind the `EQNSET` line, the last ones there are
those of the spec set. -/
theorem specSet_bindings (text origin : String) (timing : Timing) (header : Line)
    (lines : List Line) (hparse : Timing.parse text origin = .ok timing)
    (hlines : significantLines text = header :: lines) (s : SpecSet)
    (hs : s ∈ timing.specsets.items) :
    (∃ p : SpecSetPlace, p.IsOf origin lines s) ∧
    ∀ p : SpecSetPlace, p.IsOf origin lines s →
      (OpenedLast (readLines origin TimingReader.read .start) TimingReader.namesWaveTable p.start
          p.inSection s.wavetable ∧
        OpenedLast (readLines origin TimingReader.read .start) TimingReader.setsCheck p.start
          p.inSection s.check) ∧
      (¬NoOpening (readLines origin TimingReader.read .start) TimingReader.namesWaveTable
          p.upToEqnSet p.stretch →
        OpenedLast (readLines origin TimingReader.read .start) TimingReader.namesWaveTable
          p.upToEqnSet p.stretch s.wavetable) ∧
      (¬NoOpening (readLines origin TimingReader.read .start) TimingReader.setsCheck p.upToEqnSet
          p.stretch →
        OpenedLast (readLines origin TimingReader.read .start) TimingReader.setsCheck p.upToEqnSet
          p.stretch s.check) := by
  obtain ⟨r, hrun, -, rfl⟩ := Timing.run_of_parse hparse hlines
  exact ⟨SpecSetPlace.exists_isOf hrun hs, fun p hp ↦
    ⟨hp.openedLast hrun hs, hp.openedLast_stretch hrun hs⟩⟩

/-- A timing text whose second equation set names no wave table and no check mode. -/
def twoEqnSetsText : String :=
  "hp93000,timing,0.1\nEQSP TIM,SPS,#1\nEQNSET 1\nWAVETBL \"a\"\nCHECK all\nSPECSET 1\n" ++
    "EQNSET 2\nSPECSET 1\n"

/-- The place of the spec set of its second equation set. -/
def secondSpecSet : SpecSetPlace where
  front := []
  marker := ⟨2, "EQSP TIM,SPS,#1"⟩
  opening := [⟨3, "EQNSET 1"⟩, ⟨4, "WAVETBL \"a\""⟩, ⟨5, "CHECK all"⟩, ⟨6, "SPECSET 1"⟩]
  eqnset := ⟨7, "EQNSET 2"⟩
  stretch := []
  line := ⟨8, "SPECSET 1"⟩
  after := []

theorem significantLines_twoEqnSetsText :
    significantLines twoEqnSetsText = ⟨1, "hp93000,timing,0.1"⟩ ::
      (secondSpecSet.start ++ secondSpecSet.inSection ++ [secondSpecSet.line]) := by
  decide

theorem parse_twoEqnSetsText :
    ∃ timing, Timing.parse twoEqnSetsText "a" = .ok timing ∧
      (timing.specsets.items.map SpecSet.binding ==
        [⟨⟨1, 1⟩, some "a", some "all"⟩, ⟨⟨2, 1⟩, some "a", some "all"⟩]) = true :=
  exists_eq_ok_of_any (by decide +kernel)

/-- The second spec set of the text with the place that it has there. -/
theorem exists_secondSpecSet :
    ∃ timing s, Timing.parse twoEqnSetsText "a" = .ok timing ∧ s ∈ timing.specsets.items ∧
      s.binding = ⟨⟨2, 1⟩, some "a", some "all"⟩ ∧ secondSpecSet.IsOf "a"
        (secondSpecSet.start ++ secondSpecSet.inSection ++ [secondSpecSet.line]) s := by
  obtain ⟨timing, hparse, hbindings⟩ := parse_twoEqnSetsText
  obtain ⟨s, hs, hbinding⟩ : ∃ s ∈ timing.specsets.items,
      s.binding = ⟨⟨2, 1⟩, some "a", some "all"⟩ :=
    List.mem_map.mp (eq_of_beq hbindings ▸ by decide)
  have hid : s.id = ⟨2, 1⟩ := congrArg SpecSetBinding.id hbinding
  have heqnset : s.eqnset = 2 := congrArg SpecSetId.eqnset hid
  refine ⟨timing, s, hparse, hs, hbinding, rfl, ⟨_, rfl, rfl⟩, ?_, ?_, noOpening_nil _, ?_⟩
  · exact noOpening_of_forall fun _ l hl ↦ TimingReader.opensPart_eq_none (by revert l; decide)
  · rw [heqnset]
    exact ⟨_, rfl, rfl⟩
  · rw [hid]
    exact ⟨_, rfl, rfl⟩

/-- The spec set of the second equation set has the names that were given for the first. -/
theorem specSet_bindings_second :
    ∃ timing s, Timing.parse twoEqnSetsText "a" = .ok timing ∧ s ∈ timing.specsets.items ∧
      s.id = ⟨2, 1⟩ ∧ OpenedLast (readLines "a" TimingReader.read .start)
        TimingReader.namesWaveTable secondSpecSet.start secondSpecSet.inSection s.wavetable := by
  obtain ⟨timing, s, hparse, hs, hbinding, hplace⟩ := exists_secondSpecSet
  have hbound := (specSet_bindings _ _ _ _ _ hparse significantLines_twoEqnSetsText s hs).2
  exact ⟨timing, s, hparse, hs, congrArg SpecSetBinding.id hbinding, (hbound _ hplace).1.1⟩

/-- The wave table and the check mode of a spec set need not be named behind the `EQNSET` line of its
equation set. -/
theorem not_forall_bindings_since_eqnset :
    (¬∀ (text origin : String) (timing : Timing) (header : Line) (lines : List Line) (s : SpecSet)
      (p : SpecSetPlace), Timing.parse text origin = .ok timing →
      significantLines text = header :: lines → s ∈ timing.specsets.items → p.IsOf origin lines s →
      OpenedLast (readLines origin TimingReader.read .start) TimingReader.namesWaveTable
        p.upToEqnSet p.stretch s.wavetable) ∧
    ¬∀ (text origin : String) (timing : Timing) (header : Line) (lines : List Line) (s : SpecSet)
      (p : SpecSetPlace), Timing.parse text origin = .ok timing →
      significantLines text = header :: lines → s ∈ timing.specsets.items → p.IsOf origin lines s →
      OpenedLast (readLines origin TimingReader.read .start) TimingReader.setsCheck p.upToEqnSet
        p.stretch s.check := by
  obtain ⟨timing, s, hparse, hs, hbinding, hplace⟩ := exists_secondSpecSet
  constructor
  · intro hall
    have hlast := hall _ _ _ _ _ _ _ hparse significantLines_twoEqnSetsText hs hplace
    have hnamed : s.wavetable = some "a" := congrArg SpecSetBinding.wavetable hbinding
    rw [hlast.eq_none (noOpening_nil _)] at hnamed
    cases hnamed
  · intro hall
    have hlast := hall _ _ _ _ _ _ _ hparse significantLines_twoEqnSetsText hs hplace
    have hnamed : s.check = some "all" := congrArg SpecSetBinding.check hbinding
    rw [hlast.eq_none (noOpening_nil _)] at hnamed
    cases hnamed

end TesterSetup
