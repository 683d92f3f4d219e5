import TesterSetup.Proofs.LastOpenings
import TesterSetup.Proofs.LevelsPlaces
import TesterSetup.Proofs.TimingSections

/-!
# Where spec values go

A spec value outside a specification goes to the spec set that the last `SPECSET` line before it
opened, and a text that gives a value before any such line is rejected
(`values_in_last_specSet`). What stands between the two lines does not matter: a new equation set, a
new section or a specification does not close the spec set, so a value behind one of these still goes
to the old spec set (`not_forall_values_rejected`).
-/

set_option autoImplicit false

namespace TesterSetup

open TesterSetup.Text

/-! ### Spec sets in the order of their lines -/

/-- The key of the spec set that was added last. -/
def lastSpecSetId (specsets : Container SpecSet) : Option SpecSetId :=
  specsets.keys.getLast?

theorem lastSpecSetId_eq (specsets : Container SpecSet) :
    lastSpecSetId specsets = specsets.last?.map SpecSet.id :=
  List.getLast?_map

theorem lastSpecSetId_add {specsets specsets' : Container SpecSet} {s : SpecSet}
    (h : specsets.add s = .ok specsets') : lastSpecSetId specsets' = some s.id := by
  rw [lastSpecSetId, Container.keys, Container.items_add h, List.map_append]
  exact List.getLast?_concat

theorem lastSpecSetId_replace (specsets : Container SpecSet) (s : SpecSet) :
    lastSpecSetId (specsets.replace s) = lastSpecSetId specsets := by
  rw [lastSpecSetId, Container.keys_replace, lastSpecSetId]

/-- The key of a spec set from the equation set that is open and the number as it is written. -/
def specSetKey (eqnset : Option Nat) (num : String) : Option SpecSetId := do
  return ⟨← eqnset, ← (readSpecSetNum num).toOption⟩

/-! ### Levels -/

theorem ValuesLine.numbered?_of_specSet {line num description : String}
    (h : ofText line = .specSet num description) :
    Form.numbered? "SPECSET" line.toList = some (num, description) := by
  unfold ofText at h
  dsimp only at h
  split at h
  · cases h
  · split at h
    · rename_i hform
      cases h
      exact hform
    · split at h <;> cases h

namespace LevelsReader

variable {r r' : LevelsReader} {line : String}

/-- The form of a line of the spec set section. -/
def valuesLine? (r : LevelsReader) (line : Line) : Option ValuesLine :=
  if r.part = .values ∧ Form.startsWith line.text "EQSP" = false ∧ isSkipped line.text = false then
    some (.ofText line.text)
  else none

/-- The key of the spec set that a line opens. -/
def opensSpecSet (r : LevelsReader) (line : Line) : Option SpecSetId :=
  match r.valuesLine? line with
  | some (.specSet num _) => specSetKey r.eqnset num
  | _ => none

/-- A line of the spec set section opens a spec set, or leaves the last one that was opened. -/
theorem lastSpecSetId_placeValues {form : ValuesLine} (h : r.placeValues line form = .ok r') :
    lastSpecSetId r'.levels.specsets =
      Option.or (match form with
        | .specSet num _ => specSetKey r.eqnset num
        | _ => none) (lastSpecSetId r.levels.specsets) := by
  cases form with
  | eqnset num =>
    obtain ⟨num, -, h⟩ := except_bind_eq_ok_iff.mp h
    cases h
    rfl
  | specSet num description =>
    unfold placeValues at h
    dsimp only at h ⊢
    split at h
    · cases h
    · rename_i eqnset heqnset
      obtain ⟨n, hnum, h⟩ := except_bind_eq_ok_iff.mp h
      obtain ⟨specsets, hadd, h⟩ := except_bind_eq_ok_iff.mp h
      cases h
      rw [lastSpecSetId_add (except_mapError_eq_ok_iff.mp hadd), heqnset, specSetKey,
        except_mapError_eq_ok_iff.mp hnum]
      rfl
  | value value =>
    obtain ⟨spec, -, h⟩ := except_bind_eq_ok_iff.mp h
    split at h
    · cases h
    · obtain ⟨specs, -, h⟩ := except_bind_eq_ok_iff.mp h
      cases h
      exact lastSpecSetId_replace _ _
  | unplaced => cases h

/-- A line opens a spec set, or leaves the last one that was opened. -/
theorem lastSpecSetId_read {line : Line} (h : r.read line = .ok r') :
    lastSpecSetId r'.levels.specsets =
      (r.opensSpecSet line).or (lastSpecSetId r.levels.specsets) := by
  have hnone : r.valuesLine? line = none → r'.levels.specsets = r.levels.specsets →
      lastSpecSetId r'.levels.specsets =
        (r.opensSpecSet line).or (lastSpecSetId r.levels.specsets) := by
    intro hline hsame
    rw [opensSpecSet, hline, hsame]
    rfl
  rcases read_cases h with ⟨heqsp, h⟩ | ⟨hskipped, rfl⟩ | ⟨-, -, hpart, h⟩ | ⟨heqsp, hkept, hpart, h⟩
  · exact hnone (if_neg (by simp [heqsp])) (by rw [(of_openSection h).2])
  · exact hnone (if_neg (by simp [hskipped])) rfl
  · exact hnone (if_neg (by simp [hpart])) (specsets_placeEquations h)
  · rw [lastSpecSetId_placeValues h, opensSpecSet, valuesLine?, if_pos ⟨hpart, heqsp, hkept⟩]
    cases ValuesLine.ofText line.text <;> rfl

theorem read_valuesLine {line : Line} {form : ValuesLine} (h : r.read line = .ok r')
    (hform : r.valuesLine? line = some form) : r.placeValues line.text form = .ok r' := by
  unfold valuesLine? at hform
  split at hform
  · rename_i hopen
    cases hform
    rcases read_cases h with ⟨heqsp, -⟩ | ⟨hskipped, -⟩ | ⟨-, -, hpart, -⟩ | ⟨-, -, -, h⟩
    · rw [hopen.2.1] at heqsp
      cases heqsp
    · rw [hopen.2.2] at hskipped
      cases hskipped
    · rw [hopen.1] at hpart
      cases hpart
    · exact h
  · cases hform

/-- Only a line of the form of `SPECSET` opens a spec set. -/
theorem opensSpecSet_eq_none {line : Line}
    (h : Form.numbered? "SPECSET" line.text.toList = none) : r.opensSpecSet line = none := by
  unfold opensSpecSet
  split
  · rename_i num description hform
    unfold valuesLine? at hform
    split at hform
    · rw [ValuesLine.numbered?_of_specSet (Option.some.inj hform)] at h
      cases h
    · cases hform
  · rfl

/-- A value is added to the spec set that was added last. -/
theorem of_placeValue {v : Form.SpecValue} (h : r.placeValues line (.value v) = .ok r') :
    ∃ id spec, lastSpecSetId r.levels.specsets = some id ∧ v.spec = .ok spec ∧
      r'.levels.Holds (.value id spec) := by
  obtain ⟨spec, hspec, h⟩ := except_bind_eq_ok_iff.mp h
  split at h
  · cases h
  · rename_i s hlast
    obtain ⟨specs, hadd, h⟩ := except_bind_eq_ok_iff.mp h
    cases h
    obtain ⟨-, hget, hadded⟩ := keeps_addValue hlast (except_mapError_eq_ok_iff.mp hadd)
    refine ⟨s.id, spec, ?_, except_mapError_eq_ok_iff.mp hspec, _, hget, hadded⟩
    rw [lastSpecSetId_eq, hlast]
    rfl

end LevelsReader

/-- A line of a levels text that comes after some lines gives a spec value. -/
def Levels.GivesValue (origin : String) (before : List Line) (line : Line) (v : Form.SpecValue) :
    Prop :=
  ∃ r, readLines origin LevelsReader.read .start before = .ok r ∧
    r.valuesLine? line = some (.value v)

/-- The last line that opens a spec set among some lines of a levels text. -/
def Levels.LastSpecSet (origin : String) :
    List Line → List Line → Line → List Line → SpecSetId → Prop :=
  LastOpening (readLines origin LevelsReader.read .start) LevelsReader.opensSpecSet

/-- Some lines of a levels text open no spec set. -/
def Levels.NoSpecSet (origin : String) (lines : List Line) : Prop :=
  NoOpening (readLines origin LevelsReader.read .start) LevelsReader.opensSpecSet [] lines

theorem LevelsReader.lastSpecSet_of_run {origin : String} {lines : List Line} {r : LevelsReader}
    (h : readLines origin read .start lines = .ok r) :
    ∀ id, lastSpecSetId r.levels.specsets = some id → ∃ front opening between,
      Levels.LastSpecSet origin lines front opening between id :=
  (lastOpening_of_run (fun r ↦ lastSpecSetId r.levels.specsets) rfl
    (fun _ _ _ _ _ hread ↦ lastSpecSetId_read hread) h).2

/-- In an accepted levels text a value is in the spec set that was opened last before its line. -/
theorem Levels.value_in_lastSpecSet {text origin : String} {levels : Levels} {header line : Line}
    {before after : List Line} {v : Form.SpecValue} (hparse : parse text origin = .ok levels)
    (hlines : significantLines text = header :: before ++ line :: after)
    (hvalue : GivesValue origin before line v) :
    ∃ front opening between id spec, LastSpecSet origin before front opening between id ∧
      v.spec = .ok spec ∧ levels.Holds (.value id spec) := by
  obtain ⟨r, r', hr, hread, hholds⟩ := of_parse hparse hlines
  obtain ⟨r₁, hr₁, hform⟩ := hvalue
  rw [hr] at hr₁
  cases hr₁
  obtain ⟨id, spec, hid, hspec, hheld⟩ :=
    LevelsReader.of_placeValue (LevelsReader.read_valuesLine hread hform)
  obtain ⟨front, opening, between, hfound⟩ := LevelsReader.lastSpecSet_of_run hr id hid
  exact ⟨front, opening, between, id, spec, hfound, hspec, hholds _ hheld⟩

/-! ### Timing -/

theorem TimingValuesLine.numbered?_of_specSet {line num description : String}
    (h : ofText line = .specSet num description) :
    Form.numbered? "SPECSET" line.toList = some (num, description) := by
  unfold ofText at h
  dsimp only at h
  split at h
  · cases h
  · split at h
    · cases h
    · split at h
      · cases h
      · split at h
        · cases h
        · split at h
          · rename_i hform
            cases h
            exact hform
          · split at h <;> cases h

/-- The key of a spec set with its wave table and check mode. -/
structure SpecSetBinding where
  id : SpecSetId
  wavetable : Option String
  check : Option String
  deriving DecidableEq

/-- What a spec set is bound to. -/
def SpecSet.binding (s : SpecSet) : SpecSetBinding :=
  ⟨s.id, s.wavetable, s.check⟩

/-- A spec set with one more value has the bindings that it had. -/
theorem map_binding_replace {specsets : Container SpecSet} {s : SpecSet} {specs : Container Spec}
    (hlast : specsets.last? = some s) :
    (specsets.replace { s with specs }).items.map SpecSet.binding =
      specsets.items.map SpecSet.binding := by
  obtain ⟨front, hitems⟩ := List.getLast?_eq_some_iff.mp hlast
  have hreplaced : (specsets.replace { s with specs }).items = front ++ [{ s with specs }] :=
    Container.items_replace_of_last hitems rfl
  rw [hreplaced, hitems, List.map_append, List.map_append]
  rfl

namespace TimingReader

variable {r r' : TimingReader} {line : String}

/-- The form of a line of the spec set section outside a specification. -/
def valuesLine? (r : TimingReader) (line : Line) : Option TimingValuesLine :=
  if r.place.part = .values ∧ r.place.block = none ∧ Form.startsWith line.text "NOOP" = false ∧
      Form.startsWith line.text "EQSP" = false ∧ isSkipped line.text = false then
    some (.ofText line.text)
  else none

/-- The key of the spec set that a line opens. -/
def opensSpecSet (r : TimingReader) (line : Line) : Option SpecSetId :=
  match r.valuesLine? line with
  | some (.specSet num _) => specSetKey r.place.eqnset num
  | _ => none

/-- The spec set that a line opens with the wave table and the check mode that are named there. -/
def opensBinding (r : TimingReader) (line : Line) : Option SpecSetBinding :=
  (r.opensSpecSet line).map fun id ↦ ⟨id, r.place.specSetWavetable, r.place.specSetCheck⟩

theorem bindings_placeValues {line : String} {form : TimingValuesLine}
    (h : r.placeValues line form = .ok r') :
    r'.timing.specsets.items.map SpecSet.binding =
      r.timing.specsets.items.map SpecSet.binding ++
        (Option.map (fun id ↦ ⟨id, r.place.specSetWavetable, r.place.specSetCheck⟩)
          (match form with
            | .specSet num _ => specSetKey r.place.eqnset num
            | _ => none)).toList := by
  cases form with
  | eqnset num =>
    obtain ⟨num, -, h⟩ := except_bind_eq_ok_iff.mp h
    cases h
    exact (List.append_nil _).symm
  | specSet num description =>
    unfold placeValues at h
    dsimp only at h ⊢
    split at h
    · cases h
    · rename_i eqnset heqnset
      obtain ⟨n, hnum, h⟩ := except_bind_eq_ok_iff.mp h
      obtain ⟨specsets, hadd, h⟩ := except_bind_eq_ok_iff.mp h
      cases h
      rw [Container.items_add (except_mapError_eq_ok_iff.mp hadd), heqnset, specSetKey,
        except_mapError_eq_ok_iff.mp hnum, List.map_append]
      rfl
  | value value =>
    obtain ⟨spec, -, h⟩ := except_bind_eq_ok_iff.mp h
    split at h
    · cases h
    · rename_i s hlast
      obtain ⟨specs, -, h⟩ := except_bind_eq_ok_iff.mp h
      cases h
      exact (map_binding_replace hlast).trans (List.append_nil _).symm
  | unplaced => cases h
  | _ =>
    cases h
    exact (List.append_nil _).symm

theorem read_valuesLine {line : Line} {form : TimingValuesLine} (hr : r.Consistent)
    (h : r.read line = .ok r') (hform : r.valuesLine? line = some form) :
    r.placeValues line.text form = .ok r' := by
  unfold valuesLine? at hform
  split at hform
  · rename_i hopen
    obtain ⟨hpart, hblock, hnoop, heqsp, hkept⟩ := hopen
    cases hform
    rcases placeLine_of_read hr (by rw [hpart]; decide) h with ⟨hskipped, -⟩ | ⟨-, h⟩
    · rw [hnoop] at hskipped
      cases hskipped
    · unfold placeLine at h
      rwa [heqsp, hkept, if_neg Bool.false_ne_true, if_neg Bool.false_ne_true, hpart, hblock] at h
  · cases hform

/-- A line of the spec set section outside a specification is placed there. Any other line leaves the
spec sets as they are. -/
theorem valuesLine?_cases {line : Line} (hr : r.Consistent) (h : r.read line = .ok r') :
    (∃ form, r.valuesLine? line = some form ∧ r.placeValues line.text form = .ok r') ∨
      (r.valuesLine? line = none ∧ r'.timing.specsets = r.timing.specsets) := by
  cases hform : r.valuesLine? line with
  | some form => exact .inl ⟨form, rfl, read_valuesLine hr h hform⟩
  | none =>
    refine .inr ⟨rfl, ?_⟩
    rcases read_cases h with ⟨-, rfl⟩ | ⟨-, -, -, h⟩ | ⟨hnoop, h⟩
    · rfl
    · obtain ⟨w, rfl⟩ := frame_inWaveTable h
      rfl
    · rcases placeLine_cases h with ⟨-, h⟩ | ⟨-, -, rfl⟩ |
        ⟨heqsp, hkept, ⟨-, h⟩ | ⟨-, h⟩ | ⟨-, b, -, h⟩ | ⟨hpart, hblock, -⟩⟩
      · rw [(of_openSection h).2.1]
        rfl
      · rfl
      · rw [(frame_placeWaveTables h).2.1]
        rfl
      · rw [(frame_placeEquations h).2]
        rfl
      · rw [timing_placeInBlock h]
        rfl
      · unfold valuesLine? at hform
        rw [if_pos ⟨hpart, hblock, hnoop, heqsp, hkept⟩] at hform
        cases hform

/-- The bindings of the spec sets change by those that a line opens. -/
theorem bindings_read {line : Line} (hr : r.Consistent) (h : r.read line = .ok r') :
    r'.timing.specsets.items.map SpecSet.binding =
      r.timing.specsets.items.map SpecSet.binding ++ (r.opensBinding line).toList := by
  rcases valuesLine?_cases hr h with ⟨form, hform, h⟩ | ⟨hform, hsame⟩
  · rw [bindings_placeValues h, opensBinding, opensSpecSet, hform]
    cases form <;> rfl
  · rw [hsame, opensBinding, opensSpecSet, hform]
    exact (List.append_nil _).symm

/-- A line opens a spec set, or leaves the last one that was opened. -/
theorem lastSpecSetId_read {line : Line} (hr : r.Consistent) (h : r.read line = .ok r') :
    lastSpecSetId r'.timing.specsets =
      (r.opensSpecSet line).or (lastSpecSetId r.timing.specsets) := by
  have hkeys := congrArg (fun bindings ↦ (bindings.map SpecSetBinding.id).getLast?)
    (bindings_read hr h)
  rw [List.map_append, List.getLast?_append, List.map_map, List.map_map] at hkeys
  refine hkeys.trans (congrArg (Option.or · _) ?_)
  rw [opensBinding]
  cases r.opensSpecSet line <;> rfl

/-- Only a line of the form of `SPECSET` opens a spec set. -/
theorem opensSpecSet_eq_none {line : Line}
    (h : Form.numbered? "SPECSET" line.text.toList = none) : r.opensSpecSet line = none := by
  unfold opensSpecSet
  split
  · rename_i num description hform
    unfold valuesLine? at hform
    split at hform
    · rw [TimingValuesLine.numbered?_of_specSet (Option.some.inj hform)] at h
      cases h
    · cases hform
  · rfl

/-- A value is added to the spec set that was added last. -/
theorem of_placeValue {v : Form.SpecValue} (h : r.placeValues line (.value v) = .ok r') :
    ∃ id spec, lastSpecSetId r.timing.specsets = some id ∧ v.spec = .ok spec ∧
      r'.timing.Holds (.value id spec) := by
  obtain ⟨spec, hspec, h⟩ := except_bind_eq_ok_iff.mp h
  split at h
  · cases h
  · rename_i s hlast
    obtain ⟨specs, hadd, h⟩ := except_bind_eq_ok_iff.mp h
    cases h
    obtain ⟨-, hget, hadded⟩ := keeps_addValue hlast (except_mapError_eq_ok_iff.mp hadd)
    refine ⟨s.id, spec, ?_, except_mapError_eq_ok_iff.mp hspec, _, hget, hadded⟩
    rw [lastSpecSetId_eq, hlast]
    rfl

end TimingReader

/-- A line of a timing text that comes after some lines gives a spec value outside a
specification. -/
def Timing.GivesValue (origin : String) (before : List Line) (line : Line) (v : Form.SpecValue) :
    Prop :=
  ∃ r, readLines origin TimingReader.read .start before = .ok r ∧
    r.valuesLine? line = some (.value v)

/-- The last line that opens a spec set among some lines of a timing text. -/
def Timing.LastSpecSet (origin : String) :
    List Line → List Line → Line → List Line → SpecSetId → Prop :=
  LastOpening (readLines origin TimingReader.read .start) TimingReader.opensSpecSet

/-- Some lines of a timing text open no spec set. -/
def Timing.NoSpecSet (origin : String) (lines : List Line) : Prop :=
  NoOpening (readLines origin TimingReader.read .start) TimingReader.opensSpecSet [] lines

theorem TimingReader.lastSpecSet_of_run {origin : String} {lines : List Line} {r : TimingReader}
    (h : readLines origin read .start lines = .ok r) :
    ∀ id, lastSpecSetId r.timing.specsets = some id → ∃ front opening between,
      Timing.LastSpecSet origin lines front opening between id :=
  (lastOpening_of_run (fun r ↦ lastSpecSetId r.timing.specsets) rfl
    (fun _ _ _ _ hs hread ↦ lastSpecSetId_read (consistent_readLines hs) hread) h).2

/-- In an accepted timing text a value is in the spec set that was opened last before its line. -/
theorem Timing.value_in_lastSpecSet {text origin : String} {timing : Timing} {header line : Line}
    {before after : List Line} {v : Form.SpecValue} (hparse : parse text origin = .ok timing)
    (hlines : significantLines text = header :: before ++ line :: after)
    (hvalue : GivesValue origin before line v) :
    ∃ front opening between id spec, LastSpecSet origin before front opening between id ∧
      v.spec = .ok spec ∧ timing.Holds (.value id spec) := by
  obtain ⟨r, r', hr, hread, hholds⟩ := of_parse hparse hlines
  obtain ⟨r₁, hr₁, hform⟩ := hvalue
  rw [hr] at hr₁
  cases hr₁
  obtain ⟨id, spec, hid, hspec, hheld⟩ := TimingReader.of_placeValue
    (TimingReader.read_valuesLine (TimingReader.consistent_readLines hr) hread hform)
  obtain ⟨front, opening, between, hfound⟩ := TimingReader.lastSpecSet_of_run hr id hid
  exact ⟨front, opening, between, id, spec, hfound, hspec, hholds _ (.inl hheld)⟩

/-! ### Both languages -/

/-- In an accepted text every value outside a specification is in the spec set that was opened last
before its line, whatever stands between the two, and a text with a value before any spec set is
rejected. -/
theorem values_in_last_specSet (text origin : String) (header line : Line)
    (before after : List Line) (v : Form.SpecValue)
    (hlines : significantLines text = header :: before ++ line :: after) :
    (Levels.GivesValue origin before line v →
      (∀ levels, Levels.parse text origin = .ok levels → ∃ front opening between id spec,
        Levels.LastSpecSet origin before front opening between id ∧ v.spec = .ok spec ∧
          levels.Holds (.value id spec)) ∧
      (Levels.NoSpecSet origin before → ∃ e, Levels.parse text origin = .error e)) ∧
    (Timing.GivesValue origin before line v →
      (∀ timing, Timing.parse text origin = .ok timing → ∃ front opening between id spec,
        Timing.LastSpecSet origin before front opening between id ∧ v.spec = .ok spec ∧
          timing.Holds (.value id spec)) ∧
      (Timing.NoSpecSet origin before → ∃ e, Timing.parse text origin = .error e)) := by
  refine ⟨fun hvalue ↦ ⟨fun levels hparse ↦ ?_, fun hnone ↦ ?_⟩,
    fun hvalue ↦ ⟨fun timing hparse ↦ ?_, fun hnone ↦ ?_⟩⟩
  · exact Levels.value_in_lastSpecSet hparse hlines hvalue
  · cases hparse : Levels.parse text origin with
    | error e => exact ⟨e, rfl⟩
    | ok levels =>
      obtain ⟨front, opening, between, id, spec, hlast, -⟩ :=
        Levels.value_in_lastSpecSet hparse hlines hvalue
      exact absurd hnone hlast.not_noOpening
  · exact Timing.value_in_lastSpecSet hparse hlines hvalue
  · cases hparse : Timing.parse text origin with
    | error e => exact ⟨e, rfl⟩
    | ok timing =>
      obtain ⟨front, opening, between, id, spec, hlast, -⟩ :=
        Timing.value_in_lastSpecSet hparse hlines hvalue
      exact absurd hnone hlast.not_noOpening

/-- A levels text with a value for the second equation set, which has no spec set. -/
def strayLevelsText : String :=
  "hp93000,level,0.1\nEQSP LEV,SPS,#1\nEQNSET 1\nSPECSET 1\nVDD 3\nEQNSET 2\nVSS 0\n"

/-- Its lines between the header and the stray value. -/
def strayLevelsLines : List Line :=
  [⟨2, "EQSP LEV,SPS,#1"⟩, ⟨3, "EQNSET 1"⟩, ⟨4, "SPECSET 1"⟩, ⟨5, "VDD 3"⟩, ⟨6, "EQNSET 2"⟩]

/-- A timing text with a value behind a specification, in a section without spec sets. -/
def strayTimingText : String :=
  "hp93000,timing,0.1\nEQSP TIM,SPS,#1\nEQNSET 1\nSPECSET 1\nT 3\nEQSP TIM,SPS,#2\n" ++
    "SPECIFICATION all \x7b\n\x7d\nEQNSET 2\nT2 0\n"

/-- Its lines between the header and the stray value. -/
def strayTimingLines : List Line :=
  [⟨2, "EQSP TIM,SPS,#1"⟩, ⟨3, "EQNSET 1"⟩, ⟨4, "SPECSET 1"⟩, ⟨5, "T 3"⟩, ⟨6, "EQSP TIM,SPS,#2"⟩,
   ⟨7, "SPECIFICATION all \x7b"⟩, ⟨8, "\x7d"⟩, ⟨9, "EQNSET 2"⟩]

theorem significantLines_strayLevelsText :
    significantLines strayLevelsText =
      ⟨1, "hp93000,level,0.1"⟩ :: strayLevelsLines ++ ⟨7, "VSS 0"⟩ :: [] := by
  decide

theorem significantLines_strayTimingText :
    significantLines strayTimingText =
      ⟨1, "hp93000,timing,0.1"⟩ :: strayTimingLines ++ ⟨10, "T2 0"⟩ :: [] := by
  decide

theorem parse_strayLevelsText :
    ∃ levels, Levels.parse strayLevelsText "a" = .ok levels ∧
      (levels.specsets.keys == [⟨1, 1⟩]) = true :=
  exists_eq_ok_of_any (by decide)

theorem parse_strayTimingText :
    ∃ timing, Timing.parse strayTimingText "a" = .ok timing ∧
      (timing.specsets.keys == [⟨1, 1⟩]) = true :=
  exists_eq_ok_of_any (by decide +kernel)

theorem givesValue_strayLevelsText :
    Levels.GivesValue "a" strayLevelsLines ⟨7, "VSS 0"⟩ ⟨"VSS".toList, ["0".toList], [], []⟩ :=
  ⟨_, rfl, rfl⟩

theorem givesValue_strayTimingText :
    Timing.GivesValue "a" strayTimingLines ⟨10, "T2 0"⟩ ⟨"T2".toList, ["0".toList], [], []⟩ :=
  ⟨_, rfl, rfl⟩

/-- A levels text, and a timing text, that give a value before any spec set. -/
theorem noSpecSet_upToEqnSet :
    Levels.NoSpecSet "a" [⟨2, "EQSP LEV,SPS,#1"⟩, ⟨3, "EQNSET 1"⟩] ∧
      Timing.NoSpecSet "a" [⟨2, "EQSP TIM,SPS,#1"⟩, ⟨3, "EQNSET 1"⟩] :=
  ⟨noOpening_of_forall fun _ l hl ↦ LevelsReader.opensSpecSet_eq_none (by revert l; decide),
    noOpening_of_forall fun _ l hl ↦ TimingReader.opensSpecSet_eq_none (by revert l; decide)⟩

/-- Both stray values are in spec set 1 of equation set 1, though the lines in between name equation
set 2, and a value before any spec set makes a text be rejected. -/
theorem values_in_last_specSet_stray :
    (∃ levels spec, Levels.parse strayLevelsText "a" = .ok levels ∧
      (⟨"VSS".toList, ["0".toList], [], []⟩ : Form.SpecValue).spec = .ok spec ∧
        levels.Holds (.value ⟨1, 1⟩ spec)) ∧
    (∃ e, Levels.parse "hp93000,level,0.1\nEQSP LEV,SPS,#1\nEQNSET 1\nVSS 0\n" "a" = .error e) ∧
    (∃ timing spec, Timing.parse strayTimingText "a" = .ok timing ∧
      (⟨"T2".toList, ["0".toList], [], []⟩ : Form.SpecValue).spec = .ok spec ∧
        timing.Holds (.value ⟨1, 1⟩ spec)) ∧
    ∃ e, Timing.parse "hp93000,timing,0.1\nEQSP TIM,SPS,#1\nEQNSET 1\nT2 0\n" "a" = .error e := by
  refine ⟨?_, ?_, ?_, ?_⟩
  · obtain ⟨levels, hparse, hkeys⟩ := parse_strayLevelsText
    obtain ⟨front, opening, between, id, spec, -, hspec, hholds⟩ :=
      ((values_in_last_specSet _ _ _ _ _ _ _ significantLines_strayLevelsText).1
        givesValue_strayLevelsText).1 levels hparse
    obtain ⟨s, hs, hadded⟩ := hholds
    have hid : id ∈ levels.specsets.keys :=
      Container.key_of_get? hs ▸ List.mem_map_of_mem (Container.mem_of_get? hs)
    rw [eq_of_beq hkeys, List.mem_singleton] at hid
    exact ⟨levels, spec, hparse, hspec, s, hid ▸ hs, hadded⟩
  · exact ((values_in_last_specSet _ "a" ⟨1, "hp93000,level,0.1"⟩ ⟨4, "VSS 0"⟩
      [⟨2, "EQSP LEV,SPS,#1"⟩, ⟨3, "EQNSET 1"⟩] [] ⟨"VSS".toList, ["0".toList], [], []⟩
      (by decide)).1 ⟨_, rfl, rfl⟩).2 noSpecSet_upToEqnSet.1
  · obtain ⟨timing, hparse, hkeys⟩ := parse_strayTimingText
    obtain ⟨front, opening, between, id, spec, -, hspec, hholds⟩ :=
      ((values_in_last_specSet _ _ _ _ _ _ _ significantLines_strayTimingText).2
        givesValue_strayTimingText).1 timing hparse
    obtain ⟨s, hs, hadded⟩ := hholds
    have hid : id ∈ timing.specsets.keys :=
      Container.key_of_get? hs ▸ List.mem_map_of_mem (Container.mem_of_get? hs)
    rw [eq_of_beq hkeys, List.mem_singleton] at hid
    exact ⟨timing, spec, hparse, hspec, s, hid ▸ hs, hadded⟩
  · exact ((values_in_last_specSet _ "a" ⟨1, "hp93000,timing,0.1"⟩ ⟨4, "T2 0"⟩
      [⟨2, "EQSP TIM,SPS,#1"⟩, ⟨3, "EQNSET 1"⟩] [] ⟨"T2".toList, ["0".toList], [], []⟩
      (by decide)).2 ⟨_, rfl, rfl⟩).2 noSpecSet_upToEqnSet.2

/-- A line that names an equation set or marks a section. -/
def LeavesEqnSet (line : Line) : Prop :=
  Form.startsWith line.text "EQSP" = true ∨
    (Form.numbered? "EQNSET" line.text.toList).isSome = true

/-- A value can be accepted though an equation set, a section or a specification was opened behind
the last spec set: the value still goes to that spec set. -/
theorem not_forall_values_rejected :
    (¬∀ (text origin : String) (header opening line : Line) (before front between after : List Line)
      (v : Form.SpecValue) (id : SpecSetId),
      significantLines text = header :: before ++ line :: after →
      Levels.GivesValue origin before line v →
      Levels.LastSpecSet origin before front opening between id →
      (∃ l ∈ between, LeavesEqnSet l) →
      ∃ e, Levels.parse text origin = .error e) ∧
    (¬∀ (text origin : String) (header opening line : Line) (before front between after : List Line)
      (v : Form.SpecValue) (id : SpecSetId),
      significantLines text = header :: before ++ line :: after →
      Timing.GivesValue origin before line v →
      Timing.LastSpecSet origin before front opening between id →
      (∃ l ∈ between, LeavesEqnSet l) →
      ∃ e, Timing.parse text origin = .error e) ∧
    ¬∀ (text origin : String) (header opening line : Line) (before front between after : List Line)
      (v : Form.SpecValue) (id : SpecSetId),
      significantLines text = header :: before ++ line :: after →
      Timing.GivesValue origin before line v →
      Timing.LastSpecSet origin before front opening between id →
      (∃ l ∈ between, (Form.specification? l.text.toList).isSome = true) →
      ∃ e, Timing.parse text origin = .error e := by
  have hlevels : Levels.LastSpecSet "a" strayLevelsLines
      [⟨2, "EQSP LEV,SPS,#1"⟩, ⟨3, "EQNSET 1"⟩] ⟨4, "SPECSET 1"⟩
      [⟨5, "VDD 3"⟩, ⟨6, "EQNSET 2"⟩] ⟨1, 1⟩ :=
    ⟨rfl, ⟨_, rfl, rfl⟩,
      noOpening_of_forall fun _ l hl ↦ LevelsReader.opensSpecSet_eq_none (by revert l; decide)⟩
  have htiming : Timing.LastSpecSet "a" strayTimingLines
      [⟨2, "EQSP TIM,SPS,#1"⟩, ⟨3, "EQNSET 1"⟩] ⟨4, "SPECSET 1"⟩
      [⟨5, "T 3"⟩, ⟨6, "EQSP TIM,SPS,#2"⟩, ⟨7, "SPECIFICATION all \x7b"⟩, ⟨8, "\x7d"⟩,
        ⟨9, "EQNSET 2"⟩] ⟨1, 1⟩ :=
    ⟨rfl, ⟨_, rfl, rfl⟩,
      noOpening_of_forall fun _ l hl ↦ TimingReader.opensSpecSet_eq_none (by revert l; decide)⟩
  refine ⟨fun hall ↦ ?_, fun hall ↦ ?_, fun hall ↦ ?_⟩
  · obtain ⟨levels, hparse, -⟩ := parse_strayLevelsText
    obtain ⟨e, herror⟩ := hall _ _ _ _ _ _ _ _ _ _ _ significantLines_strayLevelsText
      givesValue_strayLevelsText hlevels ⟨⟨6, "EQNSET 2"⟩, by decide, .inr (by decide)⟩
    rw [hparse] at herror
    cases herror
  · obtain ⟨timing, hparse, -⟩ := parse_strayTimingText
    obtain ⟨e, herror⟩ := hall _ _ _ _ _ _ _ _ _ _ _ significantLines_strayTimingText
      givesValue_strayTimingText htiming ⟨⟨9, "EQNSET 2"⟩, by decide, .inr (by decide)⟩
    rw [hparse] at herror
    cases herror
  · obtain ⟨timing, hparse, -⟩ := parse_strayTimingText
    obtain ⟨e, herror⟩ := hall _ _ _ _ _ _ _ _ _ _ _ significantLines_strayTimingText
      givesValue_strayTimingText htiming ⟨⟨7, "SPECIFICATION all \x7b"⟩, by decide, by decide⟩
    rw [hparse] at herror
    cases herror

end TesterSetup
