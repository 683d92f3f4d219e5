import TesterSetup.Proofs.TimingReading
import TesterSetup.Reader.Levels
import TesterSetup.Reader.Master
import TesterSetup.Reader.PatternMaster
import TesterSetup.Reader.Vector

/-!
# Where errors are

An error about a line of a text is at that line and reports it. Every function that places a line
is given the line to report, and passes it on to the functions it calls: `Reports T r` says that a
reading `r` fails with texts that have the property `T` only, and is closed under the ways in which
readings are put together. So each function has one lemma, up to the lemma about one line of each
language (`reports_read`, `reports_place`, `reports_ofText`), and a run fails at one of its lines
(`exists_of_readLines_eq_error`).

There is one exception. What follows the mark `HRPF` of a wave table line is placed as a line of its
own, so what is reported is the text behind the mark (`TimingReader.reports_placeWaveTables`).
-/

set_option autoImplicit false

namespace TesterSetup

open TesterSetup.Text

/-! ### Reports -/

/-- The text that an error about the form of a line reports. An error about what a line adds to the
setup reports no text. -/
def LineError.reported : LineError → Option String
  | .misfit text _ => some text
  | .unsupported text _ => some text
  | .model _ => none

/-- The complaint that a text ends in an open specification, which is about no line of its own. -/
def Complaint.isUnclosed : Complaint → Bool
  | .unclosedSpecification _ => true
  | _ => false

/-- An error about a line that reports texts with a property only. -/
def LineError.ReportsOnly (T : String → Prop) : LineError → Prop
  | .misfit text complaint => T text ∧ complaint.isUnclosed = false
  | .unsupported text _ => T text
  | .model _ => True

/-- A reading that fails, if it does, with a report of a text that has a property. -/
def Reports {α : Type} (T : String → Prop) (r : LineResult α) : Prop :=
  ∀ e, r = .error e → e.ReportsOnly T

namespace Reports

variable {α β : Type} {T : String → Prop} {line : String}

theorem ok (a : α) : Reports T (.ok a) :=
  nofun

theorem about {c : Complaint} (hline : T line) (hc : c.isUnclosed = false) :
    Reports (α := α) T (c.about line) := by
  intro e he
  cases he
  exact ⟨hline, hc⟩

theorem ofLine {r : Except Complaint α} (hline : T line)
    (hr : ∀ c, r = .error c → c.isUnclosed = false) : Reports T (ofLine line r) := by
  intro e he
  obtain ⟨c, hc, rfl⟩ := except_mapError_eq_error_iff.mp he
  exact ⟨hline, hr c hc⟩

theorem ofModel (r : Except ModelError α) : Reports T (ofModel r) := by
  intro e he
  obtain ⟨cause, -, rfl⟩ := except_mapError_eq_error_iff.mp he
  trivial

theorem bind {x : LineResult α} {f : α → LineResult β} (hx : Reports T x)
    (hf : ∀ a, Reports T (f a)) : Reports T (x >>= f) := by
  intro e he
  cases x with
  | ok a => exact hf a e he
  | error cause =>
    cases he
    exact hx _ rfl

theorem updateLast {l : List α} {c : Complaint} {f : α → LineResult α} (hline : T line)
    (hc : c.isUnclosed = false) (hf : ∀ a, Reports T (f a)) :
    Reports T (updateLast l (.misfit line c) f) := by
  unfold TesterSetup.updateLast
  split
  · exact about hline hc
  · exact bind (hf _) fun _ ↦ ok _

theorem foldlM {l : List α} {f : β → α → LineResult β} (hf : ∀ b a, Reports T (f b a)) (b : β) :
    Reports T (l.foldlM f b) := by
  induction l generalizing b with
  | nil => exact ok b
  | cons a l ih =>
    rw [List.foldlM_cons]
    exact bind (hf b a) ih

theorem mapM {l : List α} {f : α → LineResult β} (hf : ∀ a, Reports T (f a)) :
    Reports T (l.mapM f) := by
  induction l with
  | nil => exact ok []
  | cons a l ih =>
    rw [List.mapM_cons]
    exact bind (hf a) fun _ ↦ bind ih fun _ ↦ ok _

end Reports

/-! ### Numbers and values -/

section Numbers

variable {text : String} {c : Complaint}

theorem isUnclosed_of_readSetNum (h : readSetNum text = .error c) : c.isUnclosed = false := by
  unfold readSetNum at h
  split at h
  · cases h
  · cases h
    rfl

theorem isUnclosed_of_readSpecSetNum (h : readSpecSetNum text = .error c) :
    c.isUnclosed = false := by
  unfold readSpecSetNum at h
  cases hnum : readSetNum text with
  | error c' =>
    rw [hnum] at h
    cases h
    exact isUnclosed_of_readSetNum hnum
  | ok num =>
    rw [hnum] at h
    change (if maxSpecSetNum < num then _ else _) = _ at h
    split at h
    · cases h
      rfl
    · cases h

theorem isUnclosed_of_readBounded {bound : Nat}
    (h : VectorRecord.readBounded bound text = .error c) :
    c.isUnclosed = false := by
  unfold VectorRecord.readBounded at h
  split at h
  · cases h
  · cases h
    rfl

theorem isUnclosed_of_number? {v : Form.SpecValue} {field : ValueField} {place : Nat}
    (h : v.number? field place = .error c) : c.isUnclosed = false := by
  unfold Form.SpecValue.number? at h
  split at h
  · cases h
  · split at h
    · cases h
    · cases h
      rfl

theorem isUnclosed_of_spec {v : Form.SpecValue} (h : v.spec = .error c) :
    c.isUnclosed = false := by
  unfold Form.SpecValue.spec at h
  cases hactual : v.number? .actual 0 with
  | error c' =>
    rw [hactual] at h
    cases h
    exact isUnclosed_of_number? hactual
  | ok actual =>
    cases hminimum : v.number? .minimum 1 with
    | error c' =>
      rw [hactual, hminimum] at h
      cases h
      exact isUnclosed_of_number? hminimum
    | ok minimum =>
      cases hmaximum : v.number? .maximum 2 with
      | error c' =>
        rw [hactual, hminimum, hmaximum] at h
        cases h
        exact isUnclosed_of_number? hmaximum
      | ok maximum =>
        rw [hactual, hminimum, hmaximum] at h
        cases h

end Numbers

/-! ### Levels -/

namespace LevelsReader

variable {T : String → Prop} {r : LevelsReader} {line : String}

theorem reports_openSection (hline : T line) : Reports T (r.openSection line) := by
  unfold openSection
  dsimp only
  split
  · exact .about hline rfl
  · exact .ok _
  · exact .ok _
  · exact .about hline rfl

theorem reports_inEqnSet {f : LevelsEqnSet → LineResult LevelsEqnSet} (hline : T line)
    (hf : ∀ e, Reports T (f e)) : Reports T (r.inEqnSet line f) := by
  unfold inEqnSet
  split
  · exact .about hline rfl
  · exact .bind (.ofModel _) fun e ↦ .bind (hf e) fun _ ↦ .ok _

theorem reports_inLevelSet {f : LevelSet → LineResult LevelSet} (hline : T line)
    (hf : ∀ s, Reports T (f s)) (e : LevelsEqnSet) : Reports T (r.inLevelSet line f e) := by
  unfold inLevelSet
  split
  · exact .about hline rfl
  · exact .bind (.ofModel _) fun s ↦ .bind (hf s) fun _ ↦ .ok _

theorem reports_inPinBlock {f : SettingBlock → LineResult SettingBlock} (hline : T line)
    (hf : ∀ b, Reports T (f b)) (e : LevelsEqnSet) : Reports T (r.inPinBlock line f e) :=
  reports_inLevelSet hline (fun _ ↦ .bind (.updateLast hline rfl hf) fun _ ↦ .ok _) e

theorem reports_inDpsBlock {missing : Complaint} {f : SettingBlock → LineResult SettingBlock}
    (hline : T line) (hmissing : missing.isUnclosed = false) (hf : ∀ b, Reports T (f b))
    (e : LevelsEqnSet) : Reports T (inDpsBlock line missing f e) :=
  .bind (.updateLast hline hmissing hf) fun _ ↦ .ok _

theorem reports_assign {name expression : String} (hline : T line) (e : LevelsEqnSet) :
    Reports T (r.assign line name expression e) := by
  unfold assign
  dsimp only
  split
  · exact reports_inDpsBlock hline rfl (fun _ ↦ .ofModel _) e
  · split
    · exact reports_inPinBlock hline (fun _ ↦ .ofModel _) e
    · split
      · exact .ofModel _
      · exact .about hline rfl

theorem reports_placeEquations (hline : T line) (form : EquationsLine) :
    Reports T (r.placeEquations line form) := by
  cases form with
  | eqnset num description =>
    exact .bind (.ofLine hline fun _ ↦ isUnclosed_of_readSetNum) fun _ ↦
      .bind (.ofModel _) fun _ ↦ .ok _
  | heading => exact .ok _
  | dpsPins pins => exact reports_inEqnSet hline fun _ ↦ .ok _
  | levelSet num description =>
    unfold placeEquations
    dsimp only
    split
    · exact .about hline rfl
    · exact .bind (.ofLine hline fun _ ↦ isUnclosed_of_readSetNum) fun _ ↦
        .bind (reports_inEqnSet hline fun _ ↦ .bind (.ofModel _) fun _ ↦ .ok _) fun _ ↦ .ok _
  | pins pins => exact reports_inEqnSet hline (reports_inLevelSet hline fun _ ↦ .ok _)
  | term value => exact reports_inEqnSet hline (reports_inPinBlock hline fun _ ↦ .ofModel _)
  | unsupportedTerm => exact reports_inEqnSet hline fun _ ↦ .about hline rfl
  | protect => exact reports_inEqnSet hline (reports_inDpsBlock hline rfl fun _ ↦ .ofModel _)
  | assignment name expression => exact reports_inEqnSet hline (reports_assign hline)
  | declaration name unit => exact reports_inEqnSet hline fun _ ↦ .ok _
  | unplaced => exact reports_inEqnSet hline fun _ ↦ .about hline rfl

theorem reports_placeValues (hline : T line) (form : ValuesLine) :
    Reports T (r.placeValues line form) := by
  cases form with
  | eqnset num => exact .bind (.ofLine hline fun _ ↦ isUnclosed_of_readSetNum) fun _ ↦ .ok _
  | specSet num description =>
    unfold placeValues
    dsimp only
    split
    · exact .about hline rfl
    · exact .bind (.ofLine hline fun _ ↦ isUnclosed_of_readSpecSetNum) fun _ ↦
        .bind (.ofModel _) fun _ ↦ .ok _
  | value value =>
    refine .bind (.ofLine hline fun _ ↦ isUnclosed_of_spec) fun spec ↦ ?_
    split
    · exact .about hline rfl
    · exact .bind (.ofModel _) fun _ ↦ .ok _
  | unplaced => exact .about hline rfl

theorem reports_read {line : Line} (hline : T line.text) : Reports T (r.read line) := by
  unfold read
  dsimp only
  split
  · intro e he
    cases he
    exact hline
  · split
    · exact reports_openSection hline
    · split
      · exact .ok _
      · split
        · exact .about hline rfl
        · exact reports_placeEquations hline _
        · exact reports_placeValues hline _

end LevelsReader

/-! ### Specifications -/

namespace SpecificationBlock

variable {T : String → Prop} {b : SpecificationBlock} {line : String}

theorem reports_inPortSet (hline : T line) (f : PortSet → PortSet) :
    Reports T (b.inPortSet line f) :=
  .bind (.updateLast hline rfl fun _ ↦ .ok _) fun _ ↦ .ok _

theorem reports_addValue (spec : Spec) : Reports T (b.addValue spec) := by
  unfold addValue
  split
  · exact .bind (.ofModel _) fun _ ↦ .ok _
  · exact .bind (.ofModel _) fun _ ↦ .ok _

theorem reports_place (hline : T line) (form : SpecificationLine) :
    Reports T (b.place line form) := by
  cases form with
  | textAfterBrace => exact .about hline rfl
  | closing =>
    unfold place
    dsimp only
    split
    · exact .about hline rfl
    · exact .ok _
  | eqnset num => exact .bind (.ofLine hline fun _ ↦ isUnclosed_of_readSetNum) fun _ ↦ .ok _
  | value value =>
    exact .bind (.ofLine hline fun _ ↦ isUnclosed_of_spec) fun _ ↦ reports_addValue _
  | unplaced => exact .bind (reports_inPortSet hline _) fun _ ↦ .about hline rfl
  | wavetable name => exact reports_inPortSet hline _
  | port name => exact reports_inPortSet hline _
  | phase => exact reports_inPortSet hline _
  | sequence group => exact reports_inPortSet hline _
  | clock name => exact reports_inPortSet hline _
  | _ => exact .ok _

theorem reports_complete (hline : T line) : Reports T (b.complete line) := by
  refine .foldlM (fun s p ↦ ?_) _
  split
  · exact .about hline rfl
  · exact .bind (.ofModel _) fun _ ↦ .ok _

end SpecificationBlock

/-! ### Timing -/

namespace TimingReader

variable {T : String → Prop} {r : TimingReader} {line : String}

theorem reports_openSection (hline : T line) : Reports T (r.openSection line) := by
  unfold openSection
  split
  · exact .about hline rfl
  · split
    · exact .about hline rfl
    · split
      · exact .ok _
      · exact .ok _
      · exact .ok _
      · exact .about hline rfl

theorem reports_readWaveEdges (hline : T line) (text : String) :
    Reports T (readWaveEdges line text) := by
  refine .mapM fun entry ↦ ?_
  split
  · exact .about hline rfl
  · exact .bind (.ofModel _) fun _ ↦ .ok _

theorem reports_inWaveTable {f : WaveTable → LineResult WaveTable} (hline : T line)
    (hf : ∀ w, Reports T (f w)) : Reports T (r.inWaveTable line f) := by
  unfold inWaveTable
  split
  · exact .about hline rfl
  · exact .bind (.ofModel _) fun w ↦ .bind (hf w) fun _ ↦ .ok _

theorem reports_inWaveformBlock {f : WaveformBlock → LineResult WaveformBlock} (hline : T line)
    (hf : ∀ b, Reports T (f b)) : Reports T (r.inWaveformBlock line f) :=
  reports_inWaveTable hline fun _ ↦ .bind (.updateLast hline rfl hf) fun _ ↦ .ok _

theorem reports_placeWaveTableRest (hline : T line) (form : WaveTableLine) :
    Reports T (r.placeWaveTableRest line form) := by
  cases form with
  | waveform index edges cycle =>
    exact .bind (reports_readWaveEdges hline edges) fun _ ↦
      reports_inWaveformBlock hline fun _ ↦ .bind (.ofModel _) fun _ ↦ .ok _
  | brk edges =>
    exact .bind (reports_readWaveEdges hline edges) fun _ ↦
      reports_inWaveformBlock hline fun _ ↦ .ok _
  | _ => exact .about hline rfl

/-- What follows a mark is reported in place of the line. -/
theorem reports_placeWaveTables {form : WaveTableLine} (hline : T line)
    (hrest : ∀ rest, form = .hrpf rest → T rest) : Reports T (r.placeWaveTables line form) := by
  cases form with
  | statemap => exact .bind (reports_inWaveformBlock hline fun _ ↦ .ok _) fun _ ↦ .ok _
  | table name => exact .bind (.ofModel _) fun _ ↦ .ok _
  | defines ports => exact reports_inWaveTable hline fun _ ↦ .ok _
  | pins pins => exact reports_inWaveTable hline fun _ ↦ .ok _
  | hrpf rest =>
    exact .bind (reports_inWaveTable hline fun _ ↦ .ok _) fun _ ↦
      reports_placeWaveTableRest (hrest rest rfl) _
  | waveform index edges cycle =>
    exact reports_placeWaveTableRest hline (.waveform index edges cycle)
  | brk edges => exact reports_placeWaveTableRest hline (.brk edges)
  | unplaced => exact reports_placeWaveTableRest (r := r) hline .unplaced

theorem reports_inEqnSet {f : TimingEqnSet → LineResult TimingEqnSet} (hline : T line)
    (hf : ∀ e, Reports T (f e)) : Reports T (r.inEqnSet line f) := by
  unfold inEqnSet
  split
  · exact .about hline rfl
  · exact .bind (.ofModel _) fun e ↦ .bind (hf e) fun _ ↦ .ok _

theorem reports_inTimingSet {f : TimingSet → LineResult TimingSet} (hline : T line)
    (hf : ∀ s, Reports T (f s)) (e : TimingEqnSet) : Reports T (r.inTimingSet line f e) := by
  unfold inTimingSet
  split
  · exact .about hline rfl
  · exact .bind (.ofModel _) fun s ↦ .bind (hf s) fun _ ↦ .ok _

theorem reports_placeEdge {name expression : String} (hline : T line) (e : TimingEqnSet) :
    Reports T (r.placeEdge line name expression e) :=
  .bind (.ofModel _) fun _ ↦ reports_inTimingSet hline
    (fun _ ↦ .bind (.updateLast hline rfl fun _ ↦ .ofModel _) fun _ ↦ .ok _) e

theorem reports_placeEquations (hline : T line) (form : TimingEquationsLine) :
    Reports T (r.placeEquations line form) := by
  cases form with
  | eqnset num description =>
    exact .bind (.ofLine hline fun _ ↦ isUnclosed_of_readSetNum) fun _ ↦
      .bind (.ofModel _) fun _ ↦ .ok _
  | heading => exact .ok _
  | timingSet num description =>
    unfold placeEquations
    dsimp only
    split
    · exact .about hline rfl
    · exact .bind (.ofLine hline fun _ ↦ isUnclosed_of_readSetNum) fun _ ↦
        .bind (reports_inEqnSet hline fun _ ↦ .bind (.ofModel _) fun _ ↦ .ok _) fun _ ↦ .ok _
  | defines ports => exact reports_inEqnSet hline fun _ ↦ .ok _
  | pins pins => exact reports_inEqnSet hline (reports_inTimingSet hline fun _ ↦ .ok _)
  | period expression =>
    refine reports_inEqnSet hline (reports_inTimingSet hline fun s ↦ ?_)
    split
    · exact .about hline rfl
    · exact .ok _
  | assignment name expression =>
    refine reports_inEqnSet hline fun e ↦ ?_
    split
    · exact reports_placeEdge hline e
    · exact .ofModel _
  | declaration name unit => exact reports_inEqnSet hline fun _ ↦ .ok _
  | unplaced => exact reports_inEqnSet hline fun _ ↦ .about hline rfl

theorem reports_placeInBlock (hline : T line) (b : SpecificationBlock) :
    Reports T (r.placeInBlock line b) := by
  refine .bind (SpecificationBlock.reports_place hline _) fun b' ↦ ?_
  split
  · exact .bind (SpecificationBlock.reports_complete hline) fun _ ↦
      .bind (.ofModel _) fun _ ↦ .ok _
  · exact .ok _

theorem reports_placeValues (hline : T line) (form : TimingValuesLine) :
    Reports T (r.placeValues line form) := by
  cases form with
  | eqnset num => exact .bind (.ofLine hline fun _ ↦ isUnclosed_of_readSetNum) fun _ ↦ .ok _
  | specSet num description =>
    unfold placeValues
    dsimp only
    split
    · exact .about hline rfl
    · exact .bind (.ofLine hline fun _ ↦ isUnclosed_of_readSpecSetNum) fun _ ↦
        .bind (.ofModel _) fun _ ↦ .ok _
  | value value =>
    refine .bind (.ofLine hline fun _ ↦ isUnclosed_of_spec) fun spec ↦ ?_
    split
    · exact .about hline rfl
    · exact .bind (.ofModel _) fun _ ↦ .ok _
  | unplaced => exact .about hline rfl
  | _ => exact .ok _

theorem reports_placeLine (hline : T line)
    (hrest : ∀ rest, WaveTableLine.ofText line = .hrpf rest → T rest) :
    Reports T (r.placeLine line) := by
  unfold placeLine
  split
  · exact reports_openSection hline
  · split
    · exact .ok _
    · split
      · exact .about hline rfl
      · exact reports_placeWaveTables hline hrest
      · exact reports_placeEquations hline _
      · split
        · exact reports_placeInBlock hline _
        · exact reports_placeValues hline _

theorem reports_read {line : Line} (hline : T line.text)
    (hrest : ∀ rest, WaveTableLine.ofText line.text = .hrpf rest → T rest) :
    Reports T (r.read line) := by
  unfold read
  dsimp only
  split
  · intro e he
    cases he
    exact hline
  · split
    · exact .ok _
    · split
      · split
        · exact reports_placeLine hline hrest
        · exact reports_inWaveformBlock hline fun _ ↦ .ok _
      · exact reports_placeLine hline hrest

end TimingReader

/-! ### Master files, pattern master files and vector files -/

section Others

variable {T : String → Prop} {line : Line}

theorem MasterFile.reports_addEntry {κ : Type} [DecidableEq κ] (kind : EntryKind) (key : String)
    (entries : OrderedMap κ MasterEntry) (k : κ) (entry : MasterEntry) :
    Reports T (addEntry kind key entries k entry) := by
  unfold addEntry
  split
  · intro e he
    cases he
    trivial
  · exact .ok _

theorem MasterFile.reports_add {m : MasterFile} {text key : String} {entry : MasterEntry}
    (htext : T text) (kind : EntryKind) : Reports T (m.add text key entry kind) := by
  cases kind with
  | eqnset =>
    unfold add
    dsimp only
    split
    · exact .about htext rfl
    · exact .bind (reports_addEntry _ _ _ _ _) fun _ ↦ .ok _
  | _ => exact .bind (reports_addEntry _ _ _ _ _) fun _ ↦ .ok _

theorem MasterFile.reports_place {kind : MasterKind} {m : MasterFile} (hline : T line.text) :
    Reports T (m.place kind line) := by
  unfold place
  dsimp only
  split
  · exact .ok _
  · split
    · exact .about hline rfl
    · split
      · exact .about hline rfl
      · exact reports_add hline _

theorem PatternMaster.Reader.reports_read {r : Reader} (hline : T line.text) :
    Reports T (r.read line) := by
  unfold read
  split
  · exact .ok _
  · split
    · exact .ok _
    · split
      · exact .about hline rfl
      · exact .ok _
      · split
        · exact .about hline rfl
        · exact .ok _

theorem VectorRecord.reports_ofText {text : String} (htext : T text) :
    Reports T (ofText text) := by
  unfold ofText
  split
  · rename_i form _
    cases form with
    | memory area mem size port =>
      exact .bind (.ofModel _) fun _ ↦
        .bind (.ofLine htext fun _ ↦ isUnclosed_of_readBounded) fun _ ↦ .ok _
    | label name kind start stop wavetableOrSync port =>
      exact .bind (.ofModel _) fun _ ↦
        .bind (.ofLine htext fun _ ↦ isUnclosed_of_readBounded) fun _ ↦
          .bind (.ofLine htext fun _ ↦ isUnclosed_of_readBounded) fun _ ↦ .ok _
    | instruction cmdNo opcode operand1 operand2 mem port =>
      exact .bind (.ofModel _) fun _ ↦
        .bind (.ofLine htext fun _ ↦ isUnclosed_of_readBounded) fun _ ↦ .ok _
  · exact .about htext rfl

end Others

/-! ### Runs -/

section Runs

variable {origin : String} {lines : List Line} {e : ReadError}

theorem VectorRecord.exists_of_readAll_eq_error {mainSeen : Bool}
    (h : readAll origin mainSeen lines = .error e) :
    ∃ line ∈ lines, ∃ cause, ofText line.text = .error cause ∧
      e = .line ⟨origin, line.number⟩ cause := by
  induction lines generalizing mainSeen with
  | nil => cases h
  | cons line rest ih =>
    have hlater : ∀ mainSeen, readAll origin mainSeen rest = .error e →
        ∃ line' ∈ line :: rest, ∃ cause, ofText line'.text = .error cause ∧
          e = .line ⟨origin, line'.number⟩ cause := by
      intro mainSeen hrest
      obtain ⟨line', hline', hfails⟩ := ih hrest
      exact ⟨line', List.mem_cons_of_mem _ hline', hfails⟩
    rw [readAll] at h
    split at h
    · cases h
    · split at h
      · exact hlater mainSeen h
      · split at h
        · rename_i cause hcause
          cases h
          exact ⟨line, List.mem_cons_self, cause, hcause, rfl⟩
        · rename_i record _
          dsimp only at h
          split at h
          · cases h
          · cases hrest : readAll origin (mainSeen || record.isMain) rest with
            | error e' =>
              rw [hrest] at h
              cases h
              exact hlater _ hrest
            | ok records =>
              rw [hrest] at h
              cases h

end Runs

/-! ### Texts -/

/-- The line of a text with a number, trimmed. Lines are counted from one. -/
structure IsLineAt (text : String) (k : Nat) (line : String) : Prop where
  one_le : 1 ≤ k
  le_length : k ≤ (lines text.toList).length
  eq : ((lines text.toList)[k - 1]?).map (fun raw ↦ String.ofList (trim raw)) = some line

theorem isLineAt_of_mem_numberedLines {text : String} {line : Line}
    (h : line ∈ numberedLines text) : IsLineAt text line.number line.text := by
  obtain ⟨⟨raw, k⟩, hmem, rfl⟩ := List.mem_map.mp h
  obtain ⟨hle, hlt, hraw⟩ := List.mem_zipIdx hmem
  have hindex : k - 1 < (lines text.toList).length := by omega
  refine ⟨hle, by dsimp only; omega, ?_⟩
  dsimp only
  rw [List.getElem?_eq_getElem hindex, Option.map_some, hraw]

/-- An error about a line of a text is at that line: what is reported is the line, or another text
that stands for it. -/
def LocatedIn (text origin : String) (standsFor : String → String → Prop) (e : ReadError) : Prop :=
  ∀ location cause t, e = .line location cause → cause.reported = some t →
    location.origin = origin ∧ ∃ line, IsLineAt text location.line line ∧ standsFor t line

/-- An error about one of some lines of a text is at that line. -/
theorem locatedIn_of_reports {text origin : String} {standsFor : String → String → Prop}
    {line : Line} {cause : LineError} (hline : line ∈ numberedLines text)
    (h : cause.ReportsOnly (standsFor · line.text)) :
    LocatedIn text origin standsFor (.line ⟨origin, line.number⟩ cause) := by
  intro location cause' t heq ht
  cases heq
  refine ⟨rfl, line.text, isLineAt_of_mem_numberedLines hline, ?_⟩
  cases cause with
  | misfit text complaint =>
    cases ht
    exact h.1
  | unsupported text construct =>
    cases ht
    exact h
  | model cause => cases ht

theorem locatedIn_of_afterHeader {text origin expected : String} {accept : String → Bool}
    {all : List Line} {standsFor : String → String → Prop} {e : ReadError}
    (h : afterHeader origin expected accept all = .error e) :
    LocatedIn text origin standsFor e := by
  intro location cause t heq
  subst heq
  cases all with
  | nil => cases h
  | cons line rest =>
    rw [afterHeader] at h
    split at h <;> cases h

theorem mem_numberedLines_of_mem_significantLines {text : String} {line : Line}
    (h : line ∈ significantLines text) : line ∈ numberedLines text :=
  (List.mem_filter.mp h).1

/-- A run over lines of a text fails at one of them. -/
theorem locatedIn_of_readLines {σ : Type} {text origin : String} {lines : List Line}
    {step : σ → Line → LineResult σ} {s : σ} {e : ReadError} {standsFor : String → String → Prop}
    (hlines : ∀ line ∈ lines, line ∈ numberedLines text)
    (hstep : ∀ s line, Reports (standsFor · line.text) (step s line))
    (h : readLines origin step s lines = .error e) : LocatedIn text origin standsFor e := by
  obtain ⟨line, hline, t, cause, hcause, rfl⟩ := exists_of_readLines_eq_error h
  exact locatedIn_of_reports (hlines line hline) (hstep t line cause hcause)

section Parsers

variable {text origin : String} {e : ReadError}

theorem mem_numberedLines_of_afterHeader {expected : String} {accept : String → Bool}
    {lines : List Line}
    (h : afterHeader origin expected accept (significantLines text) = .ok lines) :
    ∀ line ∈ lines, line ∈ numberedLines text :=
  fun line hline ↦ mem_numberedLines_of_mem_significantLines (mem_of_afterHeader h line hline)

theorem Levels.locatedIn_of_parse (h : parse text origin = .error e) :
    LocatedIn text origin Eq e := by
  rcases except_bind_eq_error_iff.mp h with hheader | ⟨lines, hlines, h⟩
  · exact locatedIn_of_afterHeader hheader
  · have hread : readLines origin LevelsReader.read .start lines = .error e :=
      (except_bind_eq_error_iff.mp h).resolve_right fun ⟨r, _, hr⟩ ↦ nomatch hr
    exact locatedIn_of_readLines (mem_numberedLines_of_afterHeader hlines)
      (fun _ _ ↦ LevelsReader.reports_read rfl) hread

theorem MasterFile.locatedIn_of_parse {kind : MasterKind} (h : parse kind text origin = .error e) :
    LocatedIn text origin Eq e := by
  rcases except_bind_eq_error_iff.mp h with hheader | ⟨lines, hlines, hread⟩
  · exact locatedIn_of_afterHeader hheader
  · exact locatedIn_of_readLines (mem_numberedLines_of_afterHeader hlines)
      (fun _ _ ↦ MasterFile.reports_place rfl) hread

theorem PatternMaster.locatedIn_of_parse (h : parse text origin = .error e) :
    LocatedIn text origin Eq e := by
  rcases except_bind_eq_error_iff.mp h with hheader | ⟨lines, hlines, h⟩
  · exact locatedIn_of_afterHeader hheader
  · have hread : readLines origin Reader.read ⟨.preamble, none, .empty⟩ lines = .error e :=
      (except_bind_eq_error_iff.mp h).resolve_right fun ⟨r, _, hr⟩ ↦ nomatch hr
    have hmem : ∀ line ∈ lines, line ∈ numberedLines text :=
      fun line hline ↦ (List.mem_filter.mp (mem_of_afterHeader hlines line hline)).1
    exact locatedIn_of_readLines hmem (fun _ _ ↦ Reader.reports_read rfl) hread

theorem VectorFile.locatedIn_of_parse (h : parse text origin = .error e) :
    LocatedIn text origin Eq e := by
  rcases except_bind_eq_error_iff.mp h with hheader | ⟨lines, hlines, h⟩
  · exact locatedIn_of_afterHeader hheader
  · have hread : VectorRecord.readAll origin false lines = .error e :=
      (except_bind_eq_error_iff.mp h).resolve_right fun ⟨r, _, hr⟩ ↦ nomatch hr
    obtain ⟨line, hline, cause, hcause, rfl⟩ := VectorRecord.exists_of_readAll_eq_error hread
    have hreports : cause.ReportsOnly (· = line.text) :=
      VectorRecord.reports_ofText (T := (· = line.text)) rfl cause hcause
    exact locatedIn_of_reports (mem_of_afterHeader hlines line hline) hreports

/-- What an error about a timing line reports: the line, or what follows its mark `HRPF`. -/
def IsLineOrMarked (t line : String) : Prop :=
  t = line ∨ ∃ rest, line.toList = "HRPF".toList ++ rest ∧ t = String.ofList (trim rest)

theorem isMarked_of_hrpf {line rest : String} (h : WaveTableLine.ofText line = .hrpf rest) :
    IsLineOrMarked rest line := by
  cases WaveTableLine.found_of_ofText h with
  | hrpf hline hrest => exact .inr ⟨_, hline, hrest⟩

theorem TimingReader.reports_read_line (r : TimingReader) (line : Line) :
    Reports (IsLineOrMarked · line.text) (r.read line) :=
  reports_read (.inl rfl) fun _ ↦ isMarked_of_hrpf

/-- A specification that is open at the end of a text was opened by one of its lines. -/
theorem TimingReader.ne_nil_of_block {lines : List Line} {r : TimingReader}
    {b : SpecificationBlock} (h : readLines origin read .start lines = .ok r)
    (hblock : r.place.block = some b) : lines ≠ [] := by
  rintro rfl
  cases h
  cases hblock

/-- A timing text is rejected at its header or at a line, or because a specification is open at its
last significant line. -/
theorem Timing.of_parse_eq_error (h : parse text origin = .error e) :
    (LocatedIn text origin IsLineOrMarked e ∧
      ∀ location t name, e ≠ .line location (.misfit t (.unclosedSpecification name))) ∨
    ∃ line name, (significantLines text).getLast? = some line ∧
      e = .line ⟨origin, line.number⟩ (.misfit line.text (.unclosedSpecification name)) := by
  rcases except_bind_eq_error_iff.mp h with hheader | ⟨lines, hlines, h⟩
  · refine .inl ⟨locatedIn_of_afterHeader hheader, fun location t name heq ↦ ?_⟩
    have hlocated : LocatedIn text origin (fun _ _ ↦ False) e := locatedIn_of_afterHeader hheader
    obtain ⟨-, -, -, hfalse⟩ := hlocated location _ t heq rfl
    exact hfalse
  rcases except_bind_eq_error_iff.mp h with hread | ⟨r, hr, hfinish⟩
  · obtain ⟨line, hline, s, cause, hcause, rfl⟩ := exists_of_readLines_eq_error hread
    have hmem := mem_of_afterHeader hlines line hline
    have hreports := TimingReader.reports_read_line s line cause hcause
    refine .inl ⟨locatedIn_of_reports (mem_numberedLines_of_mem_significantLines hmem) hreports, ?_⟩
    intro location t name heq
    cases heq
    exact absurd hreports.2 (by simp [Complaint.isUnclosed])
  · unfold TimingReader.finish at hfinish
    split at hfinish
    · cases hfinish
    · rename_i b hblock
      cases hfinish
      have hne := TimingReader.ne_nil_of_block hr hblock
      refine .inr ⟨lines.getLast hne, b.specification.name, ?_, ?_⟩
      · cases hall : significantLines text with
        | nil =>
          rw [hall] at hlines
          cases hlines
        | cons header rest =>
          rw [hall, afterHeader] at hlines
          split at hlines
          · cases hlines
            rw [List.getLast?_cons, List.getLast?_eq_some_getLast hne, Option.getD_some]
          · cases hlines
      · rw [List.getLast?_eq_some_getLast hne, Option.getD_some]

end Parsers

/-- The errors of all parsers that are about the form of a line are at a line of the text and
report it, trimmed. In a timing text, the line that reports an open specification is the last
significant one, and a wave table line with the mark `HRPF` may be reported by what follows the
mark. -/
theorem errors_located (text origin : String) (e : ReadError) :
    (Levels.parse text origin = .error e → LocatedIn text origin Eq e) ∧
    (Timing.parse text origin = .error e → LocatedIn text origin IsLineOrMarked e ∧
      ∀ location t name, e = .line location (.misfit t (.unclosedSpecification name)) →
        location.origin = origin ∧
          (significantLines text).getLast? = some ⟨location.line, t⟩) ∧
    (VectorFile.parse text origin = .error e → LocatedIn text origin Eq e) ∧
    (∀ kind, MasterFile.parse kind text origin = .error e → LocatedIn text origin Eq e) ∧
    (PatternMaster.parse text origin = .error e → LocatedIn text origin Eq e) := by
  refine ⟨Levels.locatedIn_of_parse, fun h ↦ ?_, VectorFile.locatedIn_of_parse,
    fun _ ↦ MasterFile.locatedIn_of_parse, PatternMaster.locatedIn_of_parse⟩
  rcases Timing.of_parse_eq_error h with ⟨hlocated, hnone⟩ | ⟨line, name, hlast, rfl⟩
  · exact ⟨hlocated, fun location t name heq ↦ absurd heq (hnone location t name)⟩
  · have hmem := mem_numberedLines_of_mem_significantLines (List.mem_of_getLast? hlast)
    constructor
    · intro location cause t heq ht
      cases heq
      cases ht
      exact ⟨rfl, line.text, isLineAt_of_mem_numberedLines hmem, .inl rfl⟩
    · intro location t name' heq
      cases heq
      exact ⟨rfl, hlast⟩

/-- A timing text with nothing that is known behind the mark of a wave table. -/
def markedText : String :=
  "hp93000,timing,0.1\nEQSP TIM,WVT,#1\nWAVETBL w\nHRPF garbage\n"

/-- A timing text that ends in an open specification and a comment. -/
def unclosedText : String :=
  "hp93000,timing,0.1\nEQSP TIM,SPS,#1\nSPECIFICATION s \x7b\n# end\n"

theorem parse_markedText :
    Timing.parse markedText "a" = .error (.line ⟨"a", 4⟩ (.misfit "garbage" .noPlacement)) :=
  rfl

theorem errors_located_unplaced :
    LocatedIn "hp93000,level,0.1\nVDD 3\n" "a" Eq
        (.line ⟨"a", 2⟩ (.misfit "VDD 3" .noPlacement)) ∧
      LocatedIn markedText "a" IsLineOrMarked
        (.line ⟨"a", 4⟩ (.misfit "garbage" .noPlacement)) ∧
      (significantLines unclosedText).getLast? = some ⟨3, "SPECIFICATION s \x7b"⟩ ∧
      LocatedIn "hp93000,vector,0.1\nSQPX\n" "a" Eq
        (.line ⟨"a", 2⟩ (.misfit "SQPX" .noPlacement)) ∧
      LocatedIn "hp93000,level_master_file,0.1\n\n EQNSET 1\n" "a" Eq
        (.line ⟨"a", 3⟩ (.misfit "EQNSET 1" .unsupportedMasterLine)) ∧
      LocatedIn "hp93000,pattern_master_file,0.1\na.binl\n" "a" Eq
        (.line ⟨"a", 2⟩ (.misfit "a.binl" .noPlacement)) := by
  have hlevels := (errors_located "hp93000,level,0.1\nVDD 3\n" "a" _).1 rfl
  have hmarked := ((errors_located markedText "a" _).2.1 parse_markedText).1
  have hunclosed := ((errors_located unclosedText "a" _).2.1 rfl).2 ⟨"a", 3⟩ _ "s" rfl
  have hvector := (errors_located "hp93000,vector,0.1\nSQPX\n" "a" _).2.2.1 rfl
  have hmaster :=
    (errors_located "hp93000,level_master_file,0.1\n\n EQNSET 1\n" "a" _).2.2.2.1 .levels rfl
  have hpattern :=
    (errors_located "hp93000,pattern_master_file,0.1\na.binl\n" "a" _).2.2.2.2 rfl
  exact ⟨hlevels, hmarked, hunclosed.2, hvector, hmaster, hpattern⟩

/-- What follows a mark is no line of the text, so not every error reports the line where it is. -/
theorem not_forall_errors_located :
    ¬∀ (text origin : String) (e : ReadError), Timing.parse text origin = .error e →
      LocatedIn text origin Eq e := by
  intro hall
  obtain ⟨-, line, hline, rfl⟩ := hall _ _ _ parse_markedText _ _ "garbage" rfl rfl
  exact absurd hline.eq (by decide)

end TesterSetup
