import TesterSetup.Proofs.MainPrograms
import TesterSetup.Reader.Vector

/-!
# Spans of label records

How many instructions a MAIN label asks its file for. The record of the label gives the first and
the last command number, and the count is worked out in 32 bits: their distance, cut off at zero,
and one more. One record takes in every command number (`LabelRecord.SpansAll`), and its count
leaves the 32 bits and comes out as zero (`LabelRecord.span_of_spansAll`). The count of any other
record that is not inverted is exact (`LabelRecord.span_of_le`). An inverted record asks for a
single instruction, which its empty range then passes over, so its file is always rejected
(`Program.build_of_lt`).

Only files whose records fit a MAIN label are asked for anything (`VectorFile.HoldsMain`,
`VectorFile.holdsMain_or_rejected`). What they are asked for, and that the instructions of an
accepted file are exactly as many as its record has numbers, is `VectorFile.asked_of_main`. It needs
the record to stay in the 32 bits, as all do that are read from a text
(`VectorFile.bounds_of_parse`). For the record that takes in every number the count that is asked
for is wrong (`VectorFile.not_forall_asked_exactly`).
-/

set_option autoImplicit false

namespace TesterSetup

open Text

/-! ### Counts in 32 bits -/

namespace LabelRecord

/-- A record takes in every command number that 32 bits hold. -/
def SpansAll (r : LabelRecord) : Prop :=
  r.start = 0 ∧ r.stop + 1 = widthBound 32

instance (r : LabelRecord) : Decidable r.SpansAll :=
  inferInstanceAs (Decidable (_ ∧ _))

variable {r : LabelRecord}

theorem span_of_le (hle : r.start ≤ r.stop) (hstop : r.stop < widthBound 32)
    (hall : ¬r.SpansAll) : r.span = r.stop - r.start + 1 := by
  have hlt : r.stop - r.start + 1 < widthBound 32 := by
    unfold SpansAll at hall
    omega
  rw [span, Nat.mod_eq_of_lt hlt]

theorem span_of_spansAll (h : r.SpansAll) : r.span = 0 := by
  obtain ⟨hstart, hstop⟩ := h
  rw [span, hstart, Nat.sub_zero, hstop, Nat.mod_self]

end LabelRecord

/-! ### Records of texts -/

namespace VectorRecord

theorem lt_of_readBounded {bound n : Nat} {text : String} (h : readBounded bound text = .ok n) :
    n < bound := by
  unfold readBounded at h
  split at h
  · rename_i m hm
    cases h
    exact readNat?_lt hm
  · cases h

theorem bounds_of_ofText {line : String} {r : LabelRecord} (h : ofText line = .ok (.label r)) :
    r.start < widthBound 32 ∧ r.stop < widthBound 32 := by
  unfold ofText at h
  split at h
  · rename_i form _
    cases form with
    | memory area mem size port =>
      obtain ⟨_, -, h⟩ := except_bind_eq_ok_iff.mp h
      obtain ⟨_, -, h⟩ := except_bind_eq_ok_iff.mp h
      cases h
    | label name kind start stop wavetableOrSync port =>
      obtain ⟨_, -, h⟩ := except_bind_eq_ok_iff.mp h
      obtain ⟨first, hfirst, h⟩ := except_bind_eq_ok_iff.mp h
      obtain ⟨last, hlast, h⟩ := except_bind_eq_ok_iff.mp h
      cases h
      exact ⟨lt_of_readBounded (except_mapError_eq_ok_iff.mp hfirst),
        lt_of_readBounded (except_mapError_eq_ok_iff.mp hlast)⟩
    | instruction cmdNo opcode operand1 operand2 mem port =>
      obtain ⟨_, -, h⟩ := except_bind_eq_ok_iff.mp h
      obtain ⟨_, -, h⟩ := except_bind_eq_ok_iff.mp h
      cases h
  · cases h

/-- Every record that is read is the record of a line. -/
theorem exists_ofText_of_readAll {origin : String} {mainSeen : Bool} {lines : List Line}
    {records : List VectorRecord} (h : readAll origin mainSeen lines = .ok records) :
    ∀ record ∈ records, ∃ line, ofText line = .ok record := by
  induction lines generalizing mainSeen records with
  | nil =>
    cases h
    exact List.forall_mem_nil _
  | cons line rest ih =>
    rw [readAll] at h
    split at h
    · cases h
      exact List.forall_mem_nil _
    · split at h
      · exact ih h
      · split at h
        · cases h
        · rename_i record hrecord
          dsimp only at h
          split at h
          · cases h
            exact List.forall_mem_singleton.mpr ⟨line.text, hrecord⟩
          · obtain ⟨others, hothers, h⟩ := except_bind_eq_ok_iff.mp h
            cases h
            exact List.forall_mem_cons.mpr ⟨⟨line.text, hrecord⟩, ih hothers⟩

end VectorRecord

/-- The command numbers of records that are read from a text are numbers of 32 bits. -/
theorem VectorFile.bounds_of_parse {text origin : String} {f : VectorFile}
    (h : parse text origin = .ok f) :
    ∀ r ∈ f.labels, r.start < widthBound 32 ∧ r.stop < widthBound 32 := by
  obtain ⟨lines, -, h⟩ := except_bind_eq_ok_iff.mp h
  obtain ⟨records, hrecords, h⟩ := except_bind_eq_ok_iff.mp h
  cases h
  intro r hr
  obtain ⟨record, hrecord, hlabel⟩ := List.mem_filterMap.mp hr
  cases record with
  | label r' =>
    cases hlabel
    obtain ⟨line, hline⟩ := VectorRecord.exists_ofText_of_readAll hrecords _ hrecord
    exact VectorRecord.bounds_of_ofText hline
  | memory _ => cases hlabel
  | instruction _ => cases hlabel

/-! ### Inverted ranges -/

/-- An inverted range has no number, so its program never ends. -/
theorem Program.build_of_lt {start stop : Nat} (h : stop < start) (label port : String)
    (instructions : List Instruction) :
    build label port instructions start stop = .error (.missingTerminal label port) := by
  unfold build
  induction instructions with
  | nil => rfl
  | cons i rest ih =>
    have hout : ¬(start ≤ i.cmdNo ∧ i.cmdNo ≤ stop) := by omega
    rw [extend, if_neg hout, ih]

/-! ### Files with a MAIN label -/

namespace VectorFile

/-- The records of a file fit a MAIN label: its record is the only one for a label, and of the two
or three memory areas those for sequences, at least one, belong to its port. -/
structure HoldsMain (f : VectorFile) (r : LabelRecord) : Prop where
  kind : r.kind = .main
  labels : f.labels = [r]
  memories : 2 ≤ f.memories.length ∧ f.memories.length ≤ 3
  sequencer : ∃ m ∈ f.memories, m.area ≠ .mtst
  ports : ∀ m ∈ f.memories, m.area ≠ .mtst → m.port = r.port

/-- What becomes of a file with a MAIN label that is asked for `n` instructions. -/
def asked (f : VectorFile) (r : LabelRecord) (n : Nat) : Except LabelError Label :=
  if f.instructions.length = n then
    (Program.build r.name r.port f.instructions r.start r.stop).map fun program ↦
      .main ⟨r.name, f.path, r.port, r.start, r.stop, r.wavetableOrSync, program⟩
  else r.malformed (.commandCount n f.instructions.length)

/-- A file is rejected for another reason than a wrong count of instructions. -/
def RejectedUnasked (f : VectorFile) : Prop :=
  ∃ e, f.assemble = .error e ∧
    ∀ name expected found, e ≠ .malformed name (.commandCount expected found)

variable {f : VectorFile} {r : LabelRecord}

/-- The areas for sequences give a port when there is one and all of them have the port of the
record. -/
theorem sequencerPort_eq_ok_iff :
    f.sequencerPort r = .ok r.port ↔ (∃ m ∈ f.memories, m.area ≠ .mtst) ∧
      ∀ m ∈ f.memories, m.area ≠ .mtst → m.port = r.port := by
  have hmem : ∀ m, m ∈ f.memories ∧ m.area ≠ .mtst ↔
      m ∈ f.memories.filter fun m ↦ m.area != .mtst := by
    simp [List.mem_filter]
  simp only [← and_imp, hmem]
  unfold sequencerPort
  split
  · rename_i hnone
    simp [hnone, LabelRecord.malformed]
  · rename_i first rest hareas
    rw [hareas]
    split
    · rename_i other hother
      have hdiffers := List.find?_some hother
      have hrest := List.mem_of_find?_eq_some hother
      simp only [bne_iff_ne] at hdiffers
      refine iff_of_false nofun fun ⟨_, hports⟩ ↦ hdiffers ?_
      rw [hports other (List.mem_cons_of_mem first hrest), hports first List.mem_cons_self]
    · rename_i hsame
      simp only [List.find?_eq_none, bne_iff_ne, Classical.not_not] at hsame
      by_cases hport : r.port = first.port
      · rw [if_pos hport]
        refine iff_of_true (congrArg _ hport.symm) ⟨⟨first, List.mem_cons_self⟩, ?_⟩
        simpa [hport] using hsame
      · rw [if_neg hport]
        refine iff_of_false nofun fun ⟨_, hports⟩ ↦ hport ?_
        rw [hports first List.mem_cons_self]

theorem not_counts_of_sequencerPort {e : LabelError} (h : f.sequencerPort r = .error e)
    (name : String) (expected found : Nat) :
    e ≠ .malformed name (.commandCount expected found) := by
  unfold sequencerPort at h
  rintro rfl
  split at h
  · cases h
  · split at h
    · cases h
    · split at h <;> cases h

/-- A file with a MAIN label is asked for as many instructions as the record of the label spans. -/
theorem HoldsMain.assemble_eq (h : f.HoldsMain r) : f.assemble = f.asked r r.span := by
  have hmemories : ¬(f.memories.length < 2 ∨ 3 < f.memories.length) := by
    have := h.memories
    omega
  have honly : ¬f.labels.length ≠ 1 := by simp [h.labels]
  have hport := sequencerPort_eq_ok_iff.mpr ⟨h.sequencer, h.ports⟩
  have hassemble : f.assemble = Label.main <$> f.assembleMain r := by
    unfold assemble
    simp [h.labels, h.kind]
  rw [hassemble, assembleMain, if_neg hmemories, if_neg honly, hport, asked]
  by_cases hcount : f.instructions.length = r.span
  · rw [if_pos hcount]
    simp only [bind, Except.bind, ne_eq, hcount, not_true_eq_false, if_false]
    cases Program.build r.name r.port f.instructions r.start r.stop <;> rfl
  · simp only [bind, Except.bind, ne_eq, hcount, not_false_eq_true, if_true, if_false]
    rfl

/-- Every other file with a record of a MAIN label is rejected before its instructions are
counted. -/
theorem holdsMain_or_rejected (hr : r ∈ f.labels) (hmain : r.kind = .main) :
    f.HoldsMain r ∨ f.RejectedUnasked := by
  obtain ⟨first, rest, hlabels⟩ := List.exists_cons_of_ne_nil (List.ne_nil_of_mem hr)
  rw [hlabels] at hr
  by_cases hkinds : (f.labels.any fun r ↦ r.kind != first.kind) = true
  · refine .inr ⟨.malformed first.name .mixedKinds, ?_, by rintro _ _ _ ⟨⟩⟩
    unfold assemble
    rw [hlabels] at hkinds ⊢
    exact if_pos hkinds
  have hfirst : first.kind = .main := by
    simp only [hlabels, List.any_eq_true, bne_iff_ne, not_exists, not_and,
      Classical.not_not] at hkinds
    rw [← hkinds r hr, hmain]
  have hassemble : f.assemble = Label.main <$> f.assembleMain first := by
    unfold assemble
    rw [hlabels] at hkinds ⊢
    exact (if_neg hkinds).trans (by rw [hfirst])
  by_cases hmemories : f.memories.length < 2 ∨ 3 < f.memories.length
  · refine .inr ⟨.malformed first.name (.memoryRecordCount f.memories.length), ?_,
      by rintro _ _ _ ⟨⟩⟩
    rw [hassemble, assembleMain, if_pos hmemories]
    rfl
  by_cases honly : f.labels.length ≠ 1
  · refine .inr ⟨.malformed first.name (.labelRecordCount f.labels.length), ?_,
      by rintro _ _ _ ⟨⟩⟩
    rw [hassemble, assembleMain, if_neg hmemories, if_pos honly]
    rfl
  obtain rfl : rest = [] := by simpa [hlabels] using honly
  obtain rfl : r = first := by simpa using hr
  cases hport : f.sequencerPort r with
  | error e =>
    refine .inr ⟨e, ?_, not_counts_of_sequencerPort hport⟩
    rw [hassemble, assembleMain, if_neg hmemories, if_neg honly, hport]
    rfl
  | ok port =>
    rw [port_of_sequencerPort hport] at hport
    obtain ⟨hsequencer, hports⟩ := sequencerPort_eq_ok_iff.mp hport
    exact .inl ⟨hmain, hlabels, by omega, hsequencer, hports⟩

/-! ### Accepted files -/

/-- The file of an accepted MAIN label has as many instructions as the record of the label has
numbers, and the record has a number that is not past its range. -/
theorem length_of_assemble_main {label : Label} (hr : r ∈ f.labels) (hmain : r.kind = .main)
    (hstop : r.stop < widthBound 32) (h : f.assemble = .ok label) :
    f.HoldsMain r ∧ r.start ≤ r.stop ∧ ¬r.SpansAll ∧
      f.instructions.length = r.stop - r.start + 1 := by
  rcases holdsMain_or_rejected hr hmain with hholds | ⟨e, he, -⟩
  · rw [hholds.assemble_eq, asked] at h
    split at h
    · rename_i hlength
      obtain ⟨program, hprogram, -⟩ := except_map_eq_ok_iff.mp h
      have hle : r.start ≤ r.stop := by
        refine Nat.le_of_not_lt fun hinverted ↦ ?_
        rw [Program.build_of_lt hinverted] at hprogram
        cases hprogram
      have hall : ¬r.SpansAll := by
        intro hall
        rw [LabelRecord.span_of_spansAll hall, List.length_eq_zero_iff] at hlength
        rw [hlength] at hprogram
        cases hprogram
      exact ⟨hholds, hle, hall, by rw [hlength, LabelRecord.span_of_le hle hstop hall]⟩
    · cases h
  · rw [he] at h
    cases h

/-- What a file is asked for by the record of a MAIN label that stays in the 32 bits, as it does in
every file that is read from a text. A record that is not inverted asks for exactly as many
instructions as it has numbers, unless these are all numbers of 32 bits; that one asks for none.
Nothing but the files that hold a MAIN label is asked for a count. A file is only accepted for a
record that is not inverted and with exactly as many instructions as the record has numbers, so the
files of inverted records and of the record with all numbers are rejected. -/
theorem asked_of_main (hr : r ∈ f.labels) (hmain : r.kind = .main)
    (hnumbers : r.stop < widthBound 32 ∨ ∃ text origin, parse text origin = .ok f) :
    (f.HoldsMain r ∨ f.RejectedUnasked) ∧
      (f.HoldsMain r → r.start ≤ r.stop → ¬r.SpansAll →
        f.assemble = f.asked r (r.stop - r.start + 1)) ∧
      (f.HoldsMain r → r.SpansAll → f.assemble = f.asked r 0) ∧
      (∀ label, f.assemble = .ok label →
        r.start ≤ r.stop ∧ f.instructions.length = r.stop - r.start + 1) ∧
      (r.stop < r.start ∨ r.SpansAll → ∃ e, f.assemble = .error e) := by
  have hstop : r.stop < widthBound 32 := by
    rcases hnumbers with hstop | ⟨text, origin, hparse⟩
    · exact hstop
    · exact (bounds_of_parse hparse r hr).2
  refine ⟨holdsMain_or_rejected hr hmain, fun hholds hle hall ↦ ?_, fun hholds hall ↦ ?_,
    fun label h ↦ ?_, fun hunfit ↦ ?_⟩
  · rw [hholds.assemble_eq, LabelRecord.span_of_le hle hstop hall]
  · rw [hholds.assemble_eq, LabelRecord.span_of_spansAll hall]
  · obtain ⟨-, hle, -, hlength⟩ := length_of_assemble_main hr hmain hstop h
    exact ⟨hle, hlength⟩
  · cases h : f.assemble with
    | error e => exact ⟨e, rfl⟩
    | ok label =>
      obtain ⟨-, hle, hall, -⟩ := length_of_assemble_main hr hmain hstop h
      exact absurd hunfit (by simp [hall, hle])

/-- A file of two instructions whose record goes from one number to another. -/
def twoInstructions (start stop : Nat) : VectorFile where
  path := none
  memories := [⟨.mtst, "SM", 1, "P1"⟩, ⟨.sqpg, "SM", 3, "P1"⟩]
  labels := [⟨"wave", .main, start, stop, "std", "P1"⟩]
  instructions := [⟨1, .genv, "5", "", "SM", "P1"⟩, ⟨2, .stop, "", "", "SM", "P1"⟩]

theorem holdsMain_twoInstructions (start stop : Nat) :
    (twoInstructions start stop).HoldsMain ⟨"wave", .main, start, stop, "std", "P1"⟩ where
  kind := rfl
  labels := rfl
  memories := by simp [twoInstructions]
  sequencer := by simp [twoInstructions]
  ports := by simp [twoInstructions]

/-- The longest range that is counted exactly, and an inverted one. -/
theorem asked_of_main_twoInstructions :
    (4294967295 < widthBound 32 ∧ (1 : Nat) < widthBound 32) ∧
      (twoInstructions 1 4294967295).assemble =
        .error (.malformed "wave" (.commandCount 4294967295 2)) ∧
      ∃ e, (twoInstructions 2 1).assemble = .error e := by
  have hlast : 4294967295 < widthBound 32 := by decide
  have hone : 1 < widthBound 32 := by decide
  obtain ⟨-, hexact, -⟩ := asked_of_main (f := twoInstructions 1 4294967295)
    List.mem_cons_self rfl (.inl hlast)
  obtain ⟨-, -, -, -, hrejected⟩ := asked_of_main (f := twoInstructions 2 1)
    List.mem_cons_self rfl (.inl hone)
  exact ⟨⟨hlast, hone⟩, hexact (holdsMain_twoInstructions 1 4294967295) (by decide) (by decide),
    hrejected (.inl (by decide))⟩

/-- The record from zero to the last number of 32 bits spans 4294967296 commands; its file is told
that it spans none. -/
theorem not_forall_asked_exactly :
    (twoInstructions 0 4294967295).assemble = .error (.malformed "wave" (.commandCount 0 2)) ∧
      ¬∀ (f : VectorFile) (r : LabelRecord), r.stop < widthBound 32 → f.HoldsMain r →
        r.start ≤ r.stop → f.assemble = f.asked r (r.stop - r.start + 1) := by
  refine ⟨rfl, fun hall ↦ ?_⟩
  have hasked := hall _ _ (by decide) (holdsMain_twoInstructions 0 4294967295) (Nat.zero_le _)
  cases hasked

end VectorFile

end TesterSetup
