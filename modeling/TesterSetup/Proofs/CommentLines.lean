import TesterSetup.Proofs.GrowingModels
import TesterSetup.Proofs.WrittenLines
import TesterSetup.Reader.Levels
import TesterSetup.Reader.Master
import TesterSetup.Reader.Timing
import TesterSetup.Reader.Vector

/-!
# Comment lines

What a comment line changes when it is put between the lines of a text (`InsertsComment`, which holds
of any comment between any lines, `insertsComment_textOf`). Levels, timing and master files are read
by their significant lines, so the reader meets the same lines as before, under other numbers from
the comment on (`significantLines_commented`). A reader that does not ask for the numbers of its
lines, or only passes them on, gives the same result under the new numbers (`readLines_renumber`).

A vector file is read by all its lines, and a comment is none of its records. So the comment is
rejected (`VectorRecord.readAll_comment`), unless the records end before it.
-/

set_option autoImplicit false

namespace TesterSetup

open TesterSetup.Text

/-! ### Other numbers for the same lines -/

/-- The number that a line has after one more line was put behind the first `n`. -/
def shiftAfter (n k : Nat) : Nat :=
  if k ≤ n then k else k + 1

/-- The same line under another number. -/
def Text.Line.renumber (ρ : Nat → Nat) (line : Line) : Line :=
  { line with number := ρ line.number }

/-- The same error at a line with another number. -/
def ReadError.renumber (ρ : Nat → Nat) : ReadError → ReadError
  | .line location cause => .line { location with line := ρ location.line } cause
  | e => e

/-- The same entry at a line with another number. -/
def MasterEntry.renumber (ρ : Nat → Nat) (entry : MasterEntry) : MasterEntry :=
  { entry with line := ρ entry.line }

/-- The same entries at lines with other numbers. -/
def MasterFile.renumber (ρ : Nat → Nat) (m : MasterFile) : MasterFile where
  testerfile := m.testerfile
  eqnsets := m.eqnsets.map (MasterEntry.renumber ρ)
  testdata := m.testdata.map (MasterEntry.renumber ρ)
  multiportSpecs := m.multiportSpecs.map (MasterEntry.renumber ρ)
  wavetables := m.wavetables.map (MasterEntry.renumber ρ)

section Renumbering

variable {σ : Type} {ρ : Nat → Nat} {origin : String}

/-- Reading lines under other numbers, with a change of the state that every line respects. -/
theorem readLines_renumber {step : σ → Line → LineResult σ} {φ : σ → σ}
    (hstep : ∀ s line, step (φ s) (line.renumber ρ) = (step s line).map φ) (s : σ)
    (lines : List Line) :
    readLines origin step (φ s) (lines.map (Line.renumber ρ)) =
      ((readLines origin step s lines).map φ).mapError (ReadError.renumber ρ) := by
  induction lines generalizing s with
  | nil => rfl
  | cons line rest ih =>
    unfold readLines at ih ⊢
    rw [List.map_cons, List.foldlM_cons, List.foldlM_cons, hstep]
    cases step s line with
    | ok t => exact ih t
    | error cause => rfl

/-- Reading lines under other numbers, when no line is asked for its number. -/
theorem readLines_renumber_of_eq {step : σ → Line → LineResult σ}
    (hstep : ∀ s line, step s (line.renumber ρ) = step s line) (s : σ) (lines : List Line) :
    readLines origin step s (lines.map (Line.renumber ρ)) =
      (readLines origin step s lines).mapError (ReadError.renumber ρ) := by
  have hmap : ∀ s line, step (id s) (line.renumber ρ) = (step s line).map id := fun s line ↦ by
    rw [id_eq, hstep, Except.map_id, id_eq]
  have hid : readLines origin step (id s) (lines.map (Line.renumber ρ)) =
      ((readLines origin step s lines).map id).mapError (ReadError.renumber ρ) :=
    readLines_renumber hmap s lines
  rwa [id_eq, Except.map_id, id_eq] at hid

theorem afterHeader_renumber {expected : String} {accept : String → Bool} (lines : List Line) :
    afterHeader origin expected accept (lines.map (Line.renumber ρ)) =
      (afterHeader origin expected accept lines).map (List.map (Line.renumber ρ)) := by
  cases lines with
  | nil => rfl
  | cons header rest =>
    rw [List.map_cons, afterHeader, afterHeader]
    change (if accept header.text = true then _ else _) = _
    split <;> rfl

/-- The header does not name its line. -/
theorem renumber_of_afterHeader {expected : String} {accept : String → Bool} {lines : List Line}
    {e : ReadError} (h : afterHeader origin expected accept lines = .error e) :
    e.renumber ρ = e := by
  cases lines with
  | nil =>
    cases h
    rfl
  | cons header rest =>
    rw [afterHeader] at h
    split at h
    · cases h
    · cases h
      rfl

end Renumbering

/-! ### One line of each language -/

section Steps

variable {ρ : Nat → Nat}

namespace MasterFile

theorem addEntry_renumber {κ : Type} [DecidableEq κ] (kind : EntryKind) (key : String)
    (entries : OrderedMap κ MasterEntry) (k : κ) (entry : MasterEntry) :
    addEntry kind key (entries.map (MasterEntry.renumber ρ)) k (entry.renumber ρ) =
      (addEntry kind key entries k entry).map fun es ↦ es.map (MasterEntry.renumber ρ) := by
  unfold addEntry
  rw [OrderedMap.contains_map]
  split
  · rfl
  · rw [← OrderedMap.map_insert]
    rfl

theorem add_renumber (m : MasterFile) (text key : String) (entry : MasterEntry)
    (kind : EntryKind) :
    (m.renumber ρ).add text key (entry.renumber ρ) kind =
      (m.add text key entry kind).map (renumber ρ) := by
  cases kind with
  | eqnset =>
    unfold add
    cases readNat? (widthBound 32) key with
    | none => rfl
    | some num =>
      dsimp only
      rw [renumber, addEntry_renumber]
      cases addEntry .eqnset key m.eqnsets num entry <;> rfl
  | testdata =>
    unfold add
    dsimp only
    rw [renumber, addEntry_renumber]
    cases addEntry .testdata key m.testdata key entry <;> rfl
  | multiportSpec =>
    unfold add
    dsimp only
    rw [renumber, addEntry_renumber]
    cases addEntry .multiportSpec key m.multiportSpecs key entry <;> rfl
  | wavetable =>
    unfold add
    dsimp only
    rw [renumber, addEntry_renumber]
    cases addEntry .wavetable key m.wavetables key entry <;> rfl

theorem place_renumber (kind : MasterKind) (m : MasterFile) (line : Line) :
    place kind (m.renumber ρ) (line.renumber ρ) = (place kind m line).map (renumber ρ) := by
  unfold place
  rw [Line.renumber]
  dsimp only
  cases Form.testerfile? line.text.toList with
  | some file => rfl
  | none =>
    cases Form.masterEntry? line.text.toList with
    | none => rfl
    | some found =>
      obtain ⟨keyword, key, path⟩ := found
      dsimp only
      cases kind.entryKinds.find? fun e ↦ e.keyword == keyword with
      | none => rfl
      | some entryKind => exact add_renumber m line.text (unquote key) ⟨path, line.number⟩ entryKind

end MasterFile

end Steps

/-! ### A comment between the lines of a text -/

/-- The second text is the first with a comment line put behind some of its lines. -/
structure InsertsComment (text text' : String) (before after : List (List Char))
    (comment : List Char) : Prop where
  lines_eq : lines text.toList = before ++ after
  lines_eq' : lines text'.toList = before ++ comment :: after
  isComment : (trim comment).head? = some '#'

/-- A line of a text, without its end. -/
def IsRawLine (l : String) : Prop :=
  '\n' ∉ l.toList ∧ l.toList.getLast? ≠ some '\r'

instance (l : String) : Decidable (IsRawLine l) :=
  inferInstanceAs (Decidable (_ ∧ _))

/-- A text of lines, each with its end. -/
def textOf (ls : List String) : String :=
  String.ofList (ls.flatMap fun l ↦ l.toList ++ ['\n'])

theorem lines_textOf {ls : List String} (h : ∀ l ∈ ls, IsRawLine l) :
    lines (textOf ls).toList = ls.map String.toList := by
  rw [textOf, String.toList_ofList]
  induction ls with
  | nil => rfl
  | cons l ls ih =>
    rw [List.forall_mem_cons] at h
    rw [List.flatMap_cons, List.append_assoc, List.singleton_append, lines_append h.1.1 h.1.2,
      ih h.2, List.map_cons]

/-- Any comment line can be put anywhere between the lines of a text. -/
theorem insertsComment_textOf (before after : List String) {comment : String}
    (hlines : ∀ l ∈ before ++ comment :: after, IsRawLine l)
    (hcomment : (trim comment.toList).head? = some '#') :
    InsertsComment (textOf (before ++ after)) (textOf (before ++ comment :: after))
      (before.map String.toList) (after.map String.toList) comment.toList where
  lines_eq := by
    have hless : ∀ l ∈ before ++ after, IsRawLine l := fun l hl ↦
      hlines l (((List.sublist_cons_self comment after).append_left before).subset hl)
    rw [lines_textOf hless, List.map_append]
  lines_eq' := by rw [lines_textOf hlines, List.map_append, List.map_cons]
  isComment := hcomment

/-- Lines under the numbers from one on. -/
def numberFrom (k : Nat) (ls : List (List Char)) : List Line :=
  (ls.zipIdx k).map fun (line, number) ↦ ⟨number, String.ofList (trim line)⟩

theorem numberedLines_eq (text : String) :
    numberedLines text = numberFrom 1 (lines text.toList) :=
  rfl

theorem numberFrom_append (k : Nat) (ls ms : List (List Char)) :
    numberFrom k (ls ++ ms) = numberFrom k ls ++ numberFrom (k + ls.length) ms := by
  unfold numberFrom
  rw [List.zipIdx_append, List.map_append]

theorem numberFrom_cons (k : Nat) (l : List Char) (ls : List (List Char)) :
    numberFrom k (l :: ls) = ⟨k, String.ofList (trim l)⟩ :: numberFrom (k + 1) ls := by
  unfold numberFrom
  rw [List.zipIdx_cons, List.map_cons]

theorem texts_numberFrom (k : Nat) (ls : List (List Char)) :
    (numberFrom k ls).map Line.text = ls.map fun raw ↦ String.ofList (trim raw) := by
  induction ls generalizing k with
  | nil => rfl
  | cons l ls ih => rw [numberFrom_cons, List.map_cons, ih, List.map_cons]

/-- Lines up to a number keep their numbers. -/
theorem numberFrom_renumber_of_le {n k : Nat} {ls : List (List Char)} (h : k + ls.length ≤ n + 1) :
    (numberFrom k ls).map (Line.renumber (shiftAfter n)) = numberFrom k ls := by
  induction ls generalizing k with
  | nil => rfl
  | cons l ls ih =>
    rw [List.length_cons] at h
    have hk : shiftAfter n k = k := if_pos (by omega)
    rw [numberFrom_cons, List.map_cons, ih (by omega), Line.renumber, hk]

/-- Lines after a number move on by one. -/
theorem numberFrom_renumber_of_lt {n k : Nat} {ls : List (List Char)} (h : n < k) :
    (numberFrom k ls).map (Line.renumber (shiftAfter n)) = numberFrom (k + 1) ls := by
  induction ls generalizing k with
  | nil => rfl
  | cons l ls ih =>
    have hk : shiftAfter n k = k + 1 := if_neg (Nat.not_le_of_lt h)
    rw [numberFrom_cons, List.map_cons, ih (by omega), Line.renumber, hk, numberFrom_cons]

section Comments

variable {text text' : String} {before after : List (List Char)} {comment : List Char}

/-- A comment leaves all significant lines, with other numbers for those behind it. -/
theorem significantLines_commented (h : InsertsComment text text' before after comment) :
    significantLines text' =
      (significantLines text).map (Line.renumber (shiftAfter before.length)) := by
  have hcomment : isSignificant (String.ofList (trim comment)) = false := by
    obtain ⟨rest, hrest⟩ := List.head?_eq_some_iff.mp h.isComment
    rw [hrest, isSignificant, String.toList_ofList]
    rfl
  have hrenumber : ∀ ls : List Line,
      (ls.filter fun l ↦ isSignificant l.text).map (Line.renumber (shiftAfter before.length)) =
        (ls.map (Line.renumber (shiftAfter before.length))).filter fun l ↦ isSignificant l.text := by
    intro ls
    rw [List.filter_map]
    rfl
  rw [significantLines, significantLines, hrenumber, numberedLines_eq, numberedLines_eq, h.lines_eq,
    h.lines_eq', numberFrom_append, numberFrom_append, numberFrom_cons, List.map_append,
    numberFrom_renumber_of_le (by omega), numberFrom_renumber_of_lt (by omega), List.filter_append,
    List.filter_append, List.filter_cons_of_neg (by rw [hcomment]; exact Bool.false_ne_true)]

theorem Levels.parse_commented (h : InsertsComment text text' before after comment)
    (origin : String) :
    parse text' origin =
      (parse text origin).mapError (.renumber (shiftAfter before.length)) := by
  unfold parse
  rw [significantLines_commented h, afterHeader_renumber]
  cases hheader : afterHeader origin header (isHeader · language) (significantLines text) with
  | error e => exact congrArg _ (renumber_of_afterHeader hheader).symm
  | ok ls =>
    have hread : readLines origin LevelsReader.read .start
          (ls.map (Line.renumber (shiftAfter before.length))) =
        (readLines origin LevelsReader.read .start ls).mapError
          (.renumber (shiftAfter before.length)) :=
      readLines_renumber_of_eq (fun _ _ ↦ rfl) _ ls
    change (readLines origin LevelsReader.read .start (ls.map _) >>= _) =
      (readLines origin LevelsReader.read .start ls >>= _).mapError _
    rw [hread]
    cases readLines origin LevelsReader.read .start ls <;> rfl

theorem Timing.parse_commented (h : InsertsComment text text' before after comment)
    (origin : String) :
    parse text' origin =
      (parse text origin).mapError (.renumber (shiftAfter before.length)) := by
  unfold parse
  rw [significantLines_commented h, afterHeader_renumber]
  cases hheader : afterHeader origin header (isHeader · language) (significantLines text) with
  | error e => exact congrArg _ (renumber_of_afterHeader hheader).symm
  | ok ls =>
    have hread : readLines origin TimingReader.read .start
          (ls.map (Line.renumber (shiftAfter before.length))) =
        (readLines origin TimingReader.read .start ls).mapError
          (.renumber (shiftAfter before.length)) :=
      readLines_renumber_of_eq (fun _ _ ↦ rfl) _ ls
    -- where a text has no lines after the header, the last one is taken to have the number zero
    have hlast : (ls.map (Line.renumber (shiftAfter before.length))).getLast?.getD default =
        (ls.getLast?.getD default).renumber (shiftAfter before.length) := by
      rw [List.getLast?_map]
      cases ls.getLast? with
      | none =>
        have hzero : shiftAfter before.length 0 = 0 := if_pos (Nat.zero_le _)
        rw [Option.map_none, Option.getD_none, Line.renumber]
        exact congrArg (Line.mk · "") hzero.symm
      | some l => rfl
    change (readLines origin TimingReader.read .start (ls.map _) >>= fun r ↦
        r.finish origin ((ls.map _).getLast?.getD default)) =
      (readLines origin TimingReader.read .start ls >>= fun r ↦
        r.finish origin (ls.getLast?.getD default)).mapError _
    rw [hread, hlast]
    cases readLines origin TimingReader.read .start ls with
    | error e => rfl
    | ok r =>
      change r.finish origin _ = (r.finish origin _).mapError _
      unfold TimingReader.finish
      cases r.place.block <;> rfl

theorem MasterFile.parse_commented (h : InsertsComment text text' before after comment)
    (kind : MasterKind) (origin : String) :
    parse kind text' origin =
      ((parse kind text origin).map (renumber (shiftAfter before.length))).mapError
        (.renumber (shiftAfter before.length)) := by
  unfold parse
  rw [significantLines_commented h, afterHeader_renumber]
  cases hheader : afterHeader origin kind.header (· == kind.header) (significantLines text) with
  | error e => exact congrArg _ (renumber_of_afterHeader hheader).symm
  | ok ls => exact readLines_renumber (place_renumber kind) .empty ls

end Comments

/-! ### Vector files -/

namespace VectorRecord

/-- Whether the records end within some lines: at an empty one, at `STOP` once a MAIN label was
defined, or at a line that does not fit. -/
def endWithin (mainSeen : Bool) : List String → Bool
  | [] => false
  | text :: rest =>
    if text = "" then true
    else if skippedRecords.any (Form.startsWith text) then endWithin mainSeen rest
    else
      match ofText text with
      | .error _ => true
      | .ok record =>
        (record.isStop && (mainSeen || record.isMain)) ||
          endWithin (mainSeen || record.isMain) rest

variable {origin : String}

/-- Lines after the end of the records are not read. -/
theorem readAll_append_of_endWithin {mainSeen : Bool} {front : List Line}
    (h : endWithin mainSeen (front.map Line.text) = true) (rest : List Line) :
    readAll origin mainSeen (front ++ rest) = readAll origin mainSeen front := by
  induction front generalizing mainSeen with
  | nil => cases h
  | cons line front ih =>
    rw [List.map_cons, endWithin] at h
    rw [List.cons_append, readAll, readAll]
    split at h
    · rename_i hempty
      rw [if_pos hempty, if_pos hempty]
    · rename_i hempty
      rw [if_neg hempty, if_neg hempty]
      split at h
      · rename_i hskipped
        rw [if_pos hskipped, if_pos hskipped, ih h]
      · rename_i hskipped
        rw [if_neg hskipped, if_neg hskipped]
        cases hform : ofText line.text with
        | error cause => rfl
        | ok record =>
          rw [hform] at h
          dsimp only at h ⊢
          by_cases hstop : (record.isStop && (mainSeen || record.isMain)) = true
          · rw [if_pos hstop, if_pos hstop]
          · rw [Bool.eq_false_iff.mpr hstop, Bool.false_or] at h
            rw [if_neg hstop, if_neg hstop, ih h]

/-- Records that do not end within some lines go on with what follows. -/
theorem readAll_append_of_not_endWithin {mainSeen : Bool} {front rest : List Line} {e : ReadError}
    (h : endWithin mainSeen (front.map Line.text) = false)
    (hrest : ∀ mainSeen, readAll origin mainSeen rest = .error e) :
    readAll origin mainSeen (front ++ rest) = .error e := by
  induction front generalizing mainSeen with
  | nil => exact hrest mainSeen
  | cons line front ih =>
    rw [List.map_cons, endWithin] at h
    rw [List.cons_append, readAll]
    split at h
    · cases h
    · rename_i hempty
      rw [if_neg hempty]
      split at h
      · rename_i hskipped
        rw [if_pos hskipped, ih h]
      · rename_i hskipped
        rw [if_neg hskipped]
        cases hform : ofText line.text with
        | error cause =>
          rw [hform] at h
          cases h
        | ok record =>
          rw [hform] at h
          dsimp only at h ⊢
          rw [Bool.or_eq_false_iff] at h
          rw [if_neg (Bool.eq_false_iff.mp h.1), ih h.2]
          rfl

/-- A comment is no record. -/
theorem readAll_comment {mainSeen : Bool} {number : Nat} {text : String} {rest : List Line}
    (h : text.toList.head? = some '#') :
    readAll origin mainSeen (⟨number, text⟩ :: rest) =
      .error (.line ⟨origin, number⟩ (.misfit text .noPlacement)) := by
  obtain ⟨more, hmore⟩ := List.head?_eq_some_iff.mp h
  have hempty : text ≠ "" := by
    rintro rfl
    cases hmore
  have hskipped : ¬skippedRecords.any (Form.startsWith text) = true := by
    simp [skippedRecords, Form.startsWith, hmore, Form.strip?]
  have hafter : ∀ keyword ∈ ["DMAS", "SQLB", "SQPG"],
      Form.afterKeyword? keyword text.toList = none := by
    simp [Form.afterKeyword?, hmore, Form.strip?]
  have hform : ofText text = .error (.misfit text .noPlacement) := by
    unfold ofText RecordLine.ofText? RecordLine.memory? RecordLine.label? RecordLine.instruction?
    dsimp only
    rw [hafter "DMAS" (by decide), hafter "SQLB" (by decide), hafter "SQPG" (by decide)]
    rfl
  rw [readAll]
  dsimp only
  rw [if_neg hempty, if_neg hskipped, hform]

end VectorRecord

/-- Whether a vector file is decided by its lines up to a place: the first is no header, or the
records end within the others. -/
def VectorFile.decidedBy (before : List String) : Bool :=
  match before with
  | [] => false
  | first :: records => !isHeader first language || VectorRecord.endWithin false records

/-- A comment behind the header changes nothing when the records end before it. Otherwise the file
is rejected at the comment. -/
theorem VectorFile.parse_commented {text text' : String} {before after : List (List Char)}
    {comment : List Char} (h : InsertsComment text text' before after comment)
    (hbefore : before ≠ []) (origin : String) :
    parse text' origin =
      if decidedBy (before.map fun raw ↦ String.ofList (trim raw)) then parse text origin
      else .error (.line ⟨origin, before.length + 1⟩
        (.misfit (String.ofList (trim comment)) .noPlacement)) := by
  obtain ⟨first, front, rfl⟩ := List.exists_cons_of_ne_nil hbefore
  have hlines : numberedLines text = ⟨1, String.ofList (trim first)⟩ ::
      (numberFrom 2 front ++ numberFrom (front.length + 2) after) := by
    rw [numberedLines_eq, h.lines_eq, List.cons_append, numberFrom_cons, numberFrom_append,
      Nat.add_comm 2]
  have hlines' : numberedLines text' = ⟨1, String.ofList (trim first)⟩ ::
      (numberFrom 2 front ++ ⟨front.length + 2, String.ofList (trim comment)⟩ ::
        numberFrom (front.length + 3) after) := by
    rw [numberedLines_eq, h.lines_eq', List.cons_append, numberFrom_cons, numberFrom_append,
      numberFrom_cons, Nat.add_comm 2]
  have htexts := texts_numberFrom 2 front
  unfold parse
  rw [hlines, hlines', afterHeader, afterHeader, List.map_cons, decidedBy]
  dsimp only
  cases hheader : isHeader (String.ofList (trim first)) language with
  | false => rfl
  | true =>
    rw [← htexts, Bool.not_true, Bool.false_or, if_pos rfl, if_pos rfl]
    cases hend : VectorRecord.endWithin false ((numberFrom 2 front).map Line.text) with
    | true =>
      change (VectorRecord.readAll origin false _ >>= _) = VectorRecord.readAll origin false _ >>= _
      rw [VectorRecord.readAll_append_of_endWithin hend,
        VectorRecord.readAll_append_of_endWithin hend]
    | false =>
      have hcomment : ∀ mainSeen, VectorRecord.readAll origin mainSeen
          (⟨front.length + 2, String.ofList (trim comment)⟩ ::
            numberFrom (front.length + 3) after) =
            .error (.line ⟨origin, front.length + 2⟩
              (.misfit (String.ofList (trim comment)) .noPlacement)) := fun mainSeen ↦
        VectorRecord.readAll_comment (by rw [String.toList_ofList]; exact h.isComment)
      change (VectorRecord.readAll origin false _ >>= _) = _
      rw [VectorRecord.readAll_append_of_not_endWithin hend hcomment]
      rfl

/-- A comment line changes nothing in how a levels, timing or master file is read but the numbers of
the lines behind it. In a vector file it changes nothing at all behind the end of the records, and
is rejected before. -/
theorem comments_passed_over {text text' : String} {before after : List (List Char)}
    {comment : List Char} (h : InsertsComment text text' before after comment) (origin : String) :
    Levels.parse text' origin =
        (Levels.parse text origin).mapError (.renumber (shiftAfter before.length)) ∧
      Timing.parse text' origin =
        (Timing.parse text origin).mapError (.renumber (shiftAfter before.length)) ∧
      (∀ kind, MasterFile.parse kind text' origin =
        ((MasterFile.parse kind text origin).map (.renumber (shiftAfter before.length))).mapError
          (.renumber (shiftAfter before.length))) ∧
      (before ≠ [] → VectorFile.parse text' origin =
        if VectorFile.decidedBy (before.map fun raw ↦ String.ofList (trim raw)) then
          VectorFile.parse text origin
        else .error (.line ⟨origin, before.length + 1⟩
          (.misfit (String.ofList (trim comment)) .noPlacement))) :=
  ⟨Levels.parse_commented h origin, Timing.parse_commented h origin,
    fun kind ↦ MasterFile.parse_commented h kind origin,
    fun hbefore ↦ VectorFile.parse_commented h hbefore origin⟩

/-- The records of a vector file with a MAIN label. -/
def recordLines : List String :=
  ["hp93000,vector,0.1", "DMAS SQPG,SM,2,(P1)", "SQLB \"m\",MAIN,0,1,\"std\",(P1)",
    "SQPG 0,GENV,5,,SM,(P1)", "SQPG 1,STOP,,,SM,(P1)"]

theorem insertsComment_records :
    InsertsComment (textOf recordLines) (textOf (recordLines.insertIdx 1 " # note"))
      ["hp93000,vector,0.1".toList] (recordLines.tail.map String.toList) " # note".toList :=
  insertsComment_textOf ["hp93000,vector,0.1"] recordLines.tail (by decide) (by decide)

theorem insertsComment_stop :
    InsertsComment (textOf recordLines) (textOf (recordLines ++ ["# end"]))
      (recordLines.map String.toList) [] "# end".toList :=
  insertsComment_textOf recordLines [] (by decide) (by decide)

theorem isOk_parse_records : (VectorFile.parse (textOf recordLines) "a").isOk = true := by
  decide +kernel

/-- A master file with a line that repeats a number. -/
def repeatingLines : List String :=
  ["hp93000,level_master_file,0.1", "EQNSET 1 : a", "EQNSET 1 : b"]

theorem insertsComment_repeating :
    InsertsComment (textOf repeatingLines) (textOf (repeatingLines.insertIdx 2 "# again"))
      ["hp93000,level_master_file,0.1".toList, "EQNSET 1 : a".toList] ["EQNSET 1 : b".toList]
      "# again".toList :=
  insertsComment_textOf (repeatingLines.take 2) ["EQNSET 1 : b"] (by decide) (by decide)

/-- A timing file with a state map. -/
def statemapLines : List String :=
  ["hp93000,timing,0.1", "EQSP TIM,WVT,#1", "WAVETBL w", "PINS a", "STATEMAP", "0 1"]

theorem insertsComment_statemap :
    InsertsComment (textOf statemapLines) (textOf (statemapLines.insertIdx 5 "# states"))
      ((statemapLines.take 5).map String.toList) ["0 1".toList] "# states".toList :=
  insertsComment_textOf (statemapLines.take 5) ["0 1"] (by decide) (by decide)

theorem comments_passed_over_everywhere :
    VectorFile.parse (textOf (recordLines ++ ["# end"])) "a" =
        VectorFile.parse (textOf recordLines) "a" ∧
      VectorFile.parse (textOf (recordLines.insertIdx 1 " # note")) "a" =
        .error (.line ⟨"a", 2⟩ (.misfit "# note" .noPlacement)) ∧
      MasterFile.parse .levels (textOf (repeatingLines.insertIdx 2 "# again")) "a" =
        .error (.line ⟨"a", 4⟩ (.model (.duplicate "EQNSET" "1"))) ∧
      ∃ timing, Timing.parse (textOf statemapLines) "a" = .ok timing ∧
        Timing.parse (textOf (statemapLines.insertIdx 5 "# states")) "a" = .ok timing := by
  have hstop := (comments_passed_over insertsComment_stop "a").2.2.2 (by decide)
  have hrecords := (comments_passed_over insertsComment_records "a").2.2.2 (by decide)
  have hrepeating := (comments_passed_over insertsComment_repeating "a").2.2.1 .levels
  have hstatemap := (comments_passed_over insertsComment_statemap "a").2.1
  have hends : VectorFile.decidedBy
      ((recordLines.map String.toList).map fun raw ↦ String.ofList (trim raw)) = true := by
    decide +kernel
  have hgoesOn : VectorFile.decidedBy
      (["hp93000,vector,0.1".toList].map fun raw ↦ String.ofList (trim raw)) = false := by
    decide +kernel
  have hok : (Timing.parse (textOf statemapLines) "a").isOk = true := by decide +kernel
  obtain ⟨timing, htiming⟩ := exists_eq_ok_of_isOk hok
  rw [if_pos hends] at hstop
  rw [hgoesOn, if_neg Bool.false_ne_true] at hrecords
  rw [htiming] at hstatemap
  exact ⟨hstop, hrecords, hrepeating, timing, htiming, hstatemap⟩

/-- The vector file with a comment behind its header is rejected, so not every comment is passed
over. -/
theorem not_forall_comments_passed_over :
    ¬∀ (text text' : String) (before after : List (List Char)) (comment : List Char),
      InsertsComment text text' before after comment → before ≠ [] →
      ∀ origin, VectorFile.parse text' origin =
        (VectorFile.parse text origin).mapError (.renumber (shiftAfter before.length)) := by
  intro hall
  have hsame := hall _ _ _ _ _ insertsComment_records (by decide) "a"
  obtain ⟨file, hfile⟩ := exists_eq_ok_of_isOk isOk_parse_records
  rw [hfile] at hsame
  have hrejected : (VectorFile.parse (textOf (recordLines.insertIdx 1 " # note")) "a").isOk =
      false := by
    decide +kernel
  rw [hsame] at hrejected
  cases hrejected

end TesterSetup
