import TesterSetup.Proofs.WrittenLines
import TesterSetup.Reader.Vector
import TesterSetup.Report.Label

/-!
# Written vector files

A vector file is written as its header and one line for each record: memory areas, then labels, then
instructions. The port of a label may be left out when it is that of every pin. Whatever stands after
the records, behind an empty line, the text is read back as the file (`VectorFile.parse_written`).

Each kind of record is read back from its line (`MemoryRecord.ofText_line`,
`LabelRecord.ofText_of_isWritten`, `Instruction.ofText_line`). Reading stops at the empty line or at
the `STOP` of a MAIN label, so such a `STOP` has to be the last instruction
(`VectorRecord.readAll_written`).
-/

set_option autoImplicit false

namespace TesterSetup

open TesterSetup.Text

/-! ### The lines of records -/

/-- The name of a memory area. -/
def MemoryArea.name : MemoryArea → String
  | .mtst => "MTST"
  | .para => "PARA"
  | .sqpg => "SQPG"

/-- A port in parentheses. -/
def portField (port : String) : List Char :=
  '(' :: (port.toList ++ [')'])

/-- `DMAS area,memory,size,(port)`. -/
def MemoryRecord.line (r : MemoryRecord) : List Char :=
  "DMAS".toList ++ ' ' :: (r.area.name.toList ++ ',' :: (r.memory.toList ++
    ',' :: (Decimal.digitsOf r.size ++ ',' :: portField r.port)))

/-- `SQLB "name",kind,start,stop,"wavetable or sync group"` and what follows it. -/
def LabelRecord.lineWith (r : LabelRecord) (rest : List Char) : List Char :=
  "SQLB".toList ++ ' ' :: '"' :: (r.name.toList ++ '"' :: ',' :: (r.kind.name.toList ++
    ',' :: (Decimal.digitsOf r.start ++ ',' :: (Decimal.digitsOf r.stop ++
      ',' :: '"' :: (r.wavetableOrSync.toList ++ '"' :: rest)))))

/-- The lines that write a label: with its port, which may be left out when it is that of every
pin. -/
inductive LabelRecord.IsWritten (r : LabelRecord) : List Char → Prop
  | full : IsWritten r (r.lineWith (',' :: portField r.port))
  | everyPin (h : r.port = everyPinPort) : IsWritten r (r.lineWith [])

/-- `SQPG number,instruction,operand,operand,memory,(port)`. -/
def Instruction.line (i : Instruction) : List Char :=
  "SQPG".toList ++ ' ' :: (Decimal.digitsOf i.cmdNo ++ ',' :: (i.opcode.mnemonic.toList ++
    ',' :: (i.operand1.toList ++ ',' :: (i.operand2.toList ++ ',' :: (i.memory.toList ++
      ',' :: portField i.port)))))

/-! ### Files that can be written -/

/-- One or more word characters. -/
def IsWordText (s : String) : Prop :=
  s.toList ≠ [] ∧ s.toList.all isWord = true

/-- One or more characters that a port can have. -/
def IsPortText (s : String) : Prop :=
  s.toList ≠ [] ∧ s.toList.all (fun c ↦ isWord c || c == '@') = true

/-- A text on one line without a character that would end its field. -/
def IsFieldText (stop : Char) (s : String) : Prop :=
  stop ∉ s.toList ∧ '\n' ∉ s.toList

structure MemoryRecord.Fits (r : MemoryRecord) : Prop where
  memory : IsWordText r.memory
  size : r.size < widthBound 64
  port : IsPortText r.port

structure LabelRecord.Fits (r : LabelRecord) : Prop where
  name_ne : r.name ≠ ""
  name : IsFieldText '"' r.name
  start : r.start < widthBound 32
  stop : r.stop < widthBound 32
  wavetableOrSync : IsFieldText '"' r.wavetableOrSync
  port : IsPortText r.port

structure Instruction.Fits (i : Instruction) : Prop where
  cmdNo : i.cmdNo < widthBound 32
  operand1 : IsFieldText ',' i.operand1
  operand2 : IsFieldText ',' i.operand2
  memory : IsFieldText ',' i.memory
  port : IsPortText i.port

/-- The records of a file fit the forms of their lines. In a file with a MAIN label `STOP` ends the
reading, so there it is the operation of the last instruction at most. -/
structure VectorFile.Fits (f : VectorFile) : Prop where
  path : f.path = none
  memories : ∀ r ∈ f.memories, r.Fits
  labels : ∀ r ∈ f.labels, r.Fits
  instructions : ∀ i ∈ f.instructions, i.Fits
  stops : (∃ r ∈ f.labels, r.kind = .main) → ∀ i ∈ f.instructions.dropLast, i.opcode ≠ .stop

/-- The text of a file with certain lines for its labels. -/
def VectorFile.text (f : VectorFile) (labelLines : List (List Char)) : List Char :=
  joinLines (VectorFile.header.toList ::
    (f.memories.map MemoryRecord.line ++ labelLines ++ f.instructions.map Instruction.line))

/-- What may follow the records of a vector file: nothing but the end of the last line, or an empty
line and any text whatever. -/
def IsAfterRecords (tail : List Char) : Prop :=
  tail = [] ∨ ∃ blanks rest, tail = '\n' :: (blanks ++ rest) ∧ (∀ c ∈ blanks, isBlank c = true) ∧
    (rest = [] ∨ ∃ any, rest = '\n' :: any)

/-! ### Fields -/

namespace Form

theorem field?_append {p : Char → Bool} {s : List Char} (hne : s ≠ []) (hs : ∀ c ∈ s, p c = true)
    (hcomma : p ',' = false) (rest : List Char) :
    field? p (s ++ ',' :: rest) = some (String.ofList s, rest) := by
  rw [field?, takeWhile_upTo hs hcomma, dropWhile_upTo hs hcomma]
  cases s with
  | nil => exact absurd rfl hne
  | cons c s => rfl

theorem field?_word {s : String} (h : IsWordText s) (rest : List Char) :
    field? isWord (s.toList ++ ',' :: rest) = some (s, rest) := by
  rw [field?_append h.1 (List.all_eq_true.mp h.2) (by decide), String.ofList_toList]

theorem field?_digitsOf (n : Nat) (rest : List Char) :
    field? isDigit (Decimal.digitsOf n ++ ',' :: rest) =
      some (String.ofList (Decimal.digitsOf n), rest) :=
  field?_append (digitsOf_ne_nil n)
    (fun _ hc ↦ isDigit_of_isAsciiDigit (isAsciiDigit_of_mem_digitsOf hc)) (by decide) rest

theorem anyField?_append {s : String} (h : IsFieldText ',' s) (rest : List Char) :
    anyField? (s.toList ++ ',' :: rest) = some (s, rest) := by
  obtain ⟨htake, hdrop⟩ := upTo_of_notMem h.1 rest
  simp [anyField?, htake, hdrop]

theorem quotedField?_append {s : String} (h : IsFieldText '"' s) (rest : List Char) :
    quotedField? ('"' :: (s.toList ++ '"' :: ',' :: rest)) = some (s, rest) := by
  rw [quotedField?, quoted?_append h.1]
  simp

theorem port?_portField {port : String} (h : IsPortText port) :
    port? (portField port) = some port := by
  have hport : ∀ c ∈ port.toList, (isWord c || c == '@') = true := List.all_eq_true.mp h.2
  have hstop : (isWord ')' || ')' == '@') = false := by decide
  have htake := takeWhile_upTo hport hstop []
  have hdrop := dropWhile_upTo hport hstop []
  obtain ⟨c, more, hcons⟩ := List.exists_cons_of_ne_nil h.1
  simp only [portField, port?, htake, hdrop]
  split
  · rename_i d rest hd _
    rw [← hd, String.ofList_toList]
  · rename_i hno
    exact absurd rfl (hno c more hcons)

end Form

/-! ### Records -/

theorem isWordText_name (area : MemoryArea) : IsWordText area.name := by
  cases area <;> exact ⟨by decide, by decide⟩

theorem isWordText_kindName (kind : LabelKind) : IsWordText kind.name := by
  cases kind <;> exact ⟨by decide, by decide⟩

theorem isWordText_mnemonic (op : Opcode) : IsWordText op.mnemonic := by
  cases op <;> exact ⟨by decide, by decide⟩

theorem MemoryArea.ofText_name (area : MemoryArea) : MemoryArea.ofText area.name = .ok area := by
  cases area <;> rfl

theorem LabelKind.ofText_name (kind : LabelKind) : LabelKind.ofText kind.name = .ok kind := by
  cases kind <;> rfl

theorem Opcode.ofText_mnemonic (op : Opcode) : Opcode.ofText op.mnemonic = .ok op := by
  cases op <;> rfl

theorem VectorRecord.readBounded_digitsOf {bound n : Nat} (h : n < bound) :
    readBounded bound (String.ofList (Decimal.digitsOf n)) = .ok n := by
  rw [readBounded, readNat?_digitsOf h]

theorem MemoryRecord.ofText_line {r : MemoryRecord} (h : r.Fits) :
    VectorRecord.ofText (String.ofList r.line) = .ok (.memory r) := by
  have harea := isWordText_name r.area
  have hform : RecordLine.ofText? (String.ofList r.line) =
      some (.memory r.area.name r.memory (String.ofList (Decimal.digitsOf r.size)) r.port) := by
    have hmemory : RecordLine.memory? r.line =
        some (.memory r.area.name r.memory (String.ofList (Decimal.digitsOf r.size)) r.port) := by
      rw [RecordLine.memory?, line,
        Form.afterKeyword?_written "DMAS" (isBlank_head?_append harea.1 harea.2 _)]
      simp [Form.field?_word harea, Form.field?_word h.memory, Form.field?_digitsOf,
        Form.port?_portField h.port]
    rw [RecordLine.ofText?, String.toList_ofList, hmemory]
    rfl
  rw [VectorRecord.ofText, hform]
  dsimp only
  rw [VectorRecord.ofForm, MemoryArea.ofText_name, VectorRecord.readBounded_digitsOf h.size]
  rfl

theorem LabelRecord.ofText_lineWith {r : LabelRecord} (h : r.Fits) {rest : List Char}
    (hrest : rest = ',' :: portField r.port ∨ rest = [] ∧ r.port = everyPinPort) :
    VectorRecord.ofText (String.ofList (r.lineWith rest)) = .ok (.label r) := by
  have hlabel : RecordLine.label? (r.lineWith rest) =
      some (.label r.name r.kind.name (String.ofList (Decimal.digitsOf r.start))
        (String.ofList (Decimal.digitsOf r.stop)) r.wavetableOrSync r.port) := by
    rw [RecordLine.label?, lineWith,
      Form.afterKeyword?_written "SQLB" fun c hc ↦ by cases hc; decide]
    rcases hrest with rfl | ⟨rfl, hport⟩
    · simp [Form.quotedField?_append h.name, Form.field?_word (isWordText_kindName r.kind),
        Form.field?_digitsOf, Form.quoted?_append h.wavetableOrSync.1, Form.port?_portField h.port,
        h.name_ne]
    · simp [Form.quotedField?_append h.name, Form.field?_word (isWordText_kindName r.kind),
        Form.field?_digitsOf, Form.quoted?_append h.wavetableOrSync.1, h.name_ne, hport]
  have hform : RecordLine.ofText? (String.ofList (r.lineWith rest)) =
      some (.label r.name r.kind.name (String.ofList (Decimal.digitsOf r.start))
        (String.ofList (Decimal.digitsOf r.stop)) r.wavetableOrSync r.port) := by
    have hmemory : RecordLine.memory? (r.lineWith rest) = none := rfl
    rw [RecordLine.ofText?, String.toList_ofList, hmemory, hlabel]
    rfl
  rw [VectorRecord.ofText, hform]
  dsimp only
  rw [VectorRecord.ofForm, LabelKind.ofText_name, VectorRecord.readBounded_digitsOf h.start,
    VectorRecord.readBounded_digitsOf h.stop]
  rfl

theorem LabelRecord.ofText_of_isWritten {r : LabelRecord} (h : r.Fits) {line : List Char}
    (hline : r.IsWritten line) : VectorRecord.ofText (String.ofList line) = .ok (.label r) := by
  cases hline with
  | full => exact ofText_lineWith h (.inl rfl)
  | everyPin hport => exact ofText_lineWith h (.inr ⟨rfl, hport⟩)

theorem Instruction.ofText_line {i : Instruction} (h : i.Fits) :
    VectorRecord.ofText (String.ofList i.line) = .ok (.instruction i) := by
  have hnumber : (Decimal.digitsOf i.cmdNo).all isWord = true :=
    List.all_eq_true.mpr fun c hc ↦ isWord_of_isAsciiDigit (isAsciiDigit_of_mem_digitsOf hc)
  have hinstruction : RecordLine.instruction? i.line =
      some (.instruction (String.ofList (Decimal.digitsOf i.cmdNo)) i.opcode.mnemonic i.operand1
        i.operand2 i.memory i.port) := by
    rw [RecordLine.instruction?, line,
      Form.afterKeyword?_written "SQPG" (isBlank_head?_append (digitsOf_ne_nil _) hnumber _)]
    simp [Form.field?_word (isWordText_mnemonic i.opcode), Form.field?_digitsOf,
      Form.anyField?_append h.operand1, Form.anyField?_append h.operand2,
      Form.anyField?_append h.memory, Form.port?_portField h.port]
  have hform : RecordLine.ofText? (String.ofList i.line) =
      some (.instruction (String.ofList (Decimal.digitsOf i.cmdNo)) i.opcode.mnemonic i.operand1
        i.operand2 i.memory i.port) := by
    have hmemory : RecordLine.memory? i.line = none := rfl
    have hlabel : RecordLine.label? i.line = none := rfl
    rw [RecordLine.ofText?, String.toList_ofList, hmemory, hlabel, hinstruction]
    rfl
  rw [VectorRecord.ofText, hform]
  dsimp only
  rw [VectorRecord.ofForm, Opcode.ofText_mnemonic, VectorRecord.readBounded_digitsOf h.cmdNo]
  rfl

/-! ### Lines of a text -/

theorem notMem_of_all {p : Char → Bool} {s : List Char} {c : Char} (hs : s.all p = true)
    (hc : p c = false) : c ∉ s := by
  intro hmem
  rw [List.all_eq_true.mp hs c hmem] at hc
  cases hc

theorem IsWordText.noBreak {s : String} (h : IsWordText s) : '\n' ∉ s.toList :=
  notMem_of_all h.2 (by decide)

theorem IsPortText.noBreak {s : String} (h : IsPortText s) : '\n' ∉ s.toList :=
  notMem_of_all h.2 (by decide)

theorem noBreak_digitsOf (n : Nat) : '\n' ∉ Decimal.digitsOf n := by
  intro h
  exact absurd (isAsciiDigit_of_mem_digitsOf h) (by decide)

theorem MemoryRecord.isLine_line {r : MemoryRecord} (h : r.Fits) : IsLine r.line where
  first := by simp [line]; decide
  last := by simp [line, portField, List.getLast?_cons, List.getLast?_append]; decide
  ne_nil := by simp [line]
  noBreak := by
    simp [line, portField, (isWordText_name r.area).noBreak, h.memory.noBreak,
      noBreak_digitsOf r.size, h.port.noBreak]

theorem LabelRecord.isLine_of_isWritten {r : LabelRecord} (h : r.Fits) {line : List Char}
    (hline : r.IsWritten line) : IsLine line := by
  cases hline with
  | full =>
    exact {
      first := by simp [lineWith]; decide
      last := by simp [lineWith, portField, List.getLast?_cons, List.getLast?_append]; decide
      ne_nil := by simp [lineWith]
      noBreak := by
        simp [lineWith, portField, h.name.2, (isWordText_kindName r.kind).noBreak,
          noBreak_digitsOf r.start, noBreak_digitsOf r.stop, h.wavetableOrSync.2, h.port.noBreak] }
  | everyPin =>
    exact {
      first := by simp [lineWith]; decide
      last := by simp [lineWith, List.getLast?_cons, List.getLast?_append]; decide
      ne_nil := by simp [lineWith]
      noBreak := by
        simp [lineWith, h.name.2, (isWordText_kindName r.kind).noBreak, noBreak_digitsOf r.start,
          noBreak_digitsOf r.stop, h.wavetableOrSync.2] }

theorem Instruction.isLine_line {i : Instruction} (h : i.Fits) : IsLine i.line where
  first := by simp [line]; decide
  last := by simp [line, portField, List.getLast?_cons, List.getLast?_append]; decide
  ne_nil := by simp [line]
  noBreak := by
    simp [line, portField, noBreak_digitsOf i.cmdNo, (isWordText_mnemonic i.opcode).noBreak,
      h.operand1.2, h.operand2.2, h.memory.2, h.port.noBreak]

/-! ### Reading the lines -/

namespace VectorRecord

/-- A line that is read as a record and not passed over. -/
structure IsReadFrom (line : String) (record : VectorRecord) : Prop where
  ne_empty : line ≠ ""
  kept : skippedRecords.any (Form.startsWith line) = false
  ofText : VectorRecord.ofText line = .ok record

/-- Lines that each write a record are read up to the empty line behind them. A `STOP` in a file
with a MAIN label ends the reading before that, so it may only be the last of the records. -/
theorem readAll_written {origin : String} {records : List VectorRecord} {texts after : List String}
    (h : List.Forall₂ IsReadFrom texts records) (hafter : ∀ t, after.head? = some t → t = "")
    {mainSeen : Bool}
    (hstop : (mainSeen = true ∨ ∃ r ∈ records, r.isMain = true) →
      ∀ r ∈ records.dropLast, r.isStop = false)
    {lines : List Line} (hlines : lines.map Line.text = texts ++ after) :
    readAll origin mainSeen lines = .ok records := by
  induction h generalizing mainSeen lines with
  | nil =>
    cases lines with
    | nil => rfl
    | cons line rest =>
      rw [List.nil_append] at hlines
      have hempty : line.text = "" := hafter _ (by rw [← hlines]; rfl)
      rw [readAll, if_pos hempty]
  | cons hfirst hothers ih =>
    rename_i text record texts records
    cases lines with
    | nil => cases hlines
    | cons line rest =>
      rw [List.map_cons, List.cons_append, List.cons.injEq] at hlines
      obtain ⟨rfl, hrest⟩ := hlines
      rw [readAll, if_neg hfirst.ne_empty, hfirst.kept, if_neg Bool.false_ne_true, hfirst.ofText]
      dsimp only
      by_cases hend : (record.isStop && (mainSeen || record.isMain)) = true
      · rw [if_pos hend]
        rw [Bool.and_eq_true, Bool.or_eq_true] at hend
        -- a record behind this one would make it a `STOP` before the last
        cases records with
        | nil => rfl
        | cons other records =>
          have hmain : mainSeen = true ∨ ∃ r ∈ record :: other :: records, r.isMain = true :=
            hend.2.imp_right fun hr ↦ ⟨record, List.mem_cons_self, hr⟩
          have hgo := hstop hmain record (by simp)
          rw [hend.1] at hgo
          cases hgo
      · have hothers : readAll origin (mainSeen || record.isMain) rest = .ok records := by
          refine ih (fun hmain r hr ↦ hstop ?_ r ?_) hrest
          · rw [Bool.or_eq_true, or_assoc] at hmain
            refine hmain.imp_right fun hlater ↦ ?_
            rcases hlater with hrecord | ⟨other, hmem, hother⟩
            · exact ⟨record, List.mem_cons_self, hrecord⟩
            · exact ⟨other, List.mem_cons_of_mem _ hmem, hother⟩
          · cases records with
            | nil => cases hr
            | cons other records => exact List.mem_cons_of_mem _ hr
        rw [if_neg hend, hothers]
        rfl

end VectorRecord

theorem MemoryRecord.isReadFrom_line {r : MemoryRecord} (h : r.Fits) :
    VectorRecord.IsReadFrom (String.ofList r.line) (.memory r) where
  ne_empty := by simp [line]
  kept := by simp [VectorRecord.skippedRecords, Form.startsWith, line, Form.strip?]
  ofText := ofText_line h

theorem LabelRecord.isReadFrom_of_isWritten {r : LabelRecord} (h : r.Fits) {line : List Char}
    (hline : r.IsWritten line) :
    VectorRecord.IsReadFrom (String.ofList line) (.label r) := by
  refine ⟨?_, ?_, ofText_of_isWritten h hline⟩
  · cases hline <;> simp [lineWith]
  · cases hline <;> simp [lineWith, VectorRecord.skippedRecords, Form.startsWith, Form.strip?]

theorem Instruction.isReadFrom_line {i : Instruction} (h : i.Fits) :
    VectorRecord.IsReadFrom (String.ofList i.line) (.instruction i) where
  ne_empty := by simp [line]
  kept := by simp [VectorRecord.skippedRecords, Form.startsWith, line, Form.strip?]
  ofText := ofText_line h

/-! ### Files -/

namespace VectorFile

/-- The records of a file in the order in which they are written. -/
def records (f : VectorFile) : List VectorRecord :=
  f.memories.map .memory ++ f.labels.map .label ++ f.instructions.map .instruction

theorem ofRecords_records {f : VectorFile} (hpath : f.path = none) : ofRecords f.records = f := by
  obtain ⟨path, memories, labels, instructions⟩ := f
  obtain rfl : path = none := hpath
  simp [ofRecords, records, List.filterMap_append, List.filterMap_map]

theorem exists_label_of_isMain {f : VectorFile} {r : VectorRecord} (h : r ∈ f.records)
    (hmain : r.isMain = true) : ∃ l ∈ f.labels, l.kind = .main := by
  cases r with
  | memory m => cases hmain
  | label l => exact ⟨l, by simpa [records] using h, by simpa [VectorRecord.isMain] using hmain⟩
  | instruction i => cases hmain

/-- Only a `STOP` among the instructions stops the reading, so none of the records before the last
does in a file that fits. -/
theorem isStop_eq_false {f : VectorFile} (hf : f.Fits) (hmain : ∃ r ∈ f.records, r.isMain = true)
    {r : VectorRecord} (hr : r ∈ f.records.dropLast) : r.isStop = false := by
  obtain ⟨label, hlabel, hkind⟩ := hmain
  cases r with
  | memory m => rfl
  | label l => rfl
  | instruction i =>
    have hi : i ∈ f.instructions.dropLast := by
      by_cases hnil : f.instructions = []
      · have hmem := List.dropLast_subset _ hr
        simp [records, hnil] at hmem
      · rw [records, List.dropLast_append_of_ne_nil (by simpa using hnil), ← List.map_dropLast,
          List.mem_append] at hr
        rcases hr with hother | hmem
        · simp at hother
        · obtain ⟨j, hj, hji⟩ := List.mem_map.mp hmem
          cases hji
          exact hj
    simpa [VectorRecord.isStop] using hf.stops (exists_label_of_isMain hlabel hkind) i hi

theorem isReadFrom_labels {labels : List LabelRecord} (hfits : ∀ r ∈ labels, r.Fits)
    {lines : List (List Char)} (h : List.Forall₂ LabelRecord.IsWritten labels lines) :
    List.Forall₂ VectorRecord.IsReadFrom (lines.map String.ofList) (labels.map .label) := by
  induction h with
  | nil => exact .nil
  | cons hline _ ih =>
    exact .cons (LabelRecord.isReadFrom_of_isWritten (hfits _ List.mem_cons_self) hline)
      (ih fun r hr ↦ hfits r (List.mem_cons_of_mem _ hr))

/-- The lines of a file that fits write its records. -/
theorem isReadFrom_lines {f : VectorFile} (hf : f.Fits) {labelLines : List (List Char)}
    (hlabels : List.Forall₂ LabelRecord.IsWritten f.labels labelLines) :
    List.Forall₂ VectorRecord.IsReadFrom
      ((f.memories.map MemoryRecord.line ++ labelLines ++ f.instructions.map Instruction.line).map
        String.ofList) f.records := by
  have hmemories : List.Forall₂ VectorRecord.IsReadFrom
      ((f.memories.map MemoryRecord.line).map String.ofList) (f.memories.map .memory) := by
    rw [List.map_map, List.forall₂_map_left_iff, List.forall₂_map_right_iff, List.forall₂_same]
    exact fun r hr ↦ MemoryRecord.isReadFrom_line (hf.memories r hr)
  have hinstructions : List.Forall₂ VectorRecord.IsReadFrom
      ((f.instructions.map Instruction.line).map String.ofList)
      (f.instructions.map .instruction) := by
    rw [List.map_map, List.forall₂_map_left_iff, List.forall₂_map_right_iff, List.forall₂_same]
    exact fun i hi ↦ Instruction.isReadFrom_line (hf.instructions i hi)
  rw [List.map_append, List.map_append]
  exact List.rel_append (List.rel_append hmemories (isReadFrom_labels hf.labels hlabels))
    hinstructions

theorem isLine_labels {labels : List LabelRecord} (hfits : ∀ r ∈ labels, r.Fits)
    {lines : List (List Char)} (h : List.Forall₂ LabelRecord.IsWritten labels lines) :
    ∀ l ∈ lines, IsLine l := by
  induction h with
  | nil => simp
  | cons hline _ ih =>
    rw [List.forall_mem_cons]
    exact ⟨LabelRecord.isLine_of_isWritten (hfits _ List.mem_cons_self) hline,
      ih fun r hr ↦ hfits r (List.mem_cons_of_mem _ hr)⟩

/-- The lines of a written file are lines of its text. -/
theorem isLine_lines {f : VectorFile} (hf : f.Fits) {labelLines : List (List Char)}
    (hlabels : List.Forall₂ LabelRecord.IsWritten f.labels labelLines) :
    ∀ l ∈ header.toList ::
      (f.memories.map MemoryRecord.line ++ labelLines ++ f.instructions.map Instruction.line),
      IsLine l := by
  intro l hl
  simp only [List.mem_cons, List.mem_append, List.mem_map] at hl
  rcases hl with rfl | (⟨r, hr, rfl⟩ | hlabel) | ⟨i, hi, rfl⟩
  · exact {
      first := by simp [header]; decide
      last := by simp [header]; decide
      ne_nil := by simp [header]
      noBreak := by simp [header] }
  · exact MemoryRecord.isLine_line (hf.memories r hr)
  · exact isLine_labels hf.labels hlabels l hlabel
  · exact Instruction.isLine_line (hf.instructions i hi)

/-- What follows the records starts with an empty line. -/
theorem head?_lines_afterRecords {tail : List Char} (h : IsAfterRecords tail) :
    ∀ t, ((lines tail.tail).map fun l ↦ String.ofList (trim l)).head? = some t → t = "" := by
  intro t ht
  rcases h with rfl | ⟨blanks, rest, rfl, hblanks, hrest⟩
  · cases ht
  · rw [List.head?_map, Option.map_eq_some_iff] at ht
    obtain ⟨line, hline, rfl⟩ := ht
    have hblank := isBlank_of_mem_firstLine hblanks hrest hline
    rw [trim_eq_nil hblank]

/-- A file is read back from its text, whatever follows the records behind an empty line. -/
theorem parse_written {f : VectorFile} (hf : f.Fits) {labelLines : List (List Char)}
    (hlabels : List.Forall₂ LabelRecord.IsWritten f.labels labelLines) {tail : List Char}
    (htail : IsAfterRecords tail) (origin : String) :
    VectorFile.parse (String.ofList (f.text labelLines ++ tail)) origin = .ok f := by
  have hbreak : tail = [] ∨ ∃ more, tail = '\n' :: more := by
    rcases htail with rfl | ⟨blanks, rest, rfl, -, -⟩
    · exact .inl rfl
    · exact .inr ⟨_, rfl⟩
  have htexts := texts_numberedLines_joinLines (isLine_lines hf hlabels) (List.cons_ne_nil _ _)
    hbreak
  rw [List.map_cons, String.ofList_toList] at htexts
  unfold VectorFile.parse VectorFile.text
  generalize numberedLines _ = lines at htexts ⊢
  cases lines with
  | nil => cases htexts
  | cons first rest =>
    rw [List.map_cons, List.cons_append, List.cons.injEq] at htexts
    obtain ⟨hfirst, hrest⟩ := htexts
    have haccept : isHeader first.text language = true := by
      rw [hfirst]
      decide
    have hread : VectorRecord.readAll origin false rest = .ok f.records :=
      VectorRecord.readAll_written (isReadFrom_lines hf hlabels) (head?_lines_afterRecords htail)
        (fun hmain r hr ↦ isStop_eq_false hf (by simpa using hmain) hr) hrest
    rw [afterHeader, if_pos haccept]
    show (do return ofRecords (← VectorRecord.readAll origin false rest)) = Except.ok f
    rw [hread]
    exact congrArg Except.ok (ofRecords_records hf.path)

/-- A program with a MAIN label and the port of a burst on every pin. -/
def mainProgram : VectorFile where
  path := none
  memories := [⟨.mtst, "SM", 2, "@"⟩]
  labels := [⟨"main prog", .main, 0, 1, "fast", "P1"⟩, ⟨"burst", .burst, 0, 0, "", "@"⟩]
  instructions := [⟨0, .genv, "3", "", "", "P1"⟩, ⟨1, .stop, "", "", "", "P1"⟩]

theorem mainProgram_fits : mainProgram.Fits where
  path := rfl
  memories := by
    simp only [mainProgram, List.forall_mem_singleton]
    exact ⟨⟨by decide, by decide⟩, by decide, ⟨by decide, by decide⟩⟩
  labels := by
    simp only [mainProgram, List.forall_mem_cons]
    refine ⟨⟨by decide, ⟨by decide, by decide⟩, by decide, by decide, ⟨by decide, by decide⟩,
      ⟨by decide, by decide⟩⟩, ⟨by decide, ⟨by decide, by decide⟩, by decide, by decide,
      ⟨by decide, by decide⟩, ⟨by decide, by decide⟩⟩, by simp⟩
  instructions := by
    simp only [mainProgram, List.forall_mem_cons]
    refine ⟨⟨by decide, ⟨by decide, by decide⟩, ⟨by decide, by decide⟩, ⟨by decide, by decide⟩,
      ⟨by decide, by decide⟩⟩, ⟨by decide, ⟨by decide, by decide⟩, ⟨by decide, by decide⟩,
      ⟨by decide, by decide⟩, ⟨by decide, by decide⟩⟩, by simp⟩
  stops := by
    intro _ i hi
    obtain rfl : i = ⟨0, .genv, "3", "", "", "P1"⟩ := by simpa [mainProgram] using hi
    decide

/-- What stands behind the empty line is no record, though it looks like one. -/
theorem parse_written_mainProgram :
    VectorFile.parse "hp93000,vector,0.1
DMAS MTST,SM,2,(@)
SQLB \"main prog\",MAIN,0,1,\"fast\",(P1)
SQLB \"burst\",MPBU,0,0,\"\"
SQPG 0,GENV,3,,,(P1)
SQPG 1,STOP,,,,(P1)
  
SQPG 2,BEND,,,,(P1)" "memory" = .ok mainProgram := by
  have hafter : IsAfterRecords ('\n' :: ([' ', ' '] ++ '\n' :: "SQPG 2,BEND,,,,(P1)".toList)) :=
    .inr ⟨[' ', ' '], _, rfl, by simp; decide, .inr ⟨_, rfl⟩⟩
  have hlabels : List.Forall₂ LabelRecord.IsWritten mainProgram.labels
      [LabelRecord.lineWith _ (',' :: portField "P1"), LabelRecord.lineWith _ []] :=
    .cons .full (.cons (.everyPin rfl) .nil)
  have hwritten := parse_written mainProgram_fits hlabels hafter "memory"
  convert hwritten using 2
  decide +kernel

end VectorFile

end TesterSetup
