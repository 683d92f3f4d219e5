import TesterSetup.Proofs.CommentLines
import TesterSetup.Proofs.RespacedPrograms
import TesterSetup.Proofs.WrittenVectors

/-!
# Blanks around operands

An instruction of a vector text is written with any blanks around its two operands
(`InstructionText`, `Operands`), as is every line that reads as an instruction
(`InstructionText.exists_raw_eq_instruction`), and two texts that differ in these blanks alone are
compared (`RespacesOperands`). The other fields of such a line are read without regard to the operands, which
are kept as they are written (`InstructionText.ofText?_text`). So both texts are read or both are
refused, with instructions that are the same up to their operands (`VectorFile.together_parse`), and
assembling them gives programs of the same costs.

The targets of calls are another matter. An operand loses the quotes at its ends before it names a
label, but not the blanks around these, so a blank always stays in the name and keeps the quotes
behind it there as well (`dropQuotes_trimmed_iff`). Hence the labels that a file calls stay the same
when no second operand of a `CALL` is touched, and when those of one text are bare, they are the
same exactly when those of the other one are bare, too (`VectorFile.parse_operands_respaced`).
-/

set_option autoImplicit false

namespace TesterSetup

open TesterSetup.Text

/-! ### Instructions as they are written -/

/-- The two operands of an instruction as they are written. -/
structure Operands where
  first : List Char
  second : List Char
  noComma_first : ',' ∉ first
  noComma_second : ',' ∉ second

/-- A line with an instruction, up to its operands: the blanks in front, the fields between the
keyword and the operands, and all that follows the operands. -/
structure InstructionText where
  lead : List Char
  number : List Char
  opcode : List Char
  rest : List Char
  isBlank_lead : ∀ c ∈ lead, isBlank c = true
  noComma_number : ',' ∉ number
  noComma_opcode : ',' ∉ opcode

/-- Two pairs of operands are the same up to the blanks around them. -/
structure Operands.Respaced (o o' : Operands) : Prop where
  first_eq : trim o.first = trim o'.first
  second_eq : trim o.second = trim o'.second

namespace InstructionText

variable (t : InstructionText) (o : Operands)

/-- The fields behind the keyword. -/
def fields (rest : List Char) : List Char :=
  t.number ++ ',' :: (t.opcode ++ ',' :: (o.first ++ ',' :: (o.second ++ ',' :: rest)))

/-- The line with some operands. -/
def raw : List Char :=
  t.lead ++ ("SQPG".toList ++ t.fields o t.rest)

/-- The line as it is read. -/
def text : String :=
  String.ofList (trim (t.raw o))

theorem toList_text : (t.text o).toList = "SQPG".toList ++ t.fields o (dropBlanksRight t.rest) := by
  have hlead : dropBlanks (t.raw o) = "SQPG".toList ++ t.fields o t.rest :=
    dropWhile_append_of_head? t.isBlank_lead fun c hc ↦ by cases hc; decide
  have hassoc : ∀ rest : List Char, "SQPG".toList ++ t.fields o rest =
      ("SQPG".toList ++ (t.number ++ ',' :: (t.opcode ++ ',' :: (o.first ++ ',' :: o.second)))) ++
        ',' :: rest := fun rest ↦ by simp [fields]
  rw [text, String.toList_ofList, trim, hlead, hassoc, hassoc,
    dropBlanksRight_append_cons (by decide)]

end InstructionText

/-! ### Fields up to a comma -/

namespace Form

variable {s : List Char}

theorem field?_nil {p : Char → Bool} (hp : p ',' = false) (rest : List Char) :
    field? p (',' :: rest) = none := by
  rw [field?, List.takeWhile_cons_of_neg (by simp [hp])]

/-- A field is no longer than its characters. -/
theorem field?_eq_none {p : Char → Bool} {d : Char} {more : List Char}
    (h : s.dropWhile p = d :: more) (hd : d ≠ ',') (rest : List Char) :
    field? p (s ++ rest) = none := by
  have hdrop : (s ++ rest).dropWhile p = d :: (more ++ rest) := by
    rw [List.dropWhile_append, h]
    rfl
  rw [field?, hdrop]
  split
  · rename_i heq
    cases heq
    exact absurd rfl hd
  · rfl

/-- Whether there is a field and what it is, is settled in front of the comma. -/
theorem field?_upTo {p : Char → Bool} (hp : p ',' = false) (h : ',' ∉ s) :
    (∀ rest, field? p (s ++ ',' :: rest) = none) ∨
      ∃ text, ∀ rest, field? p (s ++ ',' :: rest) = some (text, rest) := by
  by_cases hne : s = []
  · subst hne
    exact .inl (field?_nil hp)
  · cases hdrop : s.dropWhile p with
    | nil => exact .inr ⟨_, field?_append hne (List.dropWhile_eq_nil_iff.mp hdrop) hp⟩
    | cons d more =>
      have hd : d ∈ s := (List.dropWhile_sublist p).mem (hdrop ▸ List.mem_cons_self)
      exact .inl fun rest ↦ field?_eq_none hdrop (ne_of_mem_of_not_mem hd h) _

theorem anyField?_upTo (h : ',' ∉ s) (rest : List Char) :
    anyField? (s ++ ',' :: rest) = some (String.ofList s, rest) := by
  obtain ⟨htake, hdrop⟩ := upTo_of_notMem h rest
  simp [anyField?, htake, hdrop]

/-- What follows a keyword is settled in front of the comma. -/
theorem afterKeyword?_upTo (keyword : String) (h : ',' ∉ s) :
    (∀ rest, afterKeyword? keyword (keyword.toList ++ (s ++ ',' :: rest)) = none) ∨
      ∃ more, ',' ∉ more ∧ ∀ rest, afterKeyword? keyword (keyword.toList ++ (s ++ ',' :: rest)) =
        some (more ++ ',' :: rest) := by
  simp only [afterKeyword?, strip?_append]
  cases s with
  | nil => exact .inl fun rest ↦ if_neg (by decide)
  | cons c s =>
    rw [List.mem_cons, not_or] at h
    by_cases hblank : isBlank c = true
    · refine .inr ⟨dropBlanks s, fun hmem ↦ h.2 ((List.dropWhile_sublist isBlank).mem hmem),
        fun rest ↦ ?_⟩
      have hdrop : dropBlanks (s ++ ',' :: rest) = dropBlanks s ++ ',' :: rest := by
        rw [dropBlanks, dropBlanks, List.dropWhile_append, List.dropWhile_cons_of_neg (by decide)]
        split
        · rename_i hnil
          rw [List.isEmpty_iff.mp hnil, List.nil_append]
        · rfl
      exact (if_pos hblank).trans (congrArg some hdrop)
    · exact .inl fun rest ↦ if_neg hblank

theorem of_field? {p : Char → Bool} {text : String} {rest : List Char} (hp : p ',' = false)
    (h : field? p s = some (text, rest)) : s = text.toList ++ ',' :: rest ∧ ',' ∉ text.toList := by
  have hs : s.takeWhile p ++ s.dropWhile p = s := List.takeWhile_append_dropWhile
  unfold field? at h
  split at h
  · rename_i c field after htake hdrop
    cases h
    rw [htake, hdrop] at hs
    rw [String.toList_ofList]
    refine ⟨hs.symm, fun hmem ↦ ?_⟩
    rw [← htake] at hmem
    rw [List.mem_takeWhile_imp hmem] at hp
    cases hp
  · cases h

theorem of_anyField? {text : String} {rest : List Char} (h : anyField? s = some (text, rest)) :
    s = text.toList ++ ',' :: rest ∧ ',' ∉ text.toList := by
  have hs : s.takeWhile (· != ',') ++ s.dropWhile (· != ',') = s := List.takeWhile_append_dropWhile
  unfold anyField? at h
  split at h
  · rename_i after hdrop
    cases h
    rw [hdrop] at hs
    rw [String.toList_ofList]
    refine ⟨hs.symm, fun hmem ↦ ?_⟩
    exact absurd (List.mem_takeWhile_imp hmem) (by decide)
  · cases h

theorem of_afterKeyword? {keyword : String} {rest : List Char}
    (h : afterKeyword? keyword s = some rest) :
    ∃ blanks, s = keyword.toList ++ (blanks ++ rest) ∧ ∀ c ∈ blanks, isBlank c = true := by
  obtain ⟨c, after, hblank, rfl, rfl⟩ := exists_of_afterKeyword? h
  refine ⟨c :: after.takeWhile isBlank, ?_, List.forall_mem_cons.mpr
    ⟨hblank, fun d hd ↦ List.mem_takeWhile_imp hd⟩⟩
  rw [List.cons_append, dropBlanks, List.takeWhile_append_dropWhile]

end Form

/-! ### Records with other operands -/

namespace InstructionText

/-- Every line that is read as an instruction is written like this. -/
theorem exists_raw_eq {line : List Char} {form : RecordLine}
    (h : RecordLine.instruction? (trim line) = some form) :
    ∃ (t : InstructionText) (o : Operands), line = t.raw o := by
  obtain ⟨lead, trail, hline, hlead, -⟩ := exists_eq_trim_append line
  unfold RecordLine.instruction? at h
  simp only [Option.bind_eq_bind, Option.bind_eq_some_iff, Prod.exists] at h
  obtain ⟨fields, hkeyword, cmdNo, fields₁, hcmdNo, opcode, fields₂, hopcode, first, fields₃,
    hfirst, second, rest, hsecond, -⟩ := h
  obtain ⟨blanks, htrim, hblanks⟩ := Form.of_afterKeyword? hkeyword
  obtain ⟨rfl, hnumber⟩ := Form.of_field? (by decide) hcmdNo
  obtain ⟨rfl, hcode⟩ := Form.of_field? (by decide) hopcode
  obtain ⟨rfl, hleft⟩ := Form.of_anyField? hfirst
  obtain ⟨rfl, hright⟩ := Form.of_anyField? hsecond
  have hcomma : ',' ∉ blanks ++ cmdNo.toList := by
    rw [List.mem_append, not_or]
    exact ⟨fun hmem ↦ absurd (hblanks _ hmem) (by decide), hnumber⟩
  refine ⟨⟨lead, blanks ++ cmdNo.toList, opcode.toList, rest ++ trail, hlead, hcomma, hcode⟩,
    ⟨first.toList, second.toList, hleft, hright⟩, ?_⟩
  rw [htrim] at hline
  rw [hline]
  simp [raw, fields]

variable (t : InstructionText)

theorem ofText?_eq (o : Operands) :
    RecordLine.ofText? (t.text o) =
      RecordLine.instruction? ("SQPG".toList ++ t.fields o (dropBlanksRight t.rest)) := by
  unfold RecordLine.ofText?
  rw [toList_text]
  rfl

/-- The line is no record with any operands, or it is an instruction that takes its operands as they
are written. -/
theorem ofText?_text :
    (∀ o, RecordLine.ofText? (t.text o) = none) ∨
      ∃ cmdNo opcode memory port, ∀ o : Operands, RecordLine.ofText? (t.text o) =
        some (.instruction cmdNo opcode (String.ofList o.first) (String.ofList o.second) memory
          port) := by
  simp only [ofText?_eq, RecordLine.instruction?, fields]
  rcases Form.afterKeyword?_upTo "SQPG" t.noComma_number with hnone | ⟨more, hmore, hkeyword⟩
  · exact .inl fun o ↦ by rw [hnone]; rfl
  simp only [hkeyword, Option.bind_eq_bind, Option.bind_some]
  rcases Form.field?_upTo (p := isDigit) (by decide) hmore with hnone | ⟨cmdNo, hcmdNo⟩
  · exact .inl fun o ↦ by rw [hnone]; rfl
  simp only [hcmdNo, Option.bind_some]
  rcases Form.field?_upTo (p := isWord) (by decide) t.noComma_opcode with hnone | ⟨opcode, hopcode⟩
  · exact .inl fun o ↦ by rw [hnone]; rfl
  simp only [hopcode, Option.bind_some, Form.anyField?_upTo, Operands.noComma_first,
    Operands.noComma_second, not_false_eq_true]
  cases hmemory : Form.anyField? (dropBlanksRight t.rest) with
  | none => exact .inl fun _ ↦ rfl
  | some field =>
    cases hport : Form.port? field.2 with
    | none => exact .inl fun _ ↦ by simp [hport]
    | some port => exact .inr ⟨cmdNo, opcode, field.1, port, fun _ ↦ by simp [hport]⟩

/-- The operands of an instruction are those that its line is written with. -/
theorem exists_raw_eq_instruction {line : List Char} {form : RecordLine}
    (h : RecordLine.instruction? (trim line) = some form) :
    ∃ (t : InstructionText) (o : Operands) (cmdNo opcode memory port : String), line = t.raw o ∧
      form = .instruction cmdNo opcode (String.ofList o.first) (String.ofList o.second) memory
        port := by
  obtain ⟨t, o, rfl⟩ := exists_raw_eq h
  have hread : RecordLine.ofText? (t.text o) = some form := by
    rw [ofText?_eq, ← toList_text, text, String.toList_ofList, h]
  rcases t.ofText?_text with hnone | ⟨cmdNo, opcode, memory, port, hsome⟩
  · rw [hnone] at hread
    cases hread
  · rw [hsome] at hread
    cases hread
    exact ⟨t, o, cmdNo, opcode, memory, port, rfl, rfl⟩

end InstructionText

/-- Two lines are the same up to the blanks around the operands of an instruction. -/
inductive LineRespaced : List Char → List Char → Prop where
  | same (l : List Char) : LineRespaced l l
  | operands (t : InstructionText) {o o' : Operands} (h : o.Respaced o') :
    LineRespaced (t.raw o) (t.raw o')

/-- Two records are the same up to the blanks around their operands. -/
inductive VectorRecord.Respaced : VectorRecord → VectorRecord → Prop where
  | same (r : VectorRecord) : Respaced r r
  | instruction {i i' : Instruction} (h : i.Respaced i') :
    Respaced (.instruction i) (.instruction i')

/-- Two texts are the same up to the blanks around the operands of instructions. -/
def RespacesOperands (text text' : String) : Prop :=
  List.Forall₂ LineRespaced (lines text.toList) (lines text'.toList)

namespace VectorRecord

variable {r r' : VectorRecord}

theorem Respaced.isMain_eq (h : r.Respaced r') : r.isMain = r'.isMain := by
  cases h <;> rfl

theorem Respaced.isStop_eq (h : r.Respaced r') : r.isStop = r'.isStop := by
  cases h with
  | same => rfl
  | instruction h => rw [isStop, isStop, h.opcode_eq]

/-- An instruction is read whatever its operands are. -/
theorem together_ofForm {o o' : Operands} (h : o.Respaced o')
    (line line' cmdNo opcode memory port : String) :
    Together Respaced
      (ofForm line (.instruction cmdNo opcode (String.ofList o.first) (String.ofList o.second)
        memory port))
      (ofForm line' (.instruction cmdNo opcode (String.ofList o'.first) (String.ofList o'.second)
        memory port)) := by
  have htrim : ∀ {s s' : List Char}, trim s = trim s' →
      trimmed (String.ofList s) = trimmed (String.ofList s') := by
    intro s s' hs
    rw [trimmed, trimmed, String.toList_ofList, String.toList_ofList, hs]
  unfold ofForm
  refine (Together.rfl (x := ofModel (Opcode.ofText opcode))).bind ?_
  rintro opcode _ rfl
  refine (Together.rfl (x := readBounded (widthBound 32) cmdNo)).mapError.bind ?_
  rintro cmdNo _ rfl
  exact .ok (.instruction ⟨rfl, rfl, rfl, rfl, htrim h.first_eq, htrim h.second_eq⟩)

theorem together_ofText {l l' : List Char} (h : LineRespaced l l') :
    Together Respaced (ofText (String.ofList (trim l))) (ofText (String.ofList (trim l'))) := by
  cases h with
  | same =>
    cases ofText (String.ofList (trim l)) with
    | ok r => exact .ok (.same r)
    | error e => exact .error e e
  | @operands t o o' h =>
    show Together Respaced (ofText (t.text o)) (ofText (t.text o'))
    unfold ofText
    rcases t.ofText?_text with hnone | ⟨cmdNo, opcode, memory, port, hsome⟩
    · rw [hnone, hnone]
      exact .error _ _
    · rw [hsome, hsome]
      exact together_ofForm h _ _ cmdNo opcode memory port

/-- What decides whether a line is read at all. -/
theorem passed_iff_of_respaced {l l' : List Char} (h : LineRespaced l l') :
    (String.ofList (trim l) = "" ↔ String.ofList (trim l') = "") ∧
      skippedRecords.any (Form.startsWith (String.ofList (trim l))) =
        skippedRecords.any (Form.startsWith (String.ofList (trim l'))) := by
  cases h with
  | same => exact ⟨.rfl, rfl⟩
  | @operands t o o' h =>
    have hread : ∀ o, t.text o ≠ "" ∧ skippedRecords.any (Form.startsWith (t.text o)) = false := by
      intro o
      constructor
      · intro hempty
        have hnil := t.toList_text o
        rw [hempty] at hnil
        cases hnil
      · rw [skippedRecords, List.any_cons, List.any_cons, List.any_nil, Form.startsWith,
          Form.startsWith, t.toList_text]
        rfl
    show (t.text o = "" ↔ t.text o' = "") ∧ skippedRecords.any (Form.startsWith (t.text o)) =
      skippedRecords.any (Form.startsWith (t.text o'))
    rw [(hread o).2, (hread o').2]
    exact ⟨iff_of_false (hread o).1 (hread o').1, rfl⟩

/-- Records are read from both lists of lines or from neither. -/
theorem together_readAll {ls ls' : List (List Char)} (h : List.Forall₂ LineRespaced ls ls')
    (origin : String) (mainSeen : Bool) (k : Nat) :
    Together (List.Forall₂ Respaced) (readAll origin mainSeen (numberFrom k ls))
      (readAll origin mainSeen (numberFrom k ls')) := by
  induction h generalizing mainSeen k with
  | nil => exact .ok .nil
  | @cons l l' ls ls' hl _ ih =>
    obtain ⟨hempty, hskipped⟩ := passed_iff_of_respaced hl
    have hrecord := together_ofText hl
    rw [numberFrom_cons, numberFrom_cons]
    unfold readAll
    dsimp only
    simp only [hempty, hskipped]
    split
    · exact .ok .nil
    · split
      · exact ih _ _
      · generalize ofText (String.ofList (trim l)) = x at hrecord ⊢
        generalize ofText (String.ofList (trim l')) = y at hrecord ⊢
        cases hrecord with
        | error => exact .error _ _
        | @ok r r' hr =>
          dsimp only
          rw [hr.isStop_eq, hr.isMain_eq]
          split
          · exact .ok (.cons hr .nil)
          · exact (ih _ _).bind fun hrest ↦ .ok (.cons hr hrest)

end VectorRecord

namespace VectorFile

theorem related_ofRecords {rs rs' : List VectorRecord}
    (h : List.Forall₂ VectorRecord.Respaced rs rs') :
    (ofRecords rs).Related Instruction.Respaced (ofRecords rs') := by
  have hrel : ∀ {α : Type} {P : α → α → Prop} (part : VectorRecord → Option α),
      (∀ r r', r.Respaced r' → Option.Rel P (part r) (part r')) →
        List.Forall₂ P (rs.filterMap part) (rs'.filterMap part) :=
    fun _ hpart ↦ List.rel_filterMap hpart h
  have hmemories : (ofRecords rs).memories = (ofRecords rs').memories := by
    refine List.forall₂_eq_eq_eq ▸ hrel _ fun r r' hr ↦ ?_
    cases hr with
    | same r => cases r <;> constructor; rfl
    | instruction => exact .none
  have hlabels : (ofRecords rs).labels = (ofRecords rs').labels := by
    refine List.forall₂_eq_eq_eq ▸ hrel _ fun r r' hr ↦ ?_
    cases hr with
    | same r => cases r <;> constructor; rfl
    | instruction => exact .none
  have hinstructions : List.Forall₂ Instruction.Respaced (ofRecords rs).instructions
      (ofRecords rs').instructions := by
    refine hrel _ fun r r' hr ↦ ?_
    cases hr with
    | same r => cases r <;> constructor; exact ⟨rfl, rfl, rfl, rfl, rfl, rfl⟩
    | instruction h => exact .some h
  exact ⟨hinstructions, by rw [hmemories, hlabels]; rfl⟩

/-- Both texts are read or both are refused, with the same records up to the blanks. -/
theorem together_parse {text text' : String} (h : RespacesOperands text text') (origin : String) :
    Together (Related Instruction.Respaced) (parse text origin) (parse text' origin) := by
  have hheader : ∀ (t : InstructionText) o, isHeader (t.text o) language = false := by
    intro t o
    unfold isHeader
    rw [t.toList_text]
    rfl
  unfold parse
  rw [numberedLines_eq, numberedLines_eq]
  unfold RespacesOperands at h
  generalize lines text.toList = ls at h ⊢
  generalize lines text'.toList = ls' at h ⊢
  cases h with
  | nil => exact .error _ _
  | @cons l l' ls ls' hl hls =>
    rw [numberFrom_cons, numberFrom_cons, afterHeader, afterHeader]
    dsimp only
    cases hl with
    | operands t _ =>
      have htext : ∀ o, isHeader (String.ofList (trim (t.raw o))) language = false := hheader t
      rw [htext, htext]
      exact .error _ _
    | same =>
      split
      · exact (VectorRecord.together_readAll hls origin false 2).bind fun hrs ↦
          .ok (related_ofRecords hrs)
      · exact .error _ _

end VectorFile

/-! ### Targets of calls -/

section Quotes

variable {p : Char → Bool}

theorem filter_not_dropWhile (s : List Char) :
    (s.dropWhile p).filter (fun c ↦ !p c) = s.filter fun c ↦ !p c := by
  have hfront : (s.takeWhile p).filter (fun c ↦ !p c) = [] := by
    rw [List.filter_eq_nil_iff]
    intro c hc
    simp [List.mem_takeWhile_imp hc]
  conv_rhs => rw [← List.takeWhile_append_dropWhile (p := p) (l := s)]
  rw [List.filter_append, hfront, List.nil_append]

/-- All but quotes is left of a text without the quotes at its ends. -/
theorem filter_dropQuotes (s : String) :
    (dropQuotes s).toList.filter (fun c ↦ !(c == '"')) = s.toList.filter fun c ↦ !(c == '"') := by
  unfold dropQuotes
  rw [String.toList_ofList, List.filter_reverse, filter_not_dropWhile, ← List.filter_reverse,
    List.reverse_reverse, filter_not_dropWhile]

end Quotes

/-- The blanks around a text stay when its quotes go. -/
theorem dropQuotes_trimmed_iff (s : String) :
    dropQuotes s = dropQuotes (trimmed s) ↔ trimmed s = s := by
  refine ⟨fun h ↦ ?_, fun h ↦ by rw [h]⟩
  obtain ⟨lead, trail, hs, hlead, htrail⟩ := exists_eq_trim_append s.toList
  have hkept : ∀ {blanks : List Char}, (∀ c ∈ blanks, isBlank c = true) →
      blanks.filter (fun c ↦ !(c == '"')) = blanks := by
    intro blanks hblanks
    rw [List.filter_eq_self]
    intro c hc
    have hquote : c ≠ '"' := by
      rintro rfl
      exact absurd (hblanks _ hc) (by decide)
    simp [hquote]
  have hfilter := congrArg (fun s : String ↦ (s.toList.filter fun c ↦ !(c == '"')).length) h
  simp only [filter_dropQuotes] at hfilter
  rw [trimmed, String.toList_ofList, hs, List.filter_append, List.filter_append, hkept hlead,
    hkept htrail, ← hs, List.length_append, List.length_append] at hfilter
  have hnil : lead = [] ∧ trail = [] := by
    constructor <;> rw [← List.length_eq_zero_iff] <;> omega
  rw [hnil.1, hnil.2, List.nil_append, List.append_nil] at hs
  rw [trimmed, ← hs, String.ofList_toList]

/-- An instruction calls nothing, or its second operand has no blanks around it. -/
def Instruction.HasBareTarget (i : Instruction) : Prop :=
  i.opcode = .call → trimmed i.operand2 = i.operand2

instance (i : Instruction) : Decidable i.HasBareTarget :=
  inferInstanceAs (Decidable (_ → _))

/-- The labels that the programs of a label call, program by program. -/
def Label.calls (l : Label) : List (List String) :=
  l.programs.map fun p ↦ callTargets p.commands.values

/-- The calls of a label have no blanks around their second operands. -/
def Label.HasBareTargets (l : Label) : Prop :=
  ∀ p ∈ l.programs, ∀ i ∈ upToBend p.commands.values, i.HasBareTarget

instance (l : Label) : Decidable l.HasBareTargets :=
  inferInstanceAs (Decidable (∀ p ∈ l.programs, ∀ i ∈ upToBend p.commands.values, i.HasBareTarget))

/-- Two instructions are the same up to blanks, and their second operands are the same if they are
calls. -/
structure Instruction.RespacedAside (i i' : Instruction) : Prop extends i.Respaced i' where
  target_eq : i.opcode = .call → i.operand2 = i'.operand2

section Targets

variable {is is' : List Instruction}

theorem callTargets_eq_of_respacedAside
    (h : List.Forall₂ Instruction.RespacedAside is is') : callTargets is = callTargets is' := by
  induction h with
  | nil => rfl
  | @cons i i' is is' hi _ ih =>
    have htarget : i.callTarget = i'.callTarget := by
      unfold Instruction.callTarget
      rw [← hi.opcode_eq]
      split
      · rename_i hcall
        rw [hi.target_eq hcall]
      · rfl
    rw [callTargets, callTargets, hi.opcode_eq, htarget, ih]

/-- Calls beside bare ones name the same labels if they are bare, and only then. -/
theorem callTargets_eq_iff (h : List.Forall₂ Instruction.Respaced is is')
    (hbare : ∀ i ∈ upToBend is', i.HasBareTarget) :
    callTargets is = callTargets is' ↔ ∀ i ∈ upToBend is, i.HasBareTarget := by
  induction h with
  | nil => exact iff_of_true rfl nofun
  | @cons i i' is is' hi _ ih =>
    by_cases hbend : i.opcode = .bend
    · have hbend' : i'.opcode = .bend := hi.opcode_eq ▸ hbend
      rw [callTargets, if_pos hbend, callTargets, if_pos hbend', upToBend, if_pos hbend,
        List.forall_mem_singleton]
      exact iff_of_true rfl fun hcall ↦ by rw [hbend] at hcall; cases hcall
    · have hbend' : i'.opcode ≠ .bend := hi.opcode_eq ▸ hbend
      rw [upToBend, if_neg hbend', List.forall_mem_cons] at hbare
      rw [callTargets, if_neg hbend, callTargets, if_neg hbend', upToBend, if_neg hbend,
        List.forall_mem_cons]
      by_cases hcall : i.opcode = .call
      · have hcall' : i'.opcode = .call := hi.opcode_eq ▸ hcall
        have htarget : dropQuotes i.operand2 = dropQuotes i'.operand2 ↔ i.HasBareTarget := by
          rw [← hbare.1 hcall', ← hi.operand2_eq, dropQuotes_trimmed_iff]
          exact ⟨fun h _ ↦ h, fun h ↦ h hcall⟩
        rw [Instruction.callTarget, Instruction.callTarget, hcall, hcall']
        dsimp only
        rw [List.cons_eq_cons, htarget, ih hbare.2]
      · have hcall' : i'.opcode ≠ .call := hi.opcode_eq ▸ hcall
        have hnone : i.callTarget = none ∧ i'.callTarget = none := by
          unfold Instruction.callTarget
          constructor <;> split <;> first | contradiction | rfl
        rw [hnone.1, hnone.2]
        exact (ih hbare.2).trans ⟨fun h ↦ ⟨fun h' ↦ absurd h' hcall, h⟩, fun h ↦ h.2⟩

end Targets

namespace Label

variable {l l' : Label}

theorem calls_eq_of_respacedAside (h : l.Related Instruction.RespacedAside l') :
    l.calls = l'.calls := by
  have htargets : List.Forall₂ (fun p p' : Program ↦
      callTargets p.commands.values = callTargets p'.commands.values) l.programs l'.programs :=
    h.programs.imp fun _ _ hp ↦ callTargets_eq_of_respacedAside hp.commands.values
  rw [calls, calls, ← List.forall₂_eq_eq_eq]
  exact List.forall₂_map_left_iff.mpr (List.forall₂_map_right_iff.mpr htargets)

theorem calls_eq_iff (h : l.Related Instruction.Respaced l') (hbare : l'.HasBareTargets) :
    l.calls = l'.calls ↔ l.HasBareTargets := by
  have hprograms := h.programs
  unfold HasBareTargets at hbare ⊢
  unfold calls
  generalize l.programs = ps at hprograms ⊢
  generalize l'.programs = ps' at hprograms hbare ⊢
  induction hprograms with
  | nil => exact iff_of_true rfl nofun
  | @cons p p' ps ps' hp _ ih =>
    rw [List.forall_mem_cons] at hbare
    rw [List.map_cons, List.map_cons, List.cons_eq_cons, List.forall_mem_cons]
    exact and_congr (callTargets_eq_iff hp.commands.values hbare.1) (ih hbare.2)

end Label

/-! ### Accepted texts with other blanks -/

namespace VectorFile

/-- Every line of an accepted text that is read as an instruction is written with some operands.
Other blanks around these operands are accepted, too. Both files are assembled or neither is, into
programs of the same costs. They call the same labels when no second operand of a call is touched.
Beside a file with bare targets of calls, they call the same labels exactly when the targets of this
file are bare, too. -/
theorem parse_operands_respaced {text origin : String} {f : VectorFile}
    (hparse : parse text origin = .ok f) :
    (∀ line ∈ lines text.toList, ∀ form, RecordLine.instruction? (trim line) = some form →
      ∃ (t : InstructionText) (o : Operands) (cmdNo opcode memory port : String),
        line = t.raw o ∧ form = .instruction cmdNo opcode (String.ofList o.first)
          (String.ofList o.second) memory port) ∧
    ∀ text', RespacesOperands text text' → ∃ f', parse text' origin = .ok f' ∧
      List.Forall₂ Instruction.Respaced f.instructions f'.instructions ∧
      f.assemble.isOk = f'.assemble.isOk ∧
      ∀ l, f.assemble = .ok l → ∃ l', f'.assemble = .ok l' ∧
        List.Forall₂ (fun p p' : Program ↦ p.label = p'.label ∧ p.port = p'.port ∧
          p.vectors = p'.vectors ∧ p.cycles = p'.cycles) l.programs l'.programs ∧
        (List.Forall₂ (fun i i' ↦ i.opcode = .call → i.operand2 = i'.operand2) f.instructions
          f'.instructions → l.calls = l'.calls) ∧
        (l'.HasBareTargets → (l.calls = l'.calls ↔ l.HasBareTargets)) := by
  refine ⟨fun _ _ _ ↦ InstructionText.exists_raw_eq_instruction, fun text' h ↦ ?_⟩
  obtain ⟨f', hparse', hfiles⟩ := (together_parse h origin).exists_of_eq_ok hparse
  have hassemble := hfiles.assemble fun hi ↦ hi
  refine ⟨f', hparse', hfiles.instructions, hassemble.isOk_eq, fun l hl ↦ ?_⟩
  obtain ⟨l', hl', hlabels⟩ := hassemble.exists_of_eq_ok hl
  have hcosts : ∀ p p', Program.Related Instruction.Respaced p p' →
      p.label = p'.label ∧ p.port = p'.port ∧ p.vectors = p'.vectors ∧ p.cycles = p'.cycles :=
    fun p p' hp ↦ ⟨hp.label_eq, hp.port_eq, congrArg Cost.vectors hp.cost_eq,
      congrArg Cost.cycles hp.cost_eq⟩
  refine ⟨l', hl', hlabels.programs.imp hcosts, fun haside ↦ ?_, Label.calls_eq_iff hlabels⟩
  have hfiles' : f.Related Instruction.RespacedAside f' :=
    ⟨hfiles.instructions.mp (fun _ _ hi htarget ↦ ⟨hi, htarget⟩) haside, hfiles.eq⟩
  obtain ⟨l'', hl'', hlabels'⟩ :=
    (hfiles'.assemble fun hi ↦ hi.toRespaced).exists_of_eq_ok hl
  cases hl'.symm.trans hl''
  exact Label.calls_eq_of_respacedAside hlabels'

/-- A call as a line of a burst. -/
def callLine : InstructionText where
  lead := "".toList
  number := " 0".toList
  opcode := "CALL".toList
  rest := "SM,(P1)".toList
  isBlank_lead := nofun
  noComma_number := by decide
  noComma_opcode := by decide

/-- The operands of a call of a label in quotes, with a space in front of it or without one. -/
def callOperands (gap : Bool) : Operands where
  first := []
  second := (if gap then " \"one\"" else "\"one\"").toList
  noComma_first := by decide
  noComma_second := by cases gap <;> decide

/-- The text of a burst with one call. -/
def burstText (gap : Bool) : String :=
  textOf ["hp93000,vector,0.1", "DMAS SQPG,SM,2,(P1)", "SQLB \"all\",MPBU,0,1,\"grp\",(P1)",
    String.ofList (callLine.raw (callOperands gap)), "SQPG 1,BEND,,,SM,(P1)"]

theorem respacesOperands_burstText : RespacesOperands (burstText true) (burstText false) := by
  unfold RespacesOperands burstText
  rw [lines_textOf (by decide +kernel), lines_textOf (by decide +kernel)]
  simp only [List.map_cons, List.map_nil, String.toList_ofList]
  exact .cons (.same _) (.cons (.same _) (.cons (.same _)
    (.cons (.operands callLine ⟨rfl, by decide +kernel⟩) (.cons (.same _) .nil))))

theorem exists_assemble_burstText (gap : Bool) :
    ∃ f l, parse (burstText gap) "a" = .ok f ∧ f.assemble = .ok l ∧
      l.calls = [[if gap then " \"one" else "one"]] ∧ (l.HasBareTargets ↔ gap = false) := by
  have hrun : (parse (burstText gap) "a").toOption.any (fun f ↦ f.assemble.toOption.any fun l ↦
      decide (l.calls = [[if gap then " \"one" else "one"]] ∧
        (l.HasBareTargets ↔ gap = false))) = true := by
    cases gap <;> decide +kernel
  obtain ⟨f, hf, hrun⟩ := exists_eq_ok_of_any hrun
  obtain ⟨l, hl, hrun⟩ := exists_eq_ok_of_any hrun
  exact ⟨f, l, hf, hl, of_decide_eq_true hrun⟩

theorem parse_operands_respaced_burstText :
    ∃ f f' l l', parse (burstText true) "a" = .ok f ∧ parse (burstText false) "a" = .ok f' ∧
      f.assemble = .ok l ∧ f'.assemble = .ok l' ∧ l'.HasBareTargets ∧ l.calls ≠ l'.calls := by
  obtain ⟨f, l, hf, hl, -, hbare⟩ := exists_assemble_burstText true
  obtain ⟨g, m, hg, hm, -, hbare'⟩ := exists_assemble_burstText false
  obtain ⟨-, hrespaced⟩ := parse_operands_respaced hf
  obtain ⟨f', hf', -, -, hlabels⟩ := hrespaced _ respacesOperands_burstText
  obtain ⟨l', hl', -, -, hcalls⟩ := hlabels l hl
  obtain rfl : f' = g := Except.ok.inj (hf'.symm.trans hg)
  obtain rfl : l' = m := Except.ok.inj (hl'.symm.trans hm)
  have hbare' := hbare'.mpr rfl
  refine ⟨f, f', l, l', hf, hf', hl, hl', hbare', fun hsame ↦ ?_⟩
  exact absurd (hbare.mp ((hcalls hbare').mp hsame)) (by decide)

/-- A space in front of the quotes of a target goes into the name of the label that is called. -/
theorem not_forall_calls_respaced :
    ¬∀ (text text' origin : String) (f f' : VectorFile) (l l' : Label),
      RespacesOperands text text' → parse text origin = .ok f → parse text' origin = .ok f' →
        f.assemble = .ok l → f'.assemble = .ok l' → l.calls = l'.calls := by
  intro hall
  obtain ⟨f, l, hf, hl, hcalls, -⟩ := exists_assemble_burstText true
  obtain ⟨f', l', hf', hl', hcalls', -⟩ := exists_assemble_burstText false
  have hsame := hall _ _ _ _ _ _ _ respacesOperands_burstText hf hf' hl hl'
  rw [hcalls, hcalls'] at hsame
  exact absurd hsame (by decide +kernel)

end VectorFile

end TesterSetup
