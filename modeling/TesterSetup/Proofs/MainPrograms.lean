import TesterSetup.Proofs.AssembledLabels
import TesterSetup.Proofs.LookupLaws

/-!
# Programs of MAIN labels

Which records of a vector file become the program of its MAIN label. Building a program passes over
the records outside its range and takes the others up to the first that is terminal
(`Program.Takes`); what it takes is kept by command number, so a later record replaces an earlier
one of its number (`Program.commands_of_build`). A file is only asked for as many records as its
range has numbers. Hence a program need not consist of the records of its file
(`MainLabel.Complete`): it does when they are numbered through the range, in order, and `STOP` is
the last of them and the only one that is terminal, and in no other case
(`VectorFile.program_of_assemble_main`).
-/

set_option autoImplicit false

namespace TesterSetup

/-! ### What a program takes -/

/-- The last of some instructions has an operation; none before it is terminal. -/
def EndsWith (op : Opcode) (instructions : List Instruction) : Prop :=
  ∃ body last, instructions = body ++ [last] ∧ last.opcode = op ∧
    ∀ i ∈ body, i.opcode.isTerminal = false

/-- The instructions of a list that have numbers from `start` to `stop`. -/
def within (start stop : Nat) (instructions : List Instruction) : List Instruction :=
  instructions.filter fun i ↦ start ≤ i.cmdNo ∧ i.cmdNo ≤ stop

/-- Some instructions are what a program of commands `start` to `stop` takes of a list: those of
the range up to the first terminal one. -/
def Program.Takes (start stop : Nat) (instructions taken : List Instruction) : Prop :=
  taken <+: within start stop instructions ∧ ∃ op : Opcode, op.isTerminal = true ∧ EndsWith op taken

section Taking

variable {start stop : Nat} {op : Opcode} {i : Instruction} {rest taken : List Instruction}

theorem endsWith_singleton (i : Instruction) : EndsWith i.opcode [i] :=
  ⟨[], i, rfl, rfl, List.forall_mem_nil _⟩

theorem EndsWith.cons (hi : i.opcode.isTerminal = false) (h : EndsWith op taken) :
    EndsWith op (i :: taken) := by
  obtain ⟨body, last, rfl, hlast, hbody⟩ := h
  exact ⟨i :: body, last, rfl, hlast, List.forall_mem_cons.mpr ⟨hi, hbody⟩⟩

/-- Instructions that end with the first terminal one are no proper part of others that do. -/
theorem EndsWith.eq_of_initial {op' : Opcode} {other : List Instruction}
    (h : EndsWith op taken) (hop : op.isTerminal = true) (hother : EndsWith op' other)
    (hinitial : taken <+: other) : taken = other := by
  obtain ⟨body, last, rfl, rfl, -⟩ := h
  obtain ⟨body', last', rfl, -, hbody'⟩ := hother
  rcases List.prefix_concat_iff.mp hinitial with heq | hshort
  · exact heq
  · have hmem : last ∈ body' :=
      hshort.subset (List.mem_append_right body (List.mem_singleton_self last))
    rw [hbody' last hmem] at hop
    cases hop

theorem Program.Takes.unique {instructions other : List Instruction}
    (h : Takes start stop instructions taken) (hother : Takes start stop instructions other) :
    taken = other := by
  obtain ⟨hinitial, op, hop, hends⟩ := h
  obtain ⟨hinitial', op', hop', hends'⟩ := hother
  rcases List.prefix_or_prefix_of_prefix hinitial hinitial' with hle | hle
  · exact hends.eq_of_initial hop hends' hle
  · exact (hends'.eq_of_initial hop' hends hle).symm

theorem within_cons_of_mem (h : start ≤ i.cmdNo ∧ i.cmdNo ≤ stop) :
    within start stop (i :: rest) = i :: within start stop rest :=
  List.filter_cons_of_pos (decide_eq_true h)

theorem within_cons_of_notMem (h : ¬(start ≤ i.cmdNo ∧ i.cmdNo ≤ stop)) :
    within start stop (i :: rest) = within start stop rest :=
  List.filter_cons_of_neg (by rwa [decide_eq_true_iff])

theorem Program.Takes.last (h : start ≤ i.cmdNo ∧ i.cmdNo ≤ stop)
    (hi : i.opcode.isTerminal = true) : Takes start stop (i :: rest) [i] := by
  refine ⟨?_, i.opcode, hi, endsWith_singleton i⟩
  rw [within_cons_of_mem h]
  exact ⟨within start stop rest, rfl⟩

theorem Program.Takes.cons (h : start ≤ i.cmdNo ∧ i.cmdNo ≤ stop)
    (hi : i.opcode.isTerminal = false) (hrest : Takes start stop rest taken) :
    Takes start stop (i :: rest) (i :: taken) := by
  obtain ⟨hinitial, op, hop, hends⟩ := hrest
  refine ⟨?_, op, hop, hends.cons hi⟩
  rw [within_cons_of_mem h]
  exact List.cons_prefix_cons.mpr ⟨rfl, hinitial⟩

theorem Program.Takes.skip (h : ¬(start ≤ i.cmdNo ∧ i.cmdNo ≤ stop))
    (hrest : Takes start stop rest taken) : Takes start stop (i :: rest) taken := by
  obtain ⟨hinitial, hends⟩ := hrest
  refine ⟨?_, hends⟩
  rw [within_cons_of_notMem h]
  exact hinitial

/-- Instructions that are numbered through a range are all in it. -/
theorem within_eq_self {instructions : List Instruction}
    (h : instructions.map Instruction.cmdNo = List.range' start (stop + 1 - start)) :
    within start stop instructions = instructions := by
  refine List.filter_eq_self.mpr fun i hi ↦ ?_
  have hmem : i.cmdNo ∈ List.range' start (stop + 1 - start) := by
    rw [← h]
    exact List.mem_map_of_mem hi
  rw [List.mem_range'_1] at hmem
  rw [decide_eq_true_iff]
  omega

end Taking

/-! ### What a program keeps -/

/-- Instructions by their numbers. -/
def numbered (instructions : List Instruction) : List (Nat × Instruction) :=
  instructions.map fun i ↦ (i.cmdNo, i)

theorem map_fst_numbered (instructions : List Instruction) :
    (numbered instructions).map Prod.fst = instructions.map Instruction.cmdNo := by
  rw [numbered, List.map_map]
  rfl

theorem map_snd_numbered (instructions : List Instruction) :
    (numbered instructions).map Prod.snd = instructions := by
  rw [numbered, List.map_map]
  exact List.map_id instructions

/-- A program keeps every instruction under its own number. -/
theorem keys_ofList_numbered (taken : List Instruction) :
    (OrderedMap.ofList (numbered taken)).keys =
      (OrderedMap.ofList (numbered taken)).values.map Instruction.cmdNo := by
  rw [OrderedMap.keys, OrderedMap.values, List.map_map]
  refine List.map_congr_left fun e he ↦ ?_
  rcases OrderedMap.mem_entries_insertAll he with hnil | hmem
  · exact absurd hnil List.not_mem_nil
  · obtain ⟨i, -, rfl⟩ := List.mem_map.mp hmem
    rfl

/-- Instructions with distinct numbers are kept one by one. -/
theorem entries_ofList_numbered {taken : List Instruction}
    (h : (taken.map Instruction.cmdNo).Nodup) :
    (OrderedMap.ofList (numbered taken)).entries = numbered taken := by
  refine (OrderedMap.entries_insertAll ?_).trans (List.nil_append _)
  rw [OrderedMap.keys_empty, List.nil_append, map_fst_numbered]
  exact h

/-! ### Building -/

namespace Program

variable {p q : Program} {i : Instruction} {start stop : Nat} {instructions : List Instruction}

theorem commands_of_record (h : p.record i = .ok q) :
    q.commands = p.commands.insert i.cmdNo i ∧ q.port = p.port := by
  obtain ⟨cost, -, h⟩ := except_bind_eq_ok_iff.mp h
  obtain ⟨total, -, h⟩ := except_bind_eq_ok_iff.mp h
  cases h
  exact ⟨rfl, rfl⟩

/-- A program keeps what it takes by number. -/
theorem commands_of_extend (h : p.extend start stop instructions = .ok q) :
    ∃ taken, Takes start stop instructions taken ∧
      q.commands = p.commands.insertAll (numbered taken) ∧ ∀ i ∈ taken, i.port = p.port := by
  induction instructions generalizing p with
  | nil => cases h
  | cons i rest ih =>
    unfold extend at h
    split at h
    · rename_i hrange
      split at h
      · rename_i hport
        obtain ⟨next, hnext, h⟩ := except_bind_eq_ok_iff.mp h
        obtain ⟨hcommands, hsame⟩ := commands_of_record hnext
        split at h
        · rename_i hterminal
          cases h
          exact ⟨[i], .last hrange hterminal, hcommands, List.forall_mem_singleton.mpr hport⟩
        · rename_i hterminal
          obtain ⟨taken, htakes, htaken, hports⟩ := ih h
          refine ⟨i :: taken, htakes.cons hrange (Bool.eq_false_iff.mpr hterminal), ?_,
            List.forall_mem_cons.mpr ⟨hport, fun j hj ↦ (hports j hj).trans hsame⟩⟩
          rw [htaken, hcommands]
          rfl
      · cases h
    · rename_i hrange
      obtain ⟨taken, htakes, hkept⟩ := ih h
      exact ⟨taken, htakes.skip hrange, hkept⟩

theorem commands_of_build {label port : String}
    (h : build label port instructions start stop = .ok p) :
    ∃ taken, Takes start stop instructions taken ∧ p.commands = .ofList (numbered taken) ∧
      ∀ i ∈ taken, i.port = port :=
  commands_of_extend h

end Program

/-! ### MAIN labels -/

/-- The program of a MAIN label consists of some records, in their order. They are numbered through
the range of the label and belong to its port; `STOP` is the last and the only terminal one. -/
structure MainLabel.Complete (l : MainLabel) (records : List Instruction) : Prop where
  records : l.program.commands.values = records
  numbers : l.program.commands.keys = List.range' l.start (l.stop + 1 - l.start)
  ports : ∀ i ∈ l.program.commands.values, i.port = l.port
  ends : EndsWith .stop l.program.commands.values

section Main

variable {f : VectorFile} {l : MainLabel}

/-- The program of a MAIN label is made of the records in the range up to the first terminal one,
each under its number and on the label's port. These are all records of the file, one by one,
exactly when the records are numbered through the range and end with the only terminal one. -/
theorem VectorFile.program_of_assemble_main (h : f.assemble = .ok (.main l)) :
    ∃ taken, Program.Takes l.start l.stop f.instructions taken ∧
      l.program.commands = .ofList (numbered taken) ∧ (∀ i ∈ taken, i.port = l.port) ∧
      (l.Complete f.instructions ↔
        f.instructions.map Instruction.cmdNo = List.range' l.start (l.stop + 1 - l.start) ∧
        EndsWith .stop f.instructions) := by
  obtain ⟨r, -, hmain⟩ := of_assemble_main h
  obtain ⟨-, -, program, hprogram, rfl⟩ := of_assembleMain hmain
  obtain ⟨taken, htakes, hcommands, hports⟩ := Program.commands_of_build hprogram
  refine ⟨taken, htakes, hcommands, hports, fun hcomplete ↦ ?_, fun ⟨hnumbers, hends⟩ ↦ ?_⟩
  · have hvalues : program.commands.values = f.instructions := hcomplete.records
    have hkeys : program.commands.keys = program.commands.values.map Instruction.cmdNo := by
      rw [hcommands]
      exact keys_ofList_numbered taken
    rw [← hvalues, ← hkeys]
    exact ⟨hcomplete.numbers, hcomplete.ends⟩
  · -- the records themselves are what the program takes, so `taken` is all of them
    have hall : Program.Takes r.start r.stop f.instructions f.instructions :=
      ⟨(within_eq_self hnumbers).symm ▸ List.prefix_rfl, .stop, rfl, hends⟩
    obtain rfl := htakes.unique hall
    have hentries : program.commands.entries = numbered f.instructions := by
      rw [hcommands]
      refine entries_ofList_numbered ?_
      rw [hnumbers]
      exact List.nodup_range'
    have hvalues : program.commands.values = f.instructions := by
      rw [OrderedMap.values, hentries, map_snd_numbered]
    exact {
      records := hvalues
      numbers := by
        show program.commands.keys = _
        rw [OrderedMap.keys, hentries, map_fst_numbered, hnumbers]
      ports := by
        show ∀ i ∈ program.commands.values, i.port = r.port
        rwa [hvalues]
      ends := by
        show EndsWith .stop program.commands.values
        rwa [hvalues] }

/-- A file of three records for the commands 0 to 2; the number of the second varies. -/
def threeRecords (second : Nat) : VectorFile where
  path := none
  memories := [⟨.sqpg, "SM", 3, "P1"⟩, ⟨.mtst, "SM", 1, "P1"⟩]
  labels := [⟨"wave", .main, 0, 2, "std", "P1"⟩]
  instructions := [⟨0, .genv, "5", "", "SM", "P1"⟩, ⟨second, .genv, "7", "", "SM", "P1"⟩,
    ⟨2, .stop, "", "", "SM", "P1"⟩]

theorem program_of_assemble_main_threeRecords :
    ∃ l, (threeRecords 1).assemble = .ok (.main l) ∧ l.Complete (threeRecords 1).instructions := by
  obtain ⟨l, h, hstart, hstop⟩ : ∃ l, (threeRecords 1).assemble = .ok (.main l) ∧
      l.start = 0 ∧ l.stop = 2 := ⟨_, rfl, rfl, rfl⟩
  obtain ⟨-, -, -, -, hcomplete⟩ := VectorFile.program_of_assemble_main h
  rw [hstart, hstop] at hcomplete
  have hends : EndsWith .stop (threeRecords 1).instructions := ⟨[_, _], _, rfl, rfl, by decide⟩
  exact ⟨l, h, hcomplete.mpr ⟨rfl, hends⟩⟩

/-- The program of a file whose second record has the number of the first does not hold them
both. -/
theorem VectorFile.not_forall_complete :
    ¬∀ (f : VectorFile) (l : MainLabel), f.assemble = .ok (.main l) →
      l.Complete f.instructions := by
  intro hall
  obtain ⟨l, h, hlength⟩ : ∃ l, (threeRecords 0).assemble = .ok (.main l) ∧
      l.program.commands.values.length = 2 := ⟨_, rfl, rfl⟩
  rw [(hall _ l h).records] at hlength
  exact absurd hlength (by decide)

end Main

end TesterSetup
