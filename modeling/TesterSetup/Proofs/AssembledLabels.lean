import TesterSetup.Proofs.TracedComposition
import TesterSetup.Sequencer.Assemble

/-!
# Assembled labels

What it takes for the label of a vector file to be assembled, said once for each step: the checks
that its records pass and the programs that are built from them. The first use is the name of the
label, which all records of its file have (`VectorFile.names_of_assemble`).
-/

set_option autoImplicit false

namespace TesterSetup

namespace VectorFile

variable {f : VectorFile} {r first : LabelRecord}

theorem port_of_sequencerPort {port : String} (h : f.sequencerPort r = .ok port) :
    port = r.port := by
  unfold sequencerPort at h
  split at h
  · cases h
  · split at h
    · cases h
    · split at h
      · rename_i hport
        rw [hport, Except.ok.inj h]
      · cases h

/-- A MAIN label has the only label record of its file and a program that is built from as many
records as that spans. -/
theorem of_assembleMain {l : MainLabel} (h : f.assembleMain r = .ok l) :
    f.labels.length = 1 ∧ f.instructions.length = r.span ∧ ∃ program,
      Program.build r.name r.port f.instructions r.start r.stop = .ok program ∧
      l = ⟨r.name, f.path, r.port, r.start, r.stop, r.wavetableOrSync, program⟩ := by
  unfold assembleMain at h
  split at h
  · cases h
  · split at h
    · cases h
    · rename_i hone
      obtain ⟨port, hport, h⟩ := except_bind_eq_ok_iff.mp h
      obtain rfl := port_of_sequencerPort hport
      split at h
      · cases h
      · rename_i hspan
        obtain ⟨program, hprogram, h⟩ := except_bind_eq_ok_iff.mp h
        exact ⟨Classical.not_not.mp hone, Classical.not_not.mp hspan, program, hprogram,
          (Except.ok.inj h).symm⟩

/-- The ports of a burst are added in the order of their records, which have one name. -/
theorem names_of_assemblePorts {records : List LabelRecord} {ports all : Container BurstPort}
    (h : f.assemblePorts first ports records = .ok all) : ∀ r ∈ records, r.name = first.name := by
  induction records generalizing ports with
  | nil => exact List.forall_mem_nil _
  | cons r rest ih =>
    unfold assemblePorts at h
    split at h
    · cases h
    · rename_i hname
      obtain ⟨port, -, h⟩ := except_bind_eq_ok_iff.mp h
      split at h
      · exact List.forall_mem_cons.mpr ⟨Classical.not_not.mp hname, ih h⟩
      · cases h

theorem of_assembleBurst {b : BurstLabel} (h : f.assembleBurst first = .ok b) :
    f.memories.length = f.labels.length ∧ ∃ ports,
      f.assemblePorts first .empty f.labels = .ok ports ∧ b = ⟨first.name, f.path, ports⟩ := by
  unfold assembleBurst at h
  split at h
  · cases h
  · rename_i hcounts
    obtain ⟨ports, hports, h⟩ := except_bind_eq_ok_iff.mp h
    exact ⟨Classical.not_not.mp hcounts, ports, hports, (Except.ok.inj h).symm⟩

/-- The first label record of a file decides what its label is. -/
theorem of_assemble {label : Label} (h : f.assemble = .ok label) :
    ∃ first, f.labels.head? = some first ∧
      ((∃ l, f.assembleMain first = .ok l ∧ label = .main l) ∨
        ∃ b, f.assembleBurst first = .ok b ∧ label = .burst b) := by
  unfold assemble at h
  split at h
  · cases h
  · rename_i first rest hlabels
    refine ⟨first, by rw [hlabels, List.head?_cons], ?_⟩
    split at h
    · cases h
    · split at h
      · obtain ⟨l, hl, hlabel⟩ := except_map_eq_ok_iff.mp h
        exact .inl ⟨l, hl, hlabel.symm⟩
      · obtain ⟨b, hb, hlabel⟩ := except_map_eq_ok_iff.mp h
        exact .inr ⟨b, hb, hlabel.symm⟩

/-- A MAIN label is assembled from the only label record of its file. -/
theorem of_assemble_main {l : MainLabel} (h : f.assemble = .ok (.main l)) :
    ∃ r, f.labels = [r] ∧ f.assembleMain r = .ok l := by
  obtain ⟨r, hfirst, ⟨l', hl, heq⟩ | ⟨b, -, heq⟩⟩ := of_assemble h
  · cases heq
    refine ⟨r, ?_, hl⟩
    obtain ⟨only, honly⟩ := List.length_eq_one_iff.mp (of_assembleMain hl).1
    rw [honly, List.head?_cons] at hfirst
    rw [honly, Option.some.inj hfirst]
  · cases heq

/-- An assembled label is called what all records of its file say. -/
theorem names_of_assemble {label : Label} (h : f.assemble = .ok label) :
    f.labels ≠ [] ∧ ∀ r ∈ f.labels, r.name = label.name := by
  obtain ⟨first, hfirst, hlabel⟩ := of_assemble h
  refine ⟨List.ne_nil_of_mem (List.mem_of_head? hfirst), ?_⟩
  rcases hlabel with ⟨l, hl, rfl⟩ | ⟨b, hb, rfl⟩
  · obtain ⟨r, hone, hl⟩ := of_assemble_main h
    obtain ⟨-, -, program, -, rfl⟩ := of_assembleMain hl
    rw [hone]
    exact List.forall_mem_singleton.mpr rfl
  · obtain ⟨-, ports, hports, rfl⟩ := of_assembleBurst hb
    exact names_of_assemblePorts hports

end VectorFile

end TesterSetup
