import TesterSetup.Sequencer.Assemble

/-!
# Streams of the ports of a burst

The records of a vector file stand in one list, whichever port they belong to. A burst is assembled
port by port, and what a port gets depends on its own records in their order, its stream, and on
nothing else among the records (`VectorFile.assemblePort_eq_of_stream`). So two files with the same
label records, memory and streams give the same burst, or fail in the same way at the same port
(`VectorFile.assemble_eq_of_streams`), however the records of their ports are interleaved and
whatever records of other ports stand between them.
-/

set_option autoImplicit false

namespace TesterSetup

namespace VectorFile

/-- The records of a port, in the order of the file. -/
def stream (f : VectorFile) (port : String) : List Instruction :=
  f.instructions.filter fun i ↦ i.port == port

/-- Two files have all in common but the records, and these have the same stream on every port that
a label record names. -/
structure SameStreams (f g : VectorFile) : Prop where
  path : f.path = g.path
  memories : f.memories = g.memories
  labels : f.labels = g.labels
  streams : ∀ r ∈ f.labels, f.stream r.port = g.stream r.port

variable {f g : VectorFile} {r first : LabelRecord}

/-- Of the records a port of a burst depends on its stream only. -/
theorem assemblePort_eq_of_stream (hmemories : f.memories = g.memories)
    (hstream : f.stream r.port = g.stream r.port) : f.assemblePort r = g.assemblePort r := by
  unfold stream at hstream
  simp only [assemblePort, hmemories, hstream]

theorem assemblePorts_eq_of_streams (first : LabelRecord) (hmemories : f.memories = g.memories)
    {records : List LabelRecord} (hstreams : ∀ r ∈ records, f.stream r.port = g.stream r.port)
    (ports : Container BurstPort) :
    f.assemblePorts first ports records = g.assemblePorts first ports records := by
  induction records generalizing ports with
  | nil => rfl
  | cons r rest ih =>
    obtain ⟨hport, hrest⟩ := List.forall_mem_cons.mp hstreams
    unfold assemblePorts
    rw [assemblePort_eq_of_stream hmemories hport]
    by_cases hname : r.name ≠ first.name
    · rw [if_pos hname, if_pos hname]
    · rw [if_neg hname, if_neg hname]
      refine congrArg _ (funext fun port ↦ ?_)
      cases ports.add port with
      | ok ports => exact ih hrest ports
      | error cause => rfl

theorem assembleBurst_eq_of_streams (h : f.SameStreams g) :
    f.assembleBurst first = g.assembleBurst first := by
  have hports := assemblePorts_eq_of_streams first h.memories h.streams .empty
  unfold assembleBurst
  rw [hports, h.path, h.memories, h.labels]

/-- Files with the same streams give the same burst or fail in the same way. -/
theorem assemble_eq_of_streams (h : f.SameStreams g) (hburst : ∀ r ∈ f.labels, r.kind = .burst) :
    f.assemble = g.assemble := by
  unfold assemble
  rw [← h.labels]
  cases hlabels : f.labels with
  | nil => simp only [displayName, h.path]
  | cons first rest =>
    have hkind : first.kind = .burst := hburst first (hlabels ▸ List.mem_cons_self)
    simp only [hkind, assembleBurst_eq_of_streams h]

end VectorFile

/-- The file of a burst of two ports, with its records in some order. -/
def burstOnTwoPorts (records : List Instruction) : VectorFile where
  path := none
  memories := [⟨.sqpg, "SM", 2, "P1"⟩, ⟨.sqpg, "SM", 2, "P2"⟩]
  labels := [⟨"all", .burst, 0, 1, "grp", "P1"⟩, ⟨"all", .burst, 0, 1, "grp", "P2"⟩]
  instructions := records

/-- Records of the two ports, one port after the other. -/
def recordsInTurn : List Instruction :=
  [⟨0, .call, "", "one", "SM", "P1"⟩, ⟨1, .bend, "", "", "SM", "P1"⟩,
    ⟨0, .call, "", "two", "SM", "P2"⟩, ⟨1, .bend, "", "", "SM", "P2"⟩]

/-- The same records interleaved, with one of a third port between them. -/
def recordsInterleaved : List Instruction :=
  [⟨0, .call, "", "two", "SM", "P2"⟩, ⟨0, .call, "", "one", "SM", "P1"⟩,
    ⟨0, .genv, "x", "", "SM", "P3"⟩, ⟨1, .bend, "", "", "SM", "P1"⟩,
    ⟨1, .bend, "", "", "SM", "P2"⟩]

theorem assemble_eq_of_streams_interleaved :
    ∃ b, (burstOnTwoPorts recordsInTurn).assemble = .ok (.burst b) ∧
      (burstOnTwoPorts recordsInterleaved).assemble = .ok (.burst b) := by
  obtain ⟨b, h⟩ : ∃ b, (burstOnTwoPorts recordsInTurn).assemble = .ok (.burst b) := ⟨_, rfl⟩
  have hsame : (burstOnTwoPorts recordsInterleaved).SameStreams (burstOnTwoPorts recordsInTurn) :=
    ⟨rfl, rfl, rfl, by decide⟩
  exact ⟨b, h, (VectorFile.assemble_eq_of_streams hsame (by decide)).trans h⟩

end TesterSetup
