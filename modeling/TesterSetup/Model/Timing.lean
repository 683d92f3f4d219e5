import TesterSetup.Model.Edge
import TesterSetup.Model.EqnSet
import TesterSetup.Model.Spec

/-!
# Timing

A timing setup says when pins act. The timing sets of an equation set place edges within a period;
a `Specification` binds one equation set and one wave table to each of several ports; a wave table
says which actions a vector character stands for.
-/

set_option autoImplicit false

namespace TesterSetup

/-- Edge expressions for a group of pins. -/
structure EdgeBlock where
  pins : List String
  edges : OrderedMap EdgeId String
  deriving Inhabited

namespace EdgeBlock

/-- A block without edges. -/
def ofPins (pins : List String) : EdgeBlock :=
  ⟨pins, .empty⟩

/-- Places an edge, unless the block has it. -/
def set (b : EdgeBlock) (edge : EdgeId) (expression : String) : Except ModelError EdgeBlock :=
  if b.edges.contains edge then
    .error (.duplicate "edge" (edge.text ++ " for pins " ++ " ".intercalate b.pins))
  else .ok { b with edges := b.edges.insert edge expression }

end EdgeBlock

/-- A numbered template: a period and the edges of pins within it. -/
structure TimingSet where
  num : Nat
  description : String
  period : Option String
  edgeblocks : List EdgeBlock
  deriving Inhabited

/-- A timing set without a period and blocks. -/
def TimingSet.ofNum (num : Nat) (description : String) : TimingSet :=
  ⟨num, description, none, []⟩

instance : Keyed TimingSet Nat := ⟨TimingSet.num, "TIMINGSET", toString⟩

/-- What a timing equation set holds beside specs and equations. -/
structure TimingSetups where
  /-- The ports that the equation set defines. -/
  ports : List String
  timingsets : Container TimingSet
  deriving Inhabited

/-- An equation set of a timing setup. -/
abbrev TimingEqnSet := EqnSet TimingSetups

/-- What one port gets in a specification. -/
structure PortSet where
  port : String
  eqnset : Nat
  wavetable : String
  sequence : Option String
  clock : Option String
  phase : Bool
  check : Option String
  /-- Values for this port alone; they count before those of the specification. -/
  specs : Container Spec
  deriving Inhabited

/-- A port set that names only its equation set. -/
def PortSet.ofEqnSet (eqnset : Nat) : PortSet :=
  ⟨"", eqnset, "", none, none, false, none, .empty⟩

instance : Keyed PortSet String := ⟨PortSet.port, "PORT", id⟩

/-- A named timing of several ports. -/
structure Specification where
  name : String
  check : String
  /-- Values for every port that has none of its own. -/
  specs : Container Spec
  portsets : Container PortSet
  deriving Inhabited

/-- A specification without ports. -/
def Specification.ofName (name : String) : Specification :=
  ⟨name, "all", .empty, .empty⟩

instance : Keyed Specification String := ⟨Specification.name, "SPECIFICATION", id⟩

/-- A physical waveform under its hexadecimal index. -/
structure Waveform where
  index : String
  edges : List WaveEdge
  deviceCycle : String
  deriving Inhabited, Repr

instance : Keyed Waveform String := ⟨Waveform.index, "waveform", id⟩

/-- Waveforms of a group of pins. -/
structure WaveformBlock where
  pins : List String
  waveforms : Container Waveform
  /-- What happens on a break. -/
  brk : List WaveEdge
  /-- State map lines as they stand. -/
  statemap : List String
  deriving Inhabited

/-- A block without waveforms. -/
def WaveformBlock.ofPins (pins : List String) : WaveformBlock :=
  ⟨pins, .empty, [], []⟩

/-- A named wave table. -/
structure WaveTable where
  name : String
  ports : List String
  hrpf : Bool
  blocks : List WaveformBlock
  /-- The file the wave table was read from. -/
  source : Option String
  deriving Inhabited

/-- A wave table without blocks. -/
def WaveTable.ofName (name : String) : WaveTable :=
  ⟨name, [], false, [], none⟩

/-- The pins of a wave table, block by block. -/
def WaveTable.pins (w : WaveTable) : List String :=
  w.blocks.flatMap WaveformBlock.pins

instance : Keyed WaveTable String := ⟨WaveTable.name, "WAVETBL", id⟩

/-- A timing setup. -/
structure Timing where
  eqnsets : Container TimingEqnSet
  specsets : Container SpecSet
  specifications : Container Specification
  wavetables : Container WaveTable
  deriving Inhabited

/-- The setup without parts. -/
def Timing.empty : Timing :=
  ⟨.empty, .empty, .empty, .empty⟩

/-- Adds the parts of another setup. The first part whose key is taken ends it; the parts before
it stay. -/
def Timing.merge (t other : Timing) : Timing × Option ModelError :=
  match t.eqnsets.absorb other.eqnsets.items with
  | (eqnsets, some e) => ({ t with eqnsets }, some e)
  | (eqnsets, none) =>
    match t.specsets.absorb other.specsets.items with
    | (specsets, some e) => ({ t with eqnsets, specsets }, some e)
    | (specsets, none) =>
      match t.specifications.absorb other.specifications.items with
      | (specifications, some e) => ({ t with eqnsets, specsets, specifications }, some e)
      | (specifications, none) =>
        match t.wavetables.absorb other.wavetables.items with
        | (wavetables, e) => (⟨eqnsets, specsets, specifications, wavetables⟩, e)

end TesterSetup
