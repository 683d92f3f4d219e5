import TesterSetup.Json.Value
import TesterSetup.Model.Levels
import TesterSetup.Model.Timing
import TesterSetup.Model.Vectors

/-!
# Setups as JSON

The JSON form of the parts of a setup: objects with the fields of the part, containers as arrays,
maps as objects in their order. Where a part was read from is not written.
-/

set_option autoImplicit false

namespace TesterSetup

/-- A map with text values. -/
def OrderedMap.textsJson {α : Type} (key : α → String) (m : OrderedMap α String) : Json :=
  .object (m.entries.map fun e => (key e.1, .text e.2))

/-- The parts of a container. -/
def Container.json {α κ : Type} [Keyed α κ] (f : α → Json) (c : Container α) : Json :=
  .array (c.items.map f)

def Spec.json (s : Spec) : Json :=
  .object [("name", .text s.name), ("actual", .number s.actual),
    ("minimum", Json.optional .number s.minimum), ("maximum", Json.optional .number s.maximum),
    ("unit", .text s.unit), ("comment", .text s.comment)]

def SpecSet.json (s : SpecSet) : Json :=
  .object [("eqnset", .natural s.eqnset), ("num", .natural s.num),
    ("description", .text s.description), ("wavetable", Json.optional .text s.wavetable),
    ("check", Json.optional .text s.check), ("specs", s.specs.json Spec.json)]

def EqnSet.json {Setups : Type} (setups : Setups → Json) (e : EqnSet Setups) : Json :=
  .object [("num", .natural e.num), ("description", .text e.description),
    ("specs", e.specs.textsJson id), ("equations", e.equations.textsJson id),
    ("setups", setups e.setups)]

/-- A setting is its text or its flag. -/
def Setting.json : Setting → Json
  | .expression text => .text text
  | .literal text => .text text
  | .flag on => .bool on

def SettingBlock.json (b : SettingBlock) : Json :=
  .object [("pins", Json.texts b.pins),
    ("settings", .object (b.settings.entries.map fun e => (e.1, e.2.json)))]

def LevelSet.json (s : LevelSet) : Json :=
  .object [("num", .natural s.num), ("description", .text s.description),
    ("pinblocks", .array (s.pinblocks.map SettingBlock.json))]

def LevelSetups.json (s : LevelSetups) : Json :=
  .object [("levelsets", s.levelsets.json LevelSet.json),
    ("dpsblocks", .array (s.dpsblocks.map SettingBlock.json))]

def Levels.json (l : Levels) : Json :=
  .object [("eqnsets", l.eqnsets.json (EqnSet.json LevelSetups.json)),
    ("specsets", l.specsets.json SpecSet.json)]

def EdgeBlock.json (b : EdgeBlock) : Json :=
  .object [("pins", Json.texts b.pins), ("edges", b.edges.textsJson EdgeId.text)]

def TimingSet.json (s : TimingSet) : Json :=
  .object [("num", .natural s.num), ("description", .text s.description),
    ("period", Json.optional .text s.period),
    ("edgeblocks", .array (s.edgeblocks.map EdgeBlock.json))]

def TimingSetups.json (s : TimingSetups) : Json :=
  .object [("ports", Json.texts s.ports), ("timingsets", s.timingsets.json TimingSet.json)]

def PortSet.json (p : PortSet) : Json :=
  .object [("port", .text p.port), ("eqnset", .natural p.eqnset),
    ("wavetable", .text p.wavetable), ("sequence", Json.optional .text p.sequence),
    ("clock", Json.optional .text p.clock), ("phase", .bool p.phase),
    ("check", Json.optional .text p.check), ("specs", p.specs.json Spec.json)]

def Specification.json (s : Specification) : Json :=
  .object [("name", .text s.name), ("check", .text s.check), ("specs", s.specs.json Spec.json),
    ("portsets", s.portsets.json PortSet.json)]

def WaveEdge.json (e : WaveEdge) : Json :=
  .object [("edge", .text e.edge.text), ("action", .text e.action)]

def Waveform.json (w : Waveform) : Json :=
  .object [("index", .text w.index), ("edges", .array (w.edges.map WaveEdge.json)),
    ("device_cycle", .text w.deviceCycle)]

def WaveformBlock.json (b : WaveformBlock) : Json :=
  .object [("pins", Json.texts b.pins), ("waveforms", b.waveforms.json Waveform.json),
    ("brk", .array (b.brk.map WaveEdge.json)), ("statemap", Json.texts b.statemap)]

def WaveTable.json (w : WaveTable) : Json :=
  .object [("name", .text w.name), ("ports", Json.texts w.ports), ("hrpf", .bool w.hrpf),
    ("blocks", .array (w.blocks.map WaveformBlock.json))]

def Timing.json (t : Timing) : Json :=
  .object [("eqnsets", t.eqnsets.json (EqnSet.json TimingSetups.json)),
    ("specsets", t.specsets.json SpecSet.json),
    ("specifications", t.specifications.json Specification.json),
    ("wavetables", t.wavetables.json WaveTable.json)]

def Instruction.json (i : Instruction) : Json :=
  .object [("cmd_no", .natural i.cmdNo), ("opcode", .text i.opcode.mnemonic),
    ("operand1", .text i.operand1), ("operand2", .text i.operand2), ("memory", .text i.memory),
    ("port", .text i.port)]

def Program.json (p : Program) : Json :=
  .object [("label", .text p.label), ("port", .text p.port),
    ("program", .object (p.commands.entries.map fun e => (toString e.1, e.2.json))),
    ("vectors", .natural p.vectors), ("cycles", .natural p.cycles)]

def MainLabel.members (l : MainLabel) : List (String × Json) :=
  [("name", .text l.name), ("port", .text l.port), ("start", .natural l.start),
    ("stop", .natural l.stop), ("wavetable", .text l.wavetable), ("program", l.program.json)]

def BurstPort.json (p : BurstPort) : Json :=
  .object [("name", .text p.name), ("memory", .text p.memory), ("seq_size", .natural p.seqSize),
    ("sync_group", .text p.syncGroup), ("program", p.program.json)]

def BurstLabel.members (l : BurstLabel) : List (String × Json) :=
  [("name", .text l.name), ("ports", l.ports.json BurstPort.json)]

/-- A label says first of which kind it is. -/
def Label.json : Label → Json
  | .main l => .object (("kind", .text "main") :: l.members)
  | .burst l => .object (("kind", .text "mpb") :: l.members)

end TesterSetup
