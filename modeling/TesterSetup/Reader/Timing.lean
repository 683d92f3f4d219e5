import TesterSetup.Reader.Specification
import TesterSetup.Reader.WaveTables

/-!
# Timing files

A timing file has three kinds of sections: wave tables (`WVT`), equation sets with timing sets
(`EQN`), and spec sets or multi-port specifications (`SPS`). A section marker forgets what was
open. A `TimingReader` places one line after the other in the setup.
-/

set_option autoImplicit false

namespace TesterSetup

open TesterSetup.Text

/-- The lines of a timing file's equation section. -/
inductive TimingEquationsLine where
  | eqnset (num description : String)
  /-- A heading that carries nothing. -/
  | heading
  | timingSet (num description : String)
  | defines (ports : List String)
  | pins (pins : List String)
  | period (expression : String)
  /-- An assignment. Its name may be that of an edge. -/
  | assignment (name expression : String)
  | declaration (name unit : String)
  | unplaced
  deriving DecidableEq, Repr

/-- The form of a line of the equation section. -/
def TimingEquationsLine.ofText (line : String) : TimingEquationsLine :=
  let s := line.toList
  if let some (num, description) := Form.numbered? "EQNSET" s then .eqnset num description
  else if line = "SPECS" ∨ line = "EQUATIONS" then .heading
  else if let some (num, description) := Form.numbered? "TIMINGSET" s then
    .timingSet num description
  else if let some names := Form.argument? "DEFINES" s then .defines (wordsOf names)
  else if let some names := Form.argument? "PINS" s then .pins (wordsOf names)
  else if let some expression := Form.keyed? "period" s then .period (trimmed expression)
  else if let some (name, expression) := Form.assignment? s then
    .assignment name (trimmed expression)
  else if let some (name, unit) := Form.declaration? s then
    if isReservedWord name then .unplaced else .declaration name (trimmed (unit.getD ""))
  else .unplaced

/-- Whether a name has the form of an edge's: a letter `d` or `r` and digits. -/
def isEdgeName (name : String) : Bool :=
  match name.toList with
  | c :: digits => (c == 'd' || c == 'r') && !digits.isEmpty && digits.all isDigit
  | [] => false

/-- The lines of a timing file's spec set section outside a specification. -/
inductive TimingValuesLine where
  | specification (name : String) (brace : Bool)
  | eqnset (num : String)
  | wavetable (name : String)
  | check (mode : String)
  | specSet (num description : String)
  | value (value : Form.SpecValue)
  | unplaced

/-- The form of a line of the spec set section. -/
def TimingValuesLine.ofText (line : String) : TimingValuesLine :=
  let s := line.toList
  if let some (name, brace) := Form.specification? s then .specification (unquote name) brace
  else if let some (num, _) := Form.numbered? "EQNSET" s then .eqnset num
  else if let some name := Form.argument? "WAVETBL" s then .wavetable (unquote name)
  else if let some mode := Form.firstArgument? "CHECK" s then .check mode
  else if let some (num, description) := Form.numbered? "SPECSET" s then .specSet num description
  else if let some v := Form.specValue? s then .value v
  else .unplaced

/-- The sections of a timing file. -/
inductive TimingSection where
  | preamble
  | wavetables
  | equations
  | values
  deriving DecidableEq, Repr

/-- What is open at a place of a timing file. -/
structure TimingPlace where
  part : TimingSection
  /-- Whether lines belong to a state map. -/
  inStatemap : Bool
  wavetable : Option String
  eqnset : Option Nat
  timingset : Option Nat
  /-- The wave table for the spec sets that follow. -/
  specSetWavetable : Option String
  /-- The check mode for the spec sets that follow. -/
  specSetCheck : Option String
  /-- The specification that is open. -/
  block : Option SpecificationBlock

/-- A place at the start of a section. -/
def TimingPlace.startOf (part : TimingSection) : TimingPlace :=
  ⟨part, false, none, none, none, none, none, none⟩

/-- What has been read of a timing file and where further lines belong. -/
structure TimingReader where
  place : TimingPlace
  timing : Timing

namespace TimingReader

/-- The reader after the header. -/
def start : TimingReader :=
  ⟨.startOf .preamble, .empty⟩

/-- What lines of unsupported constructs start with, and the names of the constructs. -/
def unsupportedConstructs : List (String × String) :=
  [("LOOP_", "SmartLoop"), ("MODECONTEXT", "MODECONTEXT"), ("USE_PROTOCOL", "USE_PROTOCOL")]

/-- Firmware commands, which are no part of a setup. -/
def firmwareCommands : List String :=
  ["DCDT", "SPST", "PCLK", "CLKR", "BWDS", "ETDS", "TSUX", "SDSC"]

/-- What lines that end a state map start with. -/
def statemapEnds : List String :=
  ["PINS ", "WAVETBL ", "EQSP "]

/-- Whether a line is passed over. -/
def isSkipped (line : String) : Bool :=
  Form.startsWith line "@" ||
    match firstWord line with
    | some word => firmwareCommands.contains word
    | none => false

/-- Opens a section, which forgets what was open. -/
def openSection (r : TimingReader) (line : String) : LineResult TimingReader :=
  match Form.section? "TIM" line.toList with
  | none => Complaint.malformedSection.about line
  | some name =>
    if r.place.block.isSome then Complaint.sectionInSpecification.about line
    else
      match name with
      | "WVT" => .ok { r with place := .startOf .wavetables }
      | "EQN" => .ok { r with place := .startOf .equations }
      | "SPS" => .ok { r with place := .startOf .values }
      | _ => Complaint.unknownSection.about line

/-! ### Wave tables -/

/-- Changes the wave table that is open. -/
def inWaveTable (r : TimingReader) (line : String) (f : WaveTable → LineResult WaveTable) :
    LineResult TimingReader :=
  match r.place.wavetable with
  | none => Complaint.outsideWaveTable.about line
  | some name => do
    let w ← ofModel (r.timing.wavetables.require name)
    let w ← f w
    return { r with timing := { r.timing with wavetables := r.timing.wavetables.replace w } }

/-- Changes the waveform block that is open. -/
def inWaveformBlock (r : TimingReader) (line : String)
    (f : WaveformBlock → LineResult WaveformBlock) : LineResult TimingReader :=
  r.inWaveTable line fun w => do
    let blocks ← updateLast w.blocks (.misfit line .waveformOutsideBlock) f
    return { w with blocks }

/-- Places a line that may follow a mark. -/
def placeWaveTableRest (r : TimingReader) (line : String) :
    WaveTableLine → LineResult TimingReader
  | .waveform index edges cycle => do
    let edges ← readWaveEdges line edges
    r.inWaveformBlock line fun b => do
      let waveforms ← ofModel (b.waveforms.add ⟨index, edges, cycle⟩)
      return { b with waveforms }
  | .brk edges => do
    let edges ← readWaveEdges line edges
    r.inWaveformBlock line fun b => .ok { b with brk := edges }
  | _ => Complaint.noPlacement.about line

/-- Places a line of the wave table section. -/
def placeWaveTables (r : TimingReader) (line : String) : WaveTableLine → LineResult TimingReader
  | .statemap => do
    let r ← r.inWaveformBlock line .ok
    return { r with place := { r.place with inStatemap := true } }
  | .table name => do
    let wavetables ← ofModel (r.timing.wavetables.add (.ofName name))
    return {
      place := { r.place with wavetable := some name }
      timing := { r.timing with wavetables } }
  | .defines ports => r.inWaveTable line fun w => .ok { w with ports }
  | .pins pins => r.inWaveTable line fun w => .ok { w with blocks := w.blocks ++ [.ofPins pins] }
  | .hrpf rest => do
    let r ← r.inWaveTable line fun w => .ok { w with hrpf := true }
    r.placeWaveTableRest rest (.ofRest rest)
  | other => r.placeWaveTableRest line other

/-! ### Equation sets -/

/-- Changes the equation set that is open. -/
def inEqnSet (r : TimingReader) (line : String) (f : TimingEqnSet → LineResult TimingEqnSet) :
    LineResult TimingReader :=
  match r.place.eqnset with
  | none => Complaint.outsideEqnSet.about line
  | some num => do
    let e ← ofModel (r.timing.eqnsets.require num)
    let e ← f e
    return { r with timing := { r.timing with eqnsets := r.timing.eqnsets.replace e } }

/-- Changes the timing set that is open. -/
def inTimingSet (r : TimingReader) (line : String) (f : TimingSet → LineResult TimingSet)
    (e : TimingEqnSet) : LineResult TimingEqnSet :=
  match r.place.timingset with
  | none => Complaint.outsideTimingSet.about line
  | some num => do
    let s ← ofModel (e.setups.timingsets.require num)
    let s ← f s
    return { e with setups := { e.setups with timingsets := e.setups.timingsets.replace s } }

/-- Places an edge in the block that is open. -/
def placeEdge (r : TimingReader) (line name expression : String) (e : TimingEqnSet) :
    LineResult TimingEqnSet := do
  let edge ← ofModel (EdgeId.ofText name)
  r.inTimingSet line (fun s => do
    let edgeblocks ← updateLast s.edgeblocks (.misfit line .edgeOutsideBlock) fun b =>
      ofModel (b.set edge expression)
    return { s with edgeblocks }) e

/-- Places a line of the equation section. -/
def placeEquations (r : TimingReader) (line : String) :
    TimingEquationsLine → LineResult TimingReader
  | .eqnset num description => do
    let num ← ofLine line (readSetNum num)
    let eqnsets ← ofModel (r.timing.eqnsets.add (.ofNum num (unquote description)))
    return {
      place := { r.place with eqnset := some num, timingset := none }
      timing := { r.timing with eqnsets } }
  | .heading => .ok r
  | .timingSet num description =>
    match r.place.eqnset with
    | none => Complaint.outsideEqnSet.about line
    | some _ => do
      let num ← ofLine line (readSetNum num)
      let r ← r.inEqnSet line fun e => do
        let timingsets ← ofModel (e.setups.timingsets.add (.ofNum num (unquote description)))
        return { e with setups := { e.setups with timingsets } }
      return { r with place := { r.place with timingset := some num } }
  | .defines ports => r.inEqnSet line fun e => .ok { e with setups := { e.setups with ports } }
  | .pins pins => r.inEqnSet line (r.inTimingSet line fun s =>
    .ok { s with edgeblocks := s.edgeblocks ++ [.ofPins pins] })
  | .period expression => r.inEqnSet line (r.inTimingSet line fun s =>
    if s.period.isSome then Complaint.secondPeriod.about line
    else .ok { s with period := some expression })
  | .assignment name expression => r.inEqnSet line fun e =>
    if r.place.timingset.isSome && isEdgeName name then r.placeEdge line name expression e
    else ofModel (e.addEquation name expression)
  | .declaration name unit => r.inEqnSet line fun e => .ok (e.declareSpec name unit)
  | .unplaced => r.inEqnSet line fun _ => Complaint.noPlacement.about line

/-! ### Spec sets and specifications -/

/-- Places a line of an open specification, which its last closing brace completes. -/
def placeInBlock (r : TimingReader) (line : String) (b : SpecificationBlock) :
    LineResult TimingReader := do
  let form := SpecificationLine.ofText line
  let b ← b.place line form
  match form, b.depth with
  | .closing, 0 => do
    let s ← b.complete line
    let specifications ← ofModel (r.timing.specifications.add s)
    return {
      place := { r.place with block := none }
      timing := { r.timing with specifications } }
  | _, _ => return { r with place := { r.place with block := some b } }

/-- Places a line of the spec set section outside a specification. -/
def placeValues (r : TimingReader) (line : String) : TimingValuesLine → LineResult TimingReader
  | .specification name brace =>
    .ok { r with place :=
      { r.place with block := some ⟨.ofName name, [], if brace then 1 else 0⟩ } }
  | .eqnset num => do
    let num ← ofLine line (readSetNum num)
    return { r with place := { r.place with eqnset := some num } }
  | .wavetable name => .ok { r with place := { r.place with specSetWavetable := some name } }
  | .check mode => .ok { r with place := { r.place with specSetCheck := some mode } }
  | .specSet num description =>
    match r.place.eqnset with
    | none => Complaint.specSetBeforeEqnSet.about line
    | some eqnset => do
      let num ← ofLine line (readSpecSetNum num)
      let s : SpecSet := { SpecSet.ofNum eqnset num (unquote description) with
        wavetable := r.place.specSetWavetable
        check := r.place.specSetCheck }
      let specsets ← ofModel (r.timing.specsets.add s)
      return { r with timing := { r.timing with specsets } }
  | .value value => do
    let spec ← ofLine line value.spec
    match r.timing.specsets.last? with
    | none => Complaint.valueOutsideSpecSet.about line
    | some specset => do
      let specs ← ofModel (specset.specs.add spec)
      return { r with timing :=
        { r.timing with specsets := r.timing.specsets.replace { specset with specs } } }
  | .unplaced => Complaint.noPlacement.about line

/-! ### Lines -/

/-- Places a line that is neither part of a state map nor skipped. -/
def placeLine (r : TimingReader) (line : String) : LineResult TimingReader :=
  if Form.startsWith line "EQSP" then r.openSection line
  else if isSkipped line then .ok r
  else
    match r.place.part with
    | .preamble => Complaint.noPlacement.about line
    | .wavetables => r.placeWaveTables line (.ofText line)
    | .equations => r.placeEquations line (.ofText line)
    | .values =>
      match r.place.block with
      | some b => r.placeInBlock line b
      | none => r.placeValues line (.ofText line)

/-- Places a line. -/
def read (r : TimingReader) (line : Line) : LineResult TimingReader :=
  let text := line.text
  match unsupportedConstructs.find? fun c => Form.startsWith text c.1 with
  | some (_, construct) => .error (.unsupported text construct)
  | none =>
    if Form.startsWith text "NOOP" then .ok r
    else if r.place.inStatemap then
      if statemapEnds.any (Form.startsWith text) then
        { r with place := { r.place with inStatemap := false } }.placeLine text
      else
        r.inWaveformBlock text fun b => .ok { b with statemap := b.statemap ++ [text] }
    else r.placeLine text

/-- The setup at the end of the text, whose last line is given. -/
def finish (r : TimingReader) (origin : String) (last : Line) : Except ReadError Timing :=
  match r.place.block with
  | none => .ok r.timing
  | some b =>
    .error (.line ⟨origin, last.number⟩
      (.misfit last.text (.unclosedSpecification b.specification.name)))

end TimingReader

namespace Timing

/-- The name of the language in a header. -/
def language : String := "timing"

/-- The header of a timing file. -/
def header : String := "hp93000,timing,0.1"

/-- Reads the text of a timing file. The origin names the text in errors. -/
def parse (text origin : String) : Except ReadError Timing := do
  let lines ← afterHeader origin header (isHeader · language) (significantLines text)
  let reader ← readLines origin TimingReader.read .start lines
  reader.finish origin (lines.getLast?.getD default)

end Timing

end TesterSetup
