import TesterSetup.Model.Levels
import TesterSetup.Reader.Shared

/-!
# Levels files

A levels file has two kinds of sections. The equation section (`EQN`) holds equation sets: spec
declarations, equations, supply blocks and level sets with pin blocks. The spec set section
(`SPS`) holds values. `EquationsLine` and `ValuesLine` are the forms that their lines can have; a
`LevelsReader` places one line after the other in the setup.
-/

set_option autoImplicit false

namespace TesterSetup

open TesterSetup.Text

/-- The lines of the equation section. -/
inductive EquationsLine where
  | eqnset (num description : String)
  /-- A heading that carries nothing. -/
  | heading
  | dpsPins (pins : List String)
  | levelSet (num description : String)
  | pins (pins : List String)
  | term (value : String)
  | unsupportedTerm
  | protect
  | assignment (name expression : String)
  | declaration (name unit : String)
  | unplaced
  deriving DecidableEq, Repr

/-- The form of a line of the equation section. -/
def EquationsLine.ofText (line : String) : EquationsLine :=
  let s := line.toList
  if let some (num, description) := Form.numbered? "EQNSET" s then .eqnset num description
  else if line = "SPECS" ∨ line = "EQUATIONS" then .heading
  else if let some names := Form.argument? "DPSPINS" s then .dpsPins (wordsOf names)
  else if let some (num, description) := Form.numbered? "LEVELSET" s then .levelSet num description
  else if let some names := Form.argument? "PINS" s then .pins (wordsOf names)
  else if let some value := Form.word? "term" s then .term value
  else if Form.startsWith line "term " then .unsupportedTerm
  else if line = "protect" then .protect
  else if let some (name, expression) := Form.assignment? s then
    .assignment name (trimmed expression)
  else if let some (name, unit) := Form.declaration? s then
    if isReservedWord name then .unplaced else .declaration name (trimmed (unit.getD ""))
  else .unplaced

/-- The lines of the spec set section. -/
inductive ValuesLine where
  | eqnset (num : String)
  | specSet (num description : String)
  | value (value : Form.SpecValue)
  | unplaced

/-- The form of a line of the spec set section. -/
def ValuesLine.ofText (line : String) : ValuesLine :=
  let s := line.toList
  if let some (num, _) := Form.numbered? "EQNSET" s then .eqnset num
  else if let some (num, description) := Form.numbered? "SPECSET" s then .specSet num description
  else if let some v := Form.specValue? s then .value v
  else .unplaced

/-- The sections of a levels file. -/
inductive LevelsSection where
  | preamble
  | equations
  | values
  deriving DecidableEq, Repr

/-- What has been read of a levels file and where further lines belong. -/
structure LevelsReader where
  part : LevelsSection
  /-- The equation set that is open. -/
  eqnset : Option Nat
  /-- The level set that is open. -/
  levelset : Option Nat
  levels : Levels

namespace LevelsReader

/-- The reader after the header. -/
def start : LevelsReader :=
  ⟨.preamble, none, none, .empty⟩

/-- What levels files may start a line with and this library does not support. -/
def unsupportedConstructs : List String :=
  ["MODULATION", "PIN_ALIAS_SET"]

/-- Firmware commands, which are no part of a setup. -/
def firmwareCommands : List String :=
  ["PSLV", "PSLR", "PSFI", "DRLV", "RCLV", "TERM", "CLMP", "LSUX", "SLDO"]

/-- Whether a line is passed over. -/
def isSkipped (line : String) : Bool :=
  line == "@" || line == "NOOP" || Form.startsWith line "NOOP " ||
    firmwareCommands.any (Form.startsWith line)

/-- Opens a section. -/
def openSection (r : LevelsReader) (line : String) : LineResult LevelsReader :=
  let opened := fun part => .ok { r with part, eqnset := none, levelset := none }
  match Form.section? "LEV" line.toList with
  | none => Complaint.malformedSection.about line
  | some "EQN" => opened .equations
  | some "SPS" => opened .values
  | some _ => Complaint.unknownSection.about line

/-- Changes the equation set that is open. -/
def inEqnSet (r : LevelsReader) (line : String) (f : LevelsEqnSet → LineResult LevelsEqnSet) :
    LineResult LevelsReader :=
  match r.eqnset with
  | none => Complaint.outsideEqnSet.about line
  | some num => do
    let e ← ofModel (r.levels.eqnsets.require num)
    let e ← f e
    return { r with levels := { r.levels with eqnsets := r.levels.eqnsets.replace e } }

/-- Changes the level set that is open. -/
def inLevelSet (r : LevelsReader) (line : String) (f : LevelSet → LineResult LevelSet)
    (e : LevelsEqnSet) : LineResult LevelsEqnSet :=
  match r.levelset with
  | none => Complaint.pinsOutsideLevelSet.about line
  | some num => do
    let s ← ofModel (e.setups.levelsets.require num)
    let s ← f s
    return { e with setups := { e.setups with levelsets := e.setups.levelsets.replace s } }

/-- Changes the pin block that is open. -/
def inPinBlock (r : LevelsReader) (line : String) (f : SettingBlock → LineResult SettingBlock) :
    LevelsEqnSet → LineResult LevelsEqnSet :=
  r.inLevelSet line fun s => do
    let pinblocks ← updateLast s.pinblocks (.misfit line .pinSettingOutsideBlock) f
    return { s with pinblocks }

/-- Changes the supply block that is open. -/
def inDpsBlock (line : String) (missing : Complaint)
    (f : SettingBlock → LineResult SettingBlock) (e : LevelsEqnSet) :
    LineResult LevelsEqnSet := do
  let dpsblocks ← updateLast e.setups.dpsblocks (.misfit line missing) f
  return { e with setups := { e.setups with dpsblocks } }

/-- Places an assignment: a setting in the block that is open, any other name as an equation. -/
def assign (r : LevelsReader) (line name expression : String) (e : LevelsEqnSet) :
    LineResult LevelsEqnSet :=
  let set := fun b : SettingBlock => ofModel (b.set name (.classify name expression))
  if isDpsSetting name then inDpsBlock line .dpsSettingOutsideBlock set e
  else if isPinSetting name then r.inPinBlock line set e
  else if e.acceptsEquations then ofModel (e.addEquation name expression)
  else (Complaint.equationsClosed name).about line

/-- Places a line of the equation section. -/
def placeEquations (r : LevelsReader) (line : String) : EquationsLine → LineResult LevelsReader
  | .eqnset num description => do
    let num ← ofLine line (readSetNum num)
    let eqnsets ← ofModel (r.levels.eqnsets.add (.ofNum num (unquote description)))
    return { r with eqnset := some num, levelset := none, levels := { r.levels with eqnsets } }
  | .heading => .ok r
  | .dpsPins pins => r.inEqnSet line fun e =>
    .ok { e with setups :=
      { e.setups with dpsblocks := e.setups.dpsblocks ++ [.ofPins pins] } }
  | .levelSet num description =>
    match r.eqnset with
    | none => Complaint.outsideEqnSet.about line
    | some _ => do
      let num ← ofLine line (readSetNum num)
      let r ← r.inEqnSet line fun e => do
        let levelsets ← ofModel (e.setups.levelsets.add (.ofNum num (unquote description)))
        return { e with setups := { e.setups with levelsets } }
      return { r with levelset := some num }
  | .pins pins => r.inEqnSet line (r.inLevelSet line fun s =>
    .ok { s with pinblocks := s.pinblocks ++ [.ofPins pins] })
  | .term value => r.inEqnSet line (r.inPinBlock line fun b =>
    ofModel (b.set "term" (.literal value)))
  | .unsupportedTerm => r.inEqnSet line fun _ => Complaint.unsupportedTerm.about line
  | .protect => r.inEqnSet line (inDpsBlock line .protectOutsideBlock fun b =>
    ofModel (b.set "protect" (.flag true)))
  | .assignment name expression => r.inEqnSet line (r.assign line name expression)
  | .declaration name unit => r.inEqnSet line fun e => .ok (e.declareSpec name unit)
  | .unplaced => r.inEqnSet line fun _ => Complaint.noPlacement.about line

/-- Places a line of the spec set section. -/
def placeValues (r : LevelsReader) (line : String) : ValuesLine → LineResult LevelsReader
  | .eqnset num => do
    let num ← ofLine line (readSetNum num)
    return { r with eqnset := some num }
  | .specSet num description =>
    match r.eqnset with
    | none => Complaint.specSetBeforeEqnSet.about line
    | some eqnset => do
      let num ← ofLine line (readSpecSetNum num)
      let specsets ← ofModel (r.levels.specsets.add (.ofNum eqnset num (unquote description)))
      return { r with levels := { r.levels with specsets } }
  | .value value => do
    let spec ← ofLine line value.spec
    match r.levels.specsets.last? with
    | none => Complaint.valueOutsideSpecSet.about line
    | some specset => do
      let specs ← ofModel (specset.specs.add spec)
      return { r with levels :=
        { r.levels with specsets := r.levels.specsets.replace { specset with specs } } }
  | .unplaced => Complaint.noPlacement.about line

/-- Places a line. -/
def read (r : LevelsReader) (line : Line) : LineResult LevelsReader :=
  let text := line.text
  match unsupportedConstructs.find? (Form.startsWith text) with
  | some construct => .error (.unsupported text construct)
  | none =>
    if Form.startsWith text "EQSP" then r.openSection text
    else if isSkipped text then .ok r
    else
      match r.part with
      | .preamble => Complaint.noPlacement.about text
      | .equations => r.placeEquations text (.ofText text)
      | .values => r.placeValues text (.ofText text)

end LevelsReader

namespace Levels

/-- The name of the language in a header. -/
def language : String := "level"

/-- The header of a levels file. -/
def header : String := "hp93000,level,0.1"

/-- Reads the text of a levels file. The origin names the text in errors. -/
def parse (text origin : String) : Except ReadError Levels := do
  let lines ← afterHeader origin header (isHeader · language) (significantLines text)
  let reader ← readLines origin LevelsReader.read .start lines
  return reader.levels

end Levels

end TesterSetup
