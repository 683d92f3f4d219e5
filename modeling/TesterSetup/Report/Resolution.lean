import TesterSetup.Decimal.Places
import TesterSetup.Json.Value
import TesterSetup.Resolve.Levels
import TesterSetup.Resolve.Multiport

/-!
# Reports of resolutions

A resolved setup as text for people and as JSON. Numbers have up to six places for people. A flag
that is off is left out, one that is on is its name.
-/

set_option autoImplicit false

namespace TesterSetup

/-- A line of a report. -/
def reportLine (text : String) : String :=
  text ++ "\n"

/-- A name with a number as reports show them. -/
def namedNumber (name between : String) (x : Float) : String :=
  name ++ between ++ Decimal.reportText x

/-- Variables on lines of their own. -/
def variableLines (closure : Variables) : String :=
  reportLine "Variables:" ++
    String.join (closure.entries.map fun e => reportLine ("  " ++ namedNumber e.1 " = " e.2))

/-- A number for each name. -/
def numbersJson {α : Type} (text : α → String) (numbers : OrderedMap α Float) : Json :=
  .object (numbers.entries.map fun e => (text e.1, .number e.2))

/-! ### Levels -/

/-- A setting as reports show it. -/
def SettingValue.reportText? (name : String) : SettingValue → Option String
  | .number x => some (namedNumber name "=" x)
  | .literal text => some (name ++ "=" ++ text)
  | .flag true => some name
  | .flag false => none

/-- The settings of each pin under a heading, which is left out with them. -/
def settingLines (heading : String) (table : PinTable String SettingValue) : String :=
  if table.isEmpty then ""
  else
    reportLine heading ++ String.join (table.entries.map fun (pin, settings) =>
      let texts := settings.entries.filterMap fun e => e.2.reportText? e.1
      reportLine ("  " ++ pin ++ ": " ++ " ".intercalate texts))

/-- The report of a resolved levels setup. -/
def LevelsResolution.report (r : LevelsResolution) (eqnset specset levelset : Nat) : String :=
  reportLine s!"Levels: EQNSET {eqnset}, SPECSET {specset}, LEVELSET {levelset}" ++
    variableLines r.closure ++
    settingLines "Supplies:" r.pinSettings.dps ++
    settingLines "Pins:" r.pinSettings.pins

def SettingValue.json : SettingValue → Json
  | .number x => .number x
  | .literal text => .text text
  | .flag on => .bool on

/-- The settings of each pin. -/
def settingsJson (table : PinTable String SettingValue) : Json :=
  .object (table.entries.map fun (pin, settings) =>
    (pin, .object (settings.entries.map fun e => (e.1, e.2.json))))

def LevelsResolution.json (r : LevelsResolution) : Json :=
  .object [("variables", numbersJson id r.closure),
    ("pin_settings", .object [("dps", settingsJson r.pinSettings.dps),
      ("pins", settingsJson r.pinSettings.pins)])]

/-! ### Timing -/

/-- The period and the edges of each pin. -/
def PinEdges.report (indent : String) (p : PinEdges) : String :=
  reportLine (indent ++ "Period: " ++ Decimal.reportText p.period) ++
    String.join (p.pins.entries.map fun (pin, edges) =>
      let texts := edges.entries.map fun e => namedNumber e.1.text "=" e.2
      reportLine (indent ++ "  " ++ pin ++ ": " ++ " ".intercalate texts))

/-- The report of a resolved timing setup. -/
def TimingResolution.report (r : TimingResolution) (eqnset specset timingset : Nat) : String :=
  reportLine s!"Timing: EQNSET {eqnset}, SPECSET {specset}, TIMINGSET {timingset}" ++
    variableLines r.closure ++ r.pinEdges.report ""

def PinEdges.json (p : PinEdges) : Json :=
  .object [("period", .number p.period),
    ("pins", .object (p.pins.entries.map fun e => (e.1, numbersJson EdgeId.text e.2)))]

def TimingResolution.json (r : TimingResolution) : Json :=
  .object [("variables", numbersJson id r.closure), ("pin_edges", r.pinEdges.json)]

/-! ### Specifications -/

/-- The report of one port. -/
def PortResolution.report (port : String) (r : PortResolution) : String :=
  let texts := r.closure.entries.map fun e => namedNumber e.1 "=" e.2
  reportLine (s!"Port {port}: EQNSET {r.eqnset}, TIMINGSET {r.timingset}, " ++
      "WAVETBL \"" ++ r.wavetable ++ "\"") ++
    reportLine ("  Variables: " ++ " ".intercalate texts) ++ r.pinEdges.report "  "

/-- The report of a resolved specification. -/
def MultiportResolution.report (r : MultiportResolution) : String :=
  reportLine s!"Specification: {r.specification}" ++
    String.join (r.ports.entries.map fun e => e.2.report e.1)

def PortResolution.json (r : PortResolution) : Json :=
  .object [("eqnset", .natural r.eqnset), ("timingset", .natural r.timingset),
    ("wavetable", .text r.wavetable), ("variables", numbersJson id r.closure),
    ("pin_edges", r.pinEdges.json)]

def MultiportResolution.json (r : MultiportResolution) : Json :=
  .object [("specification", .text r.specification),
    ("ports", .object (r.ports.entries.map fun e => (e.1, e.2.json)))]

end TesterSetup
