import TesterSetup.Json.Value
import TesterSetup.Report.Resolution
import TesterSetup.Sequencer.Burst
import TesterSetup.Sequencer.Library

/-!
# Reports of labels

What a label costs on each of its ports and, where the pin topology is known, for each pin. The
pins of a burst are settled before any label that it calls is costed. An error says at which stage
of the report it arose.
-/

set_option autoImplicit false

namespace TesterSetup

/-- What a label costs. -/
structure LabelReport where
  label : String
  kind : LabelKind
  ports : OrderedMap String PortCost
  pins : Option (OrderedMap String PinRow)

/-- The stages of a report. -/
inductive ReportStage where
  | loading
  | labelRows
  | burstRows
  | costing
  deriving DecidableEq, Repr

/-- What is done with a label at a stage. -/
def ReportStage.text (name : String) : ReportStage → String
  | .loading => s!"loading label '{name}'"
  | .labelRows => s!"pin rows of label '{name}'"
  | .burstRows => s!"pin rows of burst '{name}'"
  | .costing => s!"costing burst '{name}'"

/-- Why a label has no report. -/
structure ReportError where
  stage : ReportStage
  cause : LabelError
  deriving Repr

/-- A label error at a stage. -/
def atStage {m : Type → Type} [Monad m] {α : Type} (stage : ReportStage)
    (r : ExceptT LabelError m α) : ExceptT ReportError m α :=
  r.adapt fun cause => ⟨stage, cause⟩

/-- A result that may fail at a stage. -/
def resultAt {m : Type → Type} [Monad m] {α : Type} (stage : ReportStage)
    (r : Except LabelError α) : ExceptT ReportError m α :=
  atStage stage (ExceptT.mk (pure r))

variable {m : Type → Type} [Monad m]

/-- The report of a label. -/
def LabelSource.report (source : LabelSource m) (name : String) (topology : Option PinTopology) :
    ExceptT ReportError (StateT LabelCache m) LabelReport := do
  match ← atStage .loading (source.label name) with
  | .main l =>
    let pins ← topology.mapM fun t => resultAt .labelRows (l.rows t)
    return ⟨l.name, .main, OrderedMap.ofList [(l.port, l.portCost)], pins⟩
  | .burst b =>
    let owners ← topology.mapM fun t => resultAt .burstRows (t.pinOwners b.ports.keys)
    let ports ← atStage .costing (b.portCosts source.mainCost)
    return ⟨b.name, .burst, ports, owners.map fun o => pinRows o ports⟩

/-! ### Text -/

/-- The name of a kind of label. -/
def LabelKind.name : LabelKind → String
  | .main => "MAIN"
  | .burst => "MPBU"

/-- A cost as reports show it. -/
def PortCost.reportText (c : PortCost) : String :=
  s!"vectors={c.vectors} cycles={c.cycles} labels={c.labels}"

/-- The text of a report. -/
def LabelReport.text (r : LabelReport) : String :=
  let pins :=
    match r.pins with
    | none => ""
    | some rows => reportLine "Pins:" ++ String.join (rows.entries.map fun (pin, row) =>
      reportLine s!"  {pin} ({row.port}): {row.cost.reportText}")
  reportLine s!"Label: {r.label} ({r.kind.name})" ++
    String.join (r.ports.entries.map fun (port, cost) =>
      reportLine s!"  {port}: {cost.reportText}") ++ pins

/-! ### JSON -/

/-- The members of a cost. -/
def PortCost.members (c : PortCost) : List (String × Json) :=
  [("vectors", .natural c.vectors), ("cycles", .natural c.cycles),
    ("num_of_labels", .natural c.labels)]

def PinRow.json (r : PinRow) : Json :=
  .object (("port", .text r.port) :: r.cost.members)

def LabelReport.json (r : LabelReport) : Json :=
  .object ([("label", .text r.label), ("kind", .text r.kind.name),
    ("ports", .object (r.ports.entries.map fun e => (e.1, .object e.2.members)))] ++
    match r.pins with
    | none => []
    | some rows => [("pins", .object (rows.entries.map fun e => (e.1, e.2.json)))])

end TesterSetup
