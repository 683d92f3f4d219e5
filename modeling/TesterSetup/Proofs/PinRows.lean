import TesterSetup.Proofs.BurstStreams
import TesterSetup.Proofs.BurstTotals
import TesterSetup.Proofs.LabelLookups
import TesterSetup.Proofs.PinOwnership
import TesterSetup.Report.Label

/-!
# Rows of pins

A row gives a pin its owner and what that has cost, which is looked up in a table of the ports; a
port that is not in the table would cost nothing. `CarriesCosts` says that this does not happen: the
rows are those of the pins that have owners, in order, and each owner is in the table. It holds as
soon as the owners are those of the ports of the table (`carriesCosts_pinRows`). Both ways to the
rows are of this kind: `BurstLabel.rows`, for any way of finding the costs of labels, and
`LabelSource.report`, for a source whose files are read with effects of any kind.

A report shares its label cache with the calls of its burst, so that costing goes from one pair of
a cache and a state to the next. `shared` makes such a computation one with a single state. It goes
through the sums of calls and ports (`shared_portCosts`), and what is known of costing bursts with
one state holds inside reports.
-/

set_option autoImplicit false

namespace TesterSetup

/-! ### Owners -/

section Owners

variable {owners found : OrderedMap String String} {port : String} {pins ports : List String}
  {t : PinTopology}

theorem entries_of_assignPins (h : assignPins port owners pins = .ok found) :
    found.entries = owners.entries ++ pins.map fun pin ↦ (pin, port) := by
  induction pins generalizing owners with
  | nil =>
    cases h
    exact (List.append_nil _).symm
  | cons pin rest ih =>
    rw [assignPins] at h
    split at h
    · cases h
    · rename_i hfree
      have hpin : pin ∉ owners.keys := OrderedMap.get?_eq_none_iff.mp hfree
      rw [ih h, OrderedMap.entries_insert_of_notMem hpin, List.append_assoc]
      rfl

theorem entries_of_ownersFrom (h : ownersFrom t owners ports = .ok found) :
    found.entries = owners.entries ++ t.claims ports := by
  induction ports generalizing owners with
  | nil =>
    cases h
    exact (List.append_nil _).symm
  | cons port rest ih =>
    rw [ownersFrom] at h
    split at h
    · cases h
    · rename_i pins hpins
      obtain ⟨next, hnext, h⟩ := except_bind_eq_ok_iff.mp h
      have hpinsOf : t.pinsOf port = pins := by
        rw [PinTopology.pinsOf, hpins]
        rfl
      rw [ih h, entries_of_assignPins hnext, List.append_assoc, PinTopology.claims,
        PinTopology.claims, List.flatMap_cons, hpinsOf]

/-- Owners that were found are those of the pins of the ports, on any topology. -/
theorem PinTopology.entries_of_pinOwners (h : t.pinOwners ports = .ok owners) :
    owners.entries = t.claims ports :=
  (entries_of_ownersFrom h).trans (List.nil_append _)

end Owners

/-! ### Rows -/

/-- The rows of pins that have owners: one row for each of them, in the same order, with the owner
and what the owner has cost. -/
def CarriesCosts (owners : OrderedMap String String) (costs : OrderedMap String PortCost)
    (rows : OrderedMap String PinRow) : Prop :=
  List.Forall₂ (fun owner row ↦ row.1 = owner.1 ∧ row.2.port = owner.2 ∧
    costs.get? owner.2 = some row.2.cost) owners.entries rows.entries

section Rows

variable {owners : OrderedMap String String} {costs : OrderedMap String PortCost}
  {t : PinTopology} {ports : List String}

/-- The owners of the pins of ports are among these, so none of them is missing in a table of the
ports. -/
theorem carriesCosts_pinRows (howners : t.pinOwners ports = .ok owners)
    (hcosts : costs.keys = ports) : CarriesCosts owners costs (pinRows owners costs) := by
  refine List.forall₂_map_right_iff.mpr (List.forall₂_same.mpr fun owner howner ↦ ⟨rfl, rfl, ?_⟩)
  rw [PinTopology.entries_of_pinOwners howners] at howner
  have hport : owner.2 ∈ costs.keys := hcosts ▸ (PinTopology.mem_claims.mp howner).1
  obtain ⟨cost, hcost⟩ := Option.isSome_iff_exists.mp (OrderedMap.contains_iff.mpr hport)
  dsimp only
  rw [hcost]
  rfl

/-- What a MAIN label costs, as a table of its one port. -/
def MainLabel.portCosts (l : MainLabel) : OrderedMap String PortCost :=
  .ofList [(l.port, l.portCost)]

theorem MainLabel.rows_of_ok {l : MainLabel} (h : t.pinOwners [l.port] = .ok owners) :
    l.rows t = .ok (pinRows owners l.portCosts) := by
  rw [rows, h]
  refine congrArg Except.ok (OrderedMap.ext (List.map_congr_left fun owner howner ↦ ?_))
  rw [PinTopology.entries_of_pinOwners h] at howner
  have hport : owner.2 = l.port := List.mem_singleton.mp (PinTopology.mem_claims.mp howner).1
  have hcost : l.portCosts.get? l.port = some l.portCost := OrderedMap.get?_insert_self _ _ _
  rw [hport]
  dsimp only
  rw [hcost]
  rfl

theorem MainLabel.rows_of_error {l : MainLabel} {e : LabelError}
    (h : t.pinOwners [l.port] = .error e) : l.rows t = .error e := by
  rw [rows, h]
  rfl

end Rows

section Burst

variable {m : Type → Type} [Monad m] [LawfulMonad m] {f : String → ExceptT LabelError m Cost}
  {b : BurstLabel} {t : PinTopology}

/-- With owners, the rows of a burst are found by costing it. -/
theorem BurstLabel.rows_of_ok {owners : OrderedMap String String}
    (h : t.pinOwners b.ports.keys = .ok owners) :
    b.rows t f = b.portCosts f >>= fun costs ↦ pure (pinRows owners costs) := by
  rw [rows, h]
  exact pure_bind owners _

/-- Without owners no cost is asked for. -/
theorem BurstLabel.rows_of_error {e : LabelError} (h : t.pinOwners b.ports.keys = .error e) :
    b.rows t f = throw e := by
  rw [rows, h]
  exact pure_bind (Except.error e) _

end Burst

section Runs

variable {σ : Type} {f : String → ExceptT LabelError (StateM σ) Cost} {s next : σ}
  {b : BurstLabel} {t : PinTopology} {costs : OrderedMap String PortCost}
  {rows : OrderedMap String PinRow}

/-- A burst that is costed has a cost for each of its ports. -/
theorem BurstLabel.keys_of_runFrom_portCosts (h : runFrom (b.portCosts f) s = (.ok costs, next)) :
    costs.keys = b.ports.keys := by
  obtain ⟨answers, hask, -, hentries⟩ := runFrom_portCosts_eq_ok_iff.mp h
  rw [OrderedMap.keys, hentries, keys_portTotals (length_of_runFrom_mapM hask)]
  rfl

/-- The rows of a burst are found exactly when its pins have owners and its ports have costs. -/
theorem BurstLabel.runFrom_rows_eq_ok_iff :
    runFrom (b.rows t f) s = (.ok rows, next) ↔
      ∃ owners costs, t.pinOwners b.ports.keys = .ok owners ∧
        runFrom (b.portCosts f) s = (.ok costs, next) ∧ rows = pinRows owners costs := by
  cases howners : t.pinOwners b.ports.keys with
  | error e =>
    rw [rows_of_error howners]
    exact ⟨fun h ↦ (nomatch h), fun ⟨_, _, h, _⟩ ↦ (nomatch h)⟩
  | ok owners =>
    rw [rows_of_ok howners, runFrom_bind_eq_ok_iff]
    constructor
    · rintro ⟨costs, last, hcosts, hpure⟩
      obtain ⟨rfl, rfl⟩ := runFrom_pure_eq_iff.mp hpure
      exact ⟨owners, costs, rfl, hcosts, rfl⟩
    · rintro ⟨_, costs, ⟨⟩, hcosts, rfl⟩
      exact ⟨costs, next, hcosts, runFrom_pure_eq_iff.mpr ⟨rfl, rfl⟩⟩

end Runs

/-! ### Computations with a shared cache -/

section Shared

variable {σ ε α β : Type}

/-- The answer of a computation with a label cache and a state, and what it leaves of both. -/
def runShared (x : ExceptT ε (StateT LabelCache (StateM σ)) α) (s : LabelCache × σ) :
    Except ε α × (LabelCache × σ) :=
  let ((answer, cache), rest) := (x.run.run s.1).run s.2
  (answer, (cache, rest))

/-- The same computation with the cache in its state. -/
def shared (x : WithLabels (StateM σ) α) : ExceptT LabelError (StateM (LabelCache × σ)) α :=
  ExceptT.mk (runShared x)

theorem runFrom_shared (x : WithLabels (StateM σ) α) (s : LabelCache × σ) :
    runFrom (shared x) s = runShared x s :=
  rfl

theorem runShared_bind (x : ExceptT ε (StateT LabelCache (StateM σ)) α)
    (f : α → ExceptT ε (StateT LabelCache (StateM σ)) β) (s : LabelCache × σ) :
    runShared (x >>= f) s =
      match runShared x s with
      | (.ok a, next) => runShared (f a) next
      | (.error e, next) => (.error e, next) := by
  rcases h : (x.run.run s.1).run s.2 with ⟨⟨r, cache⟩, rest⟩
  have hrun : runShared x s = (r, (cache, rest)) := by
    rw [runShared, h]
  rw [hrun]
  simp only [runShared, ExceptT.run_bind, StateT.run_bind, h]
  cases r <;> rfl

theorem runShared_atStage (stage : ReportStage) (x : WithLabels (StateM σ) α)
    (s : LabelCache × σ) :
    runShared (atStage stage x) s =
      match runShared x s with
      | (.ok a, next) => (.ok a, next)
      | (.error e, next) => (.error ⟨stage, e⟩, next) := by
  rcases h : (x.run.run s.1).run s.2 with ⟨⟨r, cache⟩, rest⟩
  have hrun : runShared x s = (r, (cache, rest)) := by
    rw [runShared, h]
  rw [hrun]
  simp only [runShared, atStage, ExceptT.run_adapt, StateT.run_map, h]
  cases r <;> rfl

theorem shared_bind (x : WithLabels (StateM σ) α) (f : α → WithLabels (StateM σ) β) :
    shared (x >>= f) = shared x >>= fun a ↦ shared (f a) := by
  funext s
  change runFrom (shared (x >>= f)) s = runFrom (shared x >>= fun a ↦ shared (f a)) s
  rw [runFrom_bind, runFrom_shared, runFrom_shared, runShared_bind]
  rcases runShared x s with ⟨e | a, next⟩ <;> rfl

variable {f : String → WithLabels (StateM σ) Cost}

theorem shared_sumCalls (burst : String) (total : PortCost) (targets : List String) :
    shared (sumCalls burst f total targets) =
      sumCalls burst (fun target ↦ shared (f target)) total targets := by
  induction targets generalizing total with
  | nil => rfl
  | cons target rest ih =>
    rw [sumCalls, sumCalls, shared_bind]
    refine congrArg _ (funext fun cost ↦ ?_)
    rcases total.addLabel burst cost with ⟨sum, _ | e⟩
    · exact ih sum
    · rfl

theorem shared_costPorts (burst : String) (costs : OrderedMap String PortCost)
    (ports : List BurstPort) :
    shared (costPorts burst f costs ports) =
      costPorts burst (fun target ↦ shared (f target)) costs ports := by
  induction ports generalizing costs with
  | nil => rfl
  | cons port rest ih =>
    rw [costPorts, costPorts, shared_bind, shared_sumCalls]
    exact congrArg _ (funext fun cost ↦ ih (costs.insert port.name cost))

theorem shared_portCosts (b : BurstLabel) :
    shared (b.portCosts f) = b.portCosts fun target ↦ shared (f target) :=
  shared_costPorts _ _ _

theorem shared_rows (b : BurstLabel) (t : PinTopology) :
    shared (b.rows t f) = b.rows t fun target ↦ shared (f target) := by
  cases howners : t.pinOwners b.ports.keys with
  | error e =>
    rw [BurstLabel.rows_of_error howners, BurstLabel.rows_of_error howners]
    rfl
  | ok owners =>
    rw [BurstLabel.rows_of_ok howners, BurstLabel.rows_of_ok howners, shared_bind,
      shared_portCosts]
    rfl

variable {s next : LabelCache × σ} {b : BurstLabel} {t : PinTopology}

theorem keys_of_runShared_portCosts {costs : OrderedMap String PortCost}
    (h : runShared (b.portCosts f) s = (.ok costs, next)) : costs.keys = b.ports.keys := by
  rw [← runFrom_shared, shared_portCosts] at h
  exact BurstLabel.keys_of_runFrom_portCosts h

theorem runShared_rows_eq_ok_iff {rows : OrderedMap String PinRow} :
    runShared (b.rows t f) s = (.ok rows, next) ↔
      ∃ owners costs, t.pinOwners b.ports.keys = .ok owners ∧
        runShared (b.portCosts f) s = (.ok costs, next) ∧ rows = pinRows owners costs := by
  rw [← runFrom_shared, ← runFrom_shared, shared_rows, shared_portCosts]
  exact BurstLabel.runFrom_rows_eq_ok_iff

end Shared

/-! ### Reports -/

section Report

variable {σ : Type} (source : LabelSource (StateM σ)) (name : String) (t : PinTopology)
  (s : LabelCache × σ)

/-- The reports of a label with rows. The rows of a burst are those that `BurstLabel.rows` finds
with the cache that the look-up of the label has left, although the report costs the burst itself
and only once. -/
inductive LabelSource.Reports : LabelReport → LabelCache × σ → Prop
  | main {l : MainLabel} {rows : OrderedMap String PinRow} {next : LabelCache × σ}
      (label : runShared (source.label name) s = (.ok (.main l), next))
      (pins : l.rows t = .ok rows) :
      Reports ⟨l.name, .main, l.portCosts, some rows⟩ next
  | burst {b : BurstLabel} {rows : OrderedMap String PinRow}
      {costs : OrderedMap String PortCost} {mid next : LabelCache × σ}
      (label : runShared (source.label name) s = (.ok (.burst b), mid))
      (pins : runShared (b.rows t source.mainCost) mid = (.ok rows, next))
      (ports : runShared (b.portCosts source.mainCost) mid = (.ok costs, next)) :
      Reports ⟨b.name, .burst, costs, some rows⟩ next

/-- The ways in which a report with rows fails, each at its stage. -/
inductive LabelSource.FailsToReport : ReportError → LabelCache × σ → Prop
  | loading {cause : LabelError} {next : LabelCache × σ}
      (label : runShared (source.label name) s = (.error cause, next)) :
      FailsToReport ⟨.loading, cause⟩ next
  | main {l : MainLabel} {cause : LabelError} {next : LabelCache × σ}
      (label : runShared (source.label name) s = (.ok (.main l), next))
      (pins : l.rows t = .error cause) : FailsToReport ⟨.labelRows, cause⟩ next
  | owners {b : BurstLabel} {cause : LabelError} {next : LabelCache × σ}
      (label : runShared (source.label name) s = (.ok (.burst b), next))
      (pins : t.pinOwners b.ports.keys = .error cause) : FailsToReport ⟨.burstRows, cause⟩ next
  | costing {b : BurstLabel} {owners : OrderedMap String String} {cause : LabelError}
      {mid next : LabelCache × σ}
      (label : runShared (source.label name) s = (.ok (.burst b), mid))
      (pins : t.pinOwners b.ports.keys = .ok owners)
      (ports : runShared (b.portCosts source.mainCost) mid = (.error cause, next)) :
      FailsToReport ⟨.costing, cause⟩ next

variable {source name t s} {next mid : LabelCache × σ} {l : MainLabel} {b : BurstLabel}
  {owners : OrderedMap String String} {e : LabelError}

theorem resultAt_ok {m : Type → Type} [Monad m] [LawfulMonad m] {α : Type} (stage : ReportStage)
    (a : α) : resultAt (m := m) stage (.ok a) = pure a :=
  map_pure (f := m) (Except.mapError fun cause ↦ ReportError.mk stage cause) (.ok a)

theorem resultAt_error {m : Type → Type} [Monad m] [LawfulMonad m] {α : Type}
    (stage : ReportStage) (e : LabelError) :
    resultAt (m := m) (α := α) stage (.error e) = throw ⟨stage, e⟩ :=
  map_pure (f := m) (Except.mapError fun cause ↦ ReportError.mk stage cause) (.error e)

theorem runShared_report_of_error
    (h : runShared (source.label name) s = (.error e, next)) :
    runShared (source.report name (some t)) s = (.error ⟨.loading, e⟩, next) := by
  rw [LabelSource.report, runShared_bind, runShared_atStage, h]

theorem runShared_report_of_main
    (h : runShared (source.label name) s = (.ok (.main l), next)) :
    runShared (source.report name (some t)) s =
      match l.rows t with
      | .ok rows => (.ok ⟨l.name, .main, l.portCosts, some rows⟩, next)
      | .error e => (.error ⟨.labelRows, e⟩, next) := by
  rw [LabelSource.report, runShared_bind, runShared_atStage, h]
  cases hrows : l.rows t with
  | error e =>
    simp only [Option.mapM_some, hrows, resultAt_error]
    rfl
  | ok rows =>
    simp only [Option.mapM_some, hrows, resultAt_ok]
    rfl

theorem runShared_report_of_owners_error
    (h : runShared (source.label name) s = (.ok (.burst b), next))
    (howners : t.pinOwners b.ports.keys = .error e) :
    runShared (source.report name (some t)) s = (.error ⟨.burstRows, e⟩, next) := by
  rw [LabelSource.report, runShared_bind, runShared_atStage, h]
  simp only [Option.mapM_some, howners, resultAt_error]
  rfl

theorem runShared_report_of_owners
    (h : runShared (source.label name) s = (.ok (.burst b), mid))
    (howners : t.pinOwners b.ports.keys = .ok owners) :
    runShared (source.report name (some t)) s =
      match runShared (b.portCosts source.mainCost) mid with
      | (.ok costs, next) => (.ok ⟨b.name, .burst, costs, some (pinRows owners costs)⟩, next)
      | (.error e, next) => (.error ⟨.costing, e⟩, next) := by
  rw [LabelSource.report, runShared_bind, runShared_atStage, h]
  simp only [Option.mapM_some, howners, resultAt_ok, map_pure, pure_bind]
  rw [runShared_bind, runShared_atStage]
  rcases runShared (b.portCosts source.mainCost) mid with ⟨e | costs, next⟩ <;> rfl

theorem LabelSource.Reports.runShared_eq {report : LabelReport}
    (h : source.Reports name t s report next) :
    runShared (source.report name (some t)) s = (.ok report, next) := by
  cases h with
  | main label pins => rw [runShared_report_of_main label, pins]
  | burst label pins ports =>
    obtain ⟨owners, costs, howners, hcosts, rfl⟩ := runShared_rows_eq_ok_iff.mp pins
    rw [runShared_report_of_owners label howners, ports]
    cases ports.symm.trans hcosts
    rfl

theorem LabelSource.FailsToReport.runShared_eq {e : ReportError}
    (h : source.FailsToReport name t s e next) :
    runShared (source.report name (some t)) s = (.error e, next) := by
  cases h with
  | loading label => exact runShared_report_of_error label
  | main label pins => rw [runShared_report_of_main label, pins]
  | owners label pins => exact runShared_report_of_owners_error label pins
  | costing label pins ports => rw [runShared_report_of_owners label pins, ports]

theorem LabelSource.reports_or_failsToReport (source : LabelSource (StateM σ)) (name : String)
    (t : PinTopology) (s : LabelCache × σ) :
    (∃ report next, source.Reports name t s report next) ∨
      ∃ e next, source.FailsToReport name t s e next := by
  rcases hlabel : runShared (source.label name) s with ⟨e | l | b, mid⟩
  · exact .inr ⟨_, _, .loading hlabel⟩
  · cases hrows : l.rows t with
    | error e => exact .inr ⟨_, _, .main hlabel hrows⟩
    | ok rows => exact .inl ⟨_, _, .main hlabel hrows⟩
  · cases howners : t.pinOwners b.ports.keys with
    | error e => exact .inr ⟨_, _, .owners hlabel howners⟩
    | ok owners =>
      rcases hcosts : runShared (b.portCosts source.mainCost) mid with ⟨e | costs, next⟩
      · exact .inr ⟨_, _, .costing hlabel howners hcosts⟩
      · have hrows : runShared (b.rows t source.mainCost) mid = (.ok (pinRows owners costs), next) :=
          runShared_rows_eq_ok_iff.mpr ⟨owners, costs, howners, hcosts, rfl⟩
        exact .inl ⟨_, _, .burst hlabel hrows hcosts⟩

theorem LabelSource.runShared_report_eq_ok_iff {report : LabelReport} :
    runShared (source.report name (some t)) s = (.ok report, next) ↔
      source.Reports name t s report next := by
  refine ⟨fun h ↦ ?_, fun h ↦ h.runShared_eq⟩
  rcases source.reports_or_failsToReport name t s with ⟨found, last, hfound⟩ | ⟨e, last, hfails⟩
  · cases h.symm.trans hfound.runShared_eq
    exact hfound
  · cases h.symm.trans hfails.runShared_eq

theorem LabelSource.runShared_report_eq_error_iff {e : ReportError} :
    runShared (source.report name (some t)) s = (.error e, next) ↔
      source.FailsToReport name t s e next := by
  refine ⟨fun h ↦ ?_, fun h ↦ h.runShared_eq⟩
  rcases source.reports_or_failsToReport name t s with ⟨found, last, hfound⟩ | ⟨e, last, hfails⟩
  · cases h.symm.trans hfound.runShared_eq
  · cases h.symm.trans hfails.runShared_eq
    exact hfails

/-- The rows of a report carry the costs of its own ports. -/
theorem LabelSource.Reports.carriesCosts {report : LabelReport}
    (h : source.Reports name t s report next) : ∃ owners rows,
      t.pinOwners report.ports.keys = .ok owners ∧ report.pins = some rows ∧
        CarriesCosts owners report.ports rows := by
  cases h with
  | @main l rows next label pins =>
    have hkeys : l.portCosts.keys = [l.port] := rfl
    cases howners : t.pinOwners [l.port] with
    | error e => cases (MainLabel.rows_of_error howners).symm.trans pins
    | ok owners =>
      cases (MainLabel.rows_of_ok howners).symm.trans pins
      exact ⟨owners, _, hkeys ▸ howners, rfl, carriesCosts_pinRows howners hkeys⟩
  | @burst b rows costs mid next label pins ports =>
    obtain ⟨owners, costs', howners, hcosts, rfl⟩ := runShared_rows_eq_ok_iff.mp pins
    cases ports.symm.trans hcosts
    have hkeys := keys_of_runShared_portCosts ports
    exact ⟨owners, _, hkeys ▸ howners, rfl, carriesCosts_pinRows howners hkeys⟩

end Report

/-- Rows of pins carry the costs of their owners. A burst has rows exactly when the pins of its
ports have owners and its ports have costs. It then has one row for every pin of its ports, in the
order in which the owners are found, and every row has the cost of its owner in the table of port
costs. Without owners no label is asked for its cost.

A report on a topology has the rows that its label has, for a burst with the cache that is left by
finding it, and they carry the costs of the ports that the same report lists. -/
theorem rows_carry_costs :
    (∀ (b : BurstLabel) (t : PinTopology) (σ : Type)
      (f : String → ExceptT LabelError (StateM σ) Cost) (s next : σ),
      ((∃ rows, runFrom (b.rows t f) s = (.ok rows, next)) ↔
        (∃ owners, t.pinOwners b.ports.keys = .ok owners) ∧
          ∃ costs, runFrom (b.portCosts f) s = (.ok costs, next)) ∧
      (∀ rows, runFrom (b.rows t f) s = (.ok rows, next) → ∃ owners costs,
        t.pinOwners b.ports.keys = .ok owners ∧ owners.entries = t.claims b.ports.keys ∧
          runFrom (b.portCosts f) s = (.ok costs, next) ∧ CarriesCosts owners costs rows) ∧
      ∀ e, t.pinOwners b.ports.keys = .error e → b.rows t f = throw e) ∧
    ∀ (σ : Type) (source : LabelSource (StateM σ)) (name : String) (t : PinTopology)
      (s next : LabelCache × σ),
      (∀ report, runShared (source.report name (some t)) s = (.ok report, next) ↔
        source.Reports name t s report next) ∧
      (∀ e, runShared (source.report name (some t)) s = (.error e, next) ↔
        source.FailsToReport name t s e next) ∧
      ∀ report, source.Reports name t s report next → ∃ owners rows,
        t.pinOwners report.ports.keys = .ok owners ∧ report.pins = some rows ∧
          CarriesCosts owners report.ports rows := by
  refine ⟨fun b t σ f s next ↦ ⟨?_, fun rows h ↦ ?_, fun e ↦ BurstLabel.rows_of_error⟩,
    fun σ source name t s next ↦ ⟨fun report ↦ LabelSource.runShared_report_eq_ok_iff,
      fun e ↦ LabelSource.runShared_report_eq_error_iff,
      fun report ↦ LabelSource.Reports.carriesCosts⟩⟩
  · constructor
    · rintro ⟨rows, h⟩
      obtain ⟨owners, costs, howners, hcosts, -⟩ := BurstLabel.runFrom_rows_eq_ok_iff.mp h
      exact ⟨⟨owners, howners⟩, costs, hcosts⟩
    · rintro ⟨⟨owners, howners⟩, costs, hcosts⟩
      exact ⟨_, BurstLabel.runFrom_rows_eq_ok_iff.mpr ⟨owners, costs, howners, hcosts, rfl⟩⟩
  · obtain ⟨owners, costs, howners, hcosts, rfl⟩ := BurstLabel.runFrom_rows_eq_ok_iff.mp h
    exact ⟨owners, costs, howners, PinTopology.entries_of_pinOwners howners, hcosts,
      carriesCosts_pinRows howners (BurstLabel.keys_of_runFrom_portCosts hcosts)⟩

/-- A burst that calls a label on each of two ports, in a source that logs what is read. -/
def twoPortSource : LabelSource (StateM (List String)) where
  candidates name := [name]
  read path := do
    modify (· ++ [path])
    return .ok (if path = "all" then burstOnTwoPorts recordsInTurn else shelfFile path "5")

theorem rows_carry_costs_twoPorts :
    (∃ b rows owners costs, (burstOnTwoPorts recordsInTurn).assemble = .ok (.burst b) ∧
      runFrom (b.rows PinTopology.sharingPorts (recorded (answering fiveOrSeven))) [] =
        (.ok rows, ["one", "two"]) ∧
      owners.entries = [("b", "P1"), ("a", "P1"), ("c", "P2")] ∧ CarriesCosts owners costs rows ∧
      b.rows (.ofPins ["a"] []) (recorded (answering fiveOrSeven)) = throw (.unknownPort "P1")) ∧
    ∃ report next owners rows,
      runShared (twoPortSource.report "all" (some PinTopology.sharingPorts)) (.empty, []) =
        (.ok report, next) ∧
      report.pins = some rows ∧ CarriesCosts owners report.ports rows := by
  obtain ⟨hburst, hreport⟩ := rows_carry_costs
  constructor
  · obtain ⟨b, h, howners, hcosts, hclaims, hunknown⟩ :
        ∃ b, (burstOnTwoPorts recordsInTurn).assemble = .ok (.burst b) ∧
          (∃ owners, PinTopology.sharingPorts.pinOwners b.ports.keys = .ok owners) ∧
          (∃ costs, runFrom (b.portCosts (recorded (answering fiveOrSeven))) [] =
            (.ok costs, ["one", "two"])) ∧
          PinTopology.sharingPorts.claims b.ports.keys = [("b", "P1"), ("a", "P1"), ("c", "P2")] ∧
          (PinTopology.ofPins ["a"] []).pinOwners b.ports.keys = .error (.unknownPort "P1") :=
      ⟨_, rfl, ⟨_, rfl⟩, ⟨_, rfl⟩, rfl, rfl⟩
    obtain ⟨hfound, hcarries, -⟩ := hburst b PinTopology.sharingPorts (List String)
      (recorded (answering fiveOrSeven)) [] ["one", "two"]
    obtain ⟨rows, hrows⟩ := hfound.mpr ⟨howners, hcosts⟩
    obtain ⟨owners, costs, -, hentries, -, hrow⟩ := hcarries rows hrows
    exact ⟨b, rows, owners, costs, h, hrows, hentries.trans hclaims, hrow,
      (hburst b _ _ (recorded (answering fiveOrSeven)) [] []).2.2 _ hunknown⟩
  · obtain ⟨report, next, hrun⟩ : ∃ report next,
        runShared (twoPortSource.report "all" (some PinTopology.sharingPorts)) (.empty, []) =
          (.ok report, next) := ⟨_, _, rfl⟩
    obtain ⟨hok, -, hcarries⟩ := hreport _ twoPortSource "all" PinTopology.sharingPorts
      (.empty, []) next
    obtain ⟨owners, rows, -, hpins, hrow⟩ := hcarries report ((hok report).mp hrun)
    exact ⟨report, next, owners, rows, hrun, hpins, hrow⟩

end TesterSetup
