import TesterSetup.Proofs.AssembledLabels
import TesterSetup.Proofs.BurstCosts
import TesterSetup.Proofs.LabelCaching
import TesterSetup.Reader.PatternMaster

/-!
# Labels of a pattern master

Which label a look-up returns when the files that may hold it are those of a pattern master. A file
is found by its name, of which the label's name is a part; what the label in it is called is a
matter of its records. `PatternMaster.HoldsLabel` says both, and
`PatternMaster.labels_from_candidates` that look-ups, and the costs of bursts that are built on
them, go by it, whatever was looked up before.
-/

set_option autoImplicit false

namespace TesterSetup

/-- The vector files of a pattern master as a source of labels. -/
def PatternMaster.source (p : PatternMaster) (deviceDir : Option String)
    (files : String → Except ReadError VectorFile) : LabelSource Id where
  candidates name := p.lookup name deviceDir
  read := files

/-- A path is that of a listed file whose name contains that of a label. -/
def PatternMaster.Lists (p : PatternMaster) (deviceDir : Option String) (name path : String) :
    Prop :=
  ∃ dir files file, (dir, files) ∈ p.entries.entries ∧ file ∈ files ∧
    Text.contains file name = true ∧ path = Path.join (p.directory deviceDir dir) file

/-- A label is the one in the only file that may hold a label of the given name. The name is part
of the name of the file; the label is called what the records of the file say. -/
def PatternMaster.HoldsLabel (p : PatternMaster) (deviceDir : Option String)
    (files : String → Except ReadError VectorFile) (name : String) (label : Label) : Prop :=
  ∃ path file, p.lookup name deviceDir = [path] ∧ p.Lists deviceDir name path ∧
    files path = .ok file ∧ file.assemble = .ok label ∧
    file.labels ≠ [] ∧ ∀ r ∈ file.labels, r.name = label.name

/-- A port costs what the labels that it calls cost together, one term for each call. -/
def PortCost.IsSum (Called : String → MainLabel → Prop) (targets : List String)
    (cost : PortCost) : Prop :=
  ∃ called, List.Forall₂ Called targets called ∧
    cost = ⟨(called.map fun l ↦ l.program.vectors).sum, (called.map fun l ↦ l.program.cycles).sum,
      called.length⟩

section Candidates

variable {p : PatternMaster} {deviceDir : Option String}
  {files : String → Except ReadError VectorFile} {name path : String}

theorem PatternMaster.lists_of_mem_mentions {found : String × String}
    (h : found ∈ p.mentions name deviceDir) : p.Lists deviceDir name found.2 := by
  obtain ⟨⟨dir, files⟩, hentry, hfound⟩ := List.mem_flatMap.mp h
  obtain ⟨file, hfile, rfl⟩ := List.mem_map.mp hfound
  obtain ⟨hmem, hcontains⟩ := List.mem_filter.mp hfile
  exact ⟨dir, files, file, hentry, hmem, hcontains, rfl⟩

theorem PatternMaster.lists_of_mem_lookup (h : path ∈ p.lookup name deviceDir) :
    p.Lists deviceDir name path := by
  unfold lookup at h
  dsimp only at h
  split at h
  · rename_i found hfind
    rw [List.mem_singleton.mp h]
    exact lists_of_mem_mentions (List.mem_of_find?_eq_some hfind)
  · obtain ⟨found, hfound, rfl⟩ := List.mem_map.mp h
    exact lists_of_mem_mentions hfound

theorem LabelSource.fileOf_eq_ok_iff {source : LabelSource Id} :
    source.fileOf name = .ok path ↔ source.candidates name = [path] := by
  unfold fileOf
  constructor
  · intro h
    split at h
    · cases h
    · rename_i one hone
      rw [hone, Except.ok.inj h]
    · cases h
  · intro h
    rw [h]

/-- A source has a label for a name when one file may hold it, which is read and assembled. -/
theorem LabelSource.found_eq_pure_iff {source : LabelSource Id} {label : Label} :
    source.found name = pure label ↔ ∃ path file, source.candidates name = [path] ∧
      source.read path = .ok file ∧ file.assemble = .ok label := by
  have hrun : source.found name = pure label ↔
      (source.load name : Except LabelError Label) = .ok label := Iff.rfl
  rw [hrun]
  unfold load
  constructor
  · intro h
    cases hone : source.fileOf name with
    | error e =>
      rw [hone] at h
      cases h
    | ok path =>
      rw [hone] at h
      dsimp only at h
      cases hread : (source.read path : Except ReadError VectorFile) with
      | error cause =>
        rw [hread] at h
        cases h
      | ok file =>
        rw [hread] at h
        exact ⟨path, file, fileOf_eq_ok_iff.mp hone, hread, h⟩
  · rintro ⟨path, file, hone, hread, hassemble⟩
    rw [fileOf_eq_ok_iff.mpr hone]
    dsimp only
    rw [hread]
    exact hassemble

theorem PatternMaster.found_eq_pure_iff {label : Label} :
    (p.source deviceDir files).found name = pure label ↔
      p.HoldsLabel deviceDir files name label := by
  rw [LabelSource.found_eq_pure_iff]
  constructor
  · rintro ⟨path, file, hlookup, hfile, hassemble⟩
    have hmem : path ∈ p.lookup name deviceDir := by
      rw [show p.lookup name deviceDir = [path] from hlookup]
      exact List.mem_singleton_self path
    exact ⟨path, file, hlookup, lists_of_mem_lookup hmem, hfile, hassemble,
      VectorFile.names_of_assemble hassemble⟩
  · rintro ⟨path, file, hlookup, -, hfile, hassemble, -⟩
    exact ⟨path, file, hlookup, hfile, hassemble⟩

/-- The cost of a called label is that of the MAIN label which the source has for its name. -/
theorem LabelSource.foundCost_eq_pure {source : LabelSource Id} {c : Cost}
    (h : source.foundCost name = pure c) :
    ∃ l, source.found name = pure (.main l) ∧ c = l.program.cost := by
  unfold foundCost at h
  rw [exceptT_bind_eq_pure_iff] at h
  obtain ⟨label, hlabel, h⟩ := h
  cases label with
  | main l =>
    cases h
    exact ⟨l, hlabel, rfl⟩
  | burst b => cases h

/-- Costs of called labels are costs of MAIN labels. -/
theorem LabelSource.exists_called {source : LabelSource Id} {targets : List String}
    {costs : List Cost}
    (h : List.Forall₂ (fun target c ↦ source.foundCost target = pure c) targets costs) :
    ∃ called, List.Forall₂ (fun target l ↦ source.found target = pure (.main l)) targets called ∧
      costs = called.map fun l ↦ l.program.cost := by
  induction h with
  | nil => exact ⟨[], .nil, rfl⟩
  | cons hc _ ih =>
    obtain ⟨l, hl, rfl⟩ := foundCost_eq_pure hc
    obtain ⟨called, hcalled, rfl⟩ := ih
    exact ⟨l :: called, .cons hl hcalled, rfl⟩

theorem LabelSource.isSum_of_sumCalls {source : LabelSource Id} {burst : String}
    {targets : List String} {cost : PortCost}
    (h : sumCalls burst source.foundCost .zero targets = pure cost) :
    cost.IsSum (fun target l ↦ source.found target = pure (.main l)) targets := by
  obtain ⟨costs, hcosts, rfl⟩ := sumCalls_eq_pure h
  obtain ⟨called, hcalled, rfl⟩ := exists_called hcosts
  refine ⟨called, hcalled, ?_⟩
  simp only [PortCost.zero, Nat.zero_add, List.map_map, List.length_map]
  rfl

end Candidates

/-- Labels come from their candidates. After any requests, a look-up returns exactly the label in
the only file that may hold a label of the name asked for, so the label has that name exactly when
the records of the file say so. Each port of a burst costs what the MAIN labels cost that the files
for its calls hold. -/
theorem PatternMaster.labels_from_candidates (p : PatternMaster) (deviceDir : Option String)
    (files : String → Except ReadError VectorFile) (requests : List LabelRequest) :
    (∀ name label, (runWith ((p.source deviceDir files).label name)
        ((p.source deviceDir files).after requests)).1 = .ok label ↔
      p.HoldsLabel deviceDir files name label) ∧
    ∀ (b : BurstLabel) (costs : OrderedMap String PortCost),
      (runWith (b.portCosts (p.source deviceDir files).mainCost)
        ((p.source deviceDir files).after requests)).1 = .ok costs →
      List.Forall₂ (fun port entry ↦ entry.1 = port.name ∧
        entry.2.IsSum (fun target l ↦ p.HoldsLabel deviceDir files target (.main l))
          (callTargets port.program.commands.values)) b.ports.items costs.entries := by
  have hcache : ((p.source deviceDir files).after requests).Faithful (p.source deviceDir files) :=
    faithful_after requests
  constructor
  · intro name label
    rw [(answers_label name _ hcache).1]
    exact found_eq_pure_iff
  · intro b costs h
    rw [(answers_portCosts b _ hcache).1] at h
    have hports := BurstLabel.portCosts_eq_pure h
    refine hports.imp fun port entry ⟨hname, hsum⟩ ↦ ⟨hname, ?_⟩
    obtain ⟨called, hcalled, hcost⟩ := LabelSource.isSum_of_sumCalls hsum
    exact ⟨called, hcalled.imp fun _ _ ↦ found_eq_pure_iff.mp, hcost⟩

/-! ### A name inside another -/

/-- A file with one MAIN label that emits vectors. -/
def shelfFile (name vectors : String) : VectorFile where
  path := none
  memories := [⟨.sqpg, "SM", 2, "P1"⟩, ⟨.mtst, "SM", 1, "P1"⟩]
  labels := [⟨name, .main, 0, 1, "std", "P1"⟩]
  instructions := [⟨0, .genv, vectors, "", "SM", "P1"⟩, ⟨1, .stop, "", "", "SM", "P1"⟩]

/-- A pattern master of two files. -/
def shelf : PatternMaster :=
  ⟨none, .ofList [("vectors", ["scan_a_shift.binl", "capture.binl"])]⟩

/-- Each of the files has the label that it is named after. -/
def shelfFiles (path : String) : Except ReadError VectorFile :=
  if path = "vectors/capture.binl" then .ok (shelfFile "capture" "8")
  else .ok (shelfFile "scan_a_shift" "5")

/-- A burst that calls `capture`, then the other label by a part of its name. -/
def shelfBurst : BurstLabel where
  name := "all"
  path := none
  ports := ⟨[⟨"P1", "SM", 3, "", ⟨"all", "P1", .ofList [
    (0, ⟨0, .call, "", "capture", "SM", "P1"⟩), (1, ⟨1, .call, "", "shift", "SM", "P1"⟩),
    (2, ⟨2, .bend, "", "", "SM", "P1"⟩)], 0, 0⟩⟩], by decide⟩

theorem labels_from_candidates_shelf :
    (∃ label, (runWith ((shelf.source none shelfFiles).label "shift")
        ((shelf.source none shelfFiles).after [.label "capture"])).1 = .ok label ∧
      shelf.HoldsLabel none shelfFiles "shift" label) ∧
    ∃ costs, (runWith (shelfBurst.portCosts (shelf.source none shelfFiles).mainCost)
        ((shelf.source none shelfFiles).after [.label "capture"])).1 = .ok costs ∧
      costs.entries = [("P1", ⟨13, 13, 2⟩)] ∧
      PortCost.IsSum (fun target l ↦ shelf.HoldsLabel none shelfFiles target (.main l))
        ["capture", "shift"] ⟨13, 13, 2⟩ := by
  have hall := PatternMaster.labels_from_candidates shelf none shelfFiles [.label "capture"]
  constructor
  · obtain ⟨label, h⟩ := exists_eq_ok_of_isOk
      (x := (runWith ((shelf.source none shelfFiles).label "shift")
        ((shelf.source none shelfFiles).after [.label "capture"])).1) (by decide +kernel)
    exact ⟨label, h, (hall.1 "shift" label).mp h⟩
  · have hrun : (runWith (shelfBurst.portCosts (shelf.source none shelfFiles).mainCost)
        ((shelf.source none shelfFiles).after [.label "capture"])).1.map OrderedMap.entries =
        .ok [("P1", ⟨13, 13, 2⟩)] := by decide +kernel
    obtain ⟨costs, h, hentries⟩ := except_map_eq_ok_iff.mp hrun
    have hports := hall.2 shelfBurst costs h
    rw [hentries] at hports
    cases hports with
    | cons hport _ => exact ⟨costs, h, hentries, hport.2⟩

/-- A look-up may return a label of another name: the name asked for is part of a file's name. -/
theorem not_forall_label_name_eq :
    ¬∀ (p : PatternMaster) (deviceDir : Option String)
      (files : String → Except ReadError VectorFile) (requests : List LabelRequest)
      (name : String) (label : Label),
      (runWith ((p.source deviceDir files).label name)
        ((p.source deviceDir files).after requests)).1 = .ok label → label.name = name := by
  intro hall
  have hrun : (runWith ((shelf.source none shelfFiles).label "shift")
      ((shelf.source none shelfFiles).after [])).1.map Label.name = .ok "scan_a_shift" := by
    decide +kernel
  obtain ⟨label, h, hname⟩ := except_map_eq_ok_iff.mp hrun
  have hshift : label.name = "shift" := hall shelf none shelfFiles [] "shift" label h
  rw [hname] at hshift
  exact absurd hshift (by decide)

end TesterSetup
