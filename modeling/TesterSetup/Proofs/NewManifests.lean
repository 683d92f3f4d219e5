import TesterSetup.Command.Run
import TesterSetup.Proofs.KeptTexts
import TesterSetup.Proofs.Outcomes
import TesterSetup.Proofs.WrittenDocuments
import TesterSetup.Proofs.WrittenFiles

/-!
# New manifests

Which devices the program can make a manifest for. The name of the device is written into the text
of a new manifest as it stands, so it is read back only if each of its characters may stand in
double quotes for itself (`Manifest.Writable`). Such a manifest is made of well-formed lines
(`Manifest.toList_template`) and is read as what they say (`Manifest.parse_template`). For any other
name the text is not read at all, or it is read as the manifest of a device with another name: the
name in it is what is read from the quote in front (`Manifest.exists_quoted_of_parse_template`), and
that is the name that was written only if it is writable (`Manifest.parse_template_iff`).

A manifest that was written to a directory is the one that is in force there
(`FileTree.findManifest_of_readText`), so what a later request finds there follows from what the
text is read as (`FileTree.init_loads_iff`).
-/

set_option autoImplicit false

namespace TesterSetup

open Toml

namespace Manifest

variable {name : String}

/-! ### The text of a new manifest -/

/-- A name can be written into a manifest as it stands. -/
def Writable (name : String) : Prop :=
  ∀ c ∈ name.toList, IsItself c

instance (name : String) : Decidable (Writable name) :=
  List.decidableBAll IsItself name.toList

/-- The manifest of a new device: default places for its files, no pins and no ports. -/
def blank (name : String) : Manifest where
  name := name
  deviceDir := none
  levels := some "levels/levels.master"
  timing := some "timing/timing.master"
  patterns := some "vectors/all.pmf"
  topology := some ⟨[], [], []⟩
  format := some "human"

/-- The lines of a new manifest behind the name of the device. -/
def defaultLines : List DocumentLine :=
  [.blank, .header ["setup"], .text "levels" "levels/levels.master",
    .text "timing" "timing/timing.master", .text "patterns" "vectors/all.pmf", .blank,
    .header ["topology"], .noItems "pins", .noItems "supplies", .blank,
    .header ["topology", "ports"], .blank, .header ["output"], .text "format" "human"]

theorem toList_templateTail :
    templateTail.toList = ['"', '\n'] ++ defaultLines.flatMap DocumentLine.chars := by
  decide +kernel

theorem no_three_quotes :
    ¬['"', '"', '"'] <:+: '"' :: '\n' :: defaultLines.flatMap DocumentLine.chars := by
  decide +kernel

theorem toList_template (name : String) :
    (template name).toList =
      (DocumentLine.header ["device"] :: .text "name" name :: defaultLines).flatMap
        DocumentLine.chars := by
  rw [template, String.toList_append, String.toList_append, toList_templateTail]
  simp only [List.flatMap_cons, DocumentLine.chars, List.append_assoc, List.cons_append]
  rfl

theorem wellFormed_defaultLines : ∀ line ∈ defaultLines, line.WellFormed := by
  decide

/-- The manifest of a new device is read back when its name can be written. -/
theorem parse_template (h : Writable name) : parse (template name) = some (blank name) := by
  have hname : (DocumentLine.text "name" name).WellFormed := ⟨by decide, h⟩
  have hlines : ∀ line ∈ .header ["device"] :: .text "name" name :: defaultLines,
      line.WellFormed :=
    List.forall_mem_cons.mpr
      ⟨by decide, List.forall_mem_cons.mpr ⟨hname, wellFormed_defaultLines⟩⟩
  rw [parse, parse_lines hlines (toList_template name)]
  rfl

/-! ### Names that are read back -/

theorem exists_field?_of_textAt {t : Toml} {key text : String} {path : List String}
    (h : t.textAt (key :: path) = some text) :
    ∃ v, (∀ index, t.field? index key = some v) ∧ section? t = some t ∧
      v.textAt path = some text := by
  cases t with
  | table origin members =>
    obtain ⟨v, hv, htext⟩ := Option.bind_eq_some_iff.mp h
    exact ⟨v, fun _ ↦ hv, rfl, htext⟩
  | _ => cases h

/-- The name of a manifest is the text under its keys. -/
theorem name_of_ofToml? {document : Toml} {m : Manifest} {text : String}
    (h : ofToml? document = some m) (htext : document.textAt ["device", "name"] = some text) :
    m.name = text := by
  obtain ⟨device, hdevice, -, htext⟩ := exists_field?_of_textAt htext
  obtain ⟨v, hv, hsection, htext⟩ := exists_field?_of_textAt htext
  obtain rfl : v = .text text := by
    cases v <;> cases htext
    rfl
  rw [ofToml?] at h
  simp only [hdevice, hsection, hv, Option.bind_eq_bind, Option.bind_some, text?,
    Option.bind_eq_some_iff] at h
  obtain ⟨_, -, _, -, _, -, _, -, _, -, _, -, _, -, _, -, h⟩ := h
  cases h
  rfl

/-- The name in a new manifest is what is read from the quote in front of it. -/
theorem exists_quoted_of_parse_template {m : Manifest} (h : parse (template name) = some m) :
    ∃ content rest,
      quoted? ('"' :: (name.toList ++ templateTail.toList)) = some (content, rest) ∧
        m.name = String.ofList content := by
  obtain ⟨document, hdocument, hm⟩ := Option.bind_eq_some_iff.mp h
  have htext : (template name).toList = (DocumentLine.header ["device"]).chars ++
      ("name".toList ++ (" = ".toList ++ '"' :: (name.toList ++ templateTail.toList))) := by
    rw [template, String.toList_append, String.toList_append, List.append_assoc]
    rfl
  have hopened : (DocumentLine.header ["device"]).addTo ([], []) =
      some (["device"], [("device", .table .headed [])]) := rfl
  rw [parse_of_bracket htext] at hdocument
  obtain ⟨members, hmembers, rfl⟩ := Option.map_eq_some_iff.mp hdocument
  rw [htext, statements?_line (by decide) _ ([], []), if_neg nofun, hopened] at hmembers
  obtain ⟨content, rest, named, _, hquoted, hnamed, hmembers⟩ :=
    exists_quoted_of_statements? (by decide) hmembers
  cases hnamed
  refine ⟨content, rest, hquoted, name_of_ofToml? hm ?_⟩
  -- The text under the name stays what was read first, whatever the rest of the document says.
  exact keeps_of_statements? hmembers ["device", "name"] _ rfl

/-- A new manifest has the name it was made for exactly when that can be written. -/
theorem parse_template_iff :
    (∃ m, parse (template name) = some m ∧ m.name = name) ↔ Writable name := by
  constructor
  · rintro ⟨m, hm, hname⟩
    obtain ⟨content, rest, hquoted, hcontent⟩ := exists_quoted_of_parse_template hm
    have hread : content = name.toList := by
      rw [← hname, hcontent, String.toList_ofList]
    rw [hread, toList_templateTail] at hquoted
    exact isItself_of_quoted? no_three_quotes hquoted
  · exact fun h ↦ ⟨blank name, parse_template h, rfl⟩

end Manifest

/-! ### Directories with a new manifest -/

namespace FileTree

variable {t t' : FileTree} {w : Place} {cwd name message : String}

theorem run_writeText (t : FileTree) (path text : String) :
    Id.run (((disk w).writeText path text).run t) =
      match t.writeText w path text with
      | .ok t' => (.ok (), t')
      | .error e => (.error e, t) := by
  cases h : t.writeText w path text <;> simp [disk, h]

/-- A manifest is only written where the tree takes a file. -/
theorem writeText_of_init (h : outcome ((disk w).init cwd name) t = (.ok message, t')) :
    t.writeText w (Path.join cwd Manifest.fileName) (Manifest.template name) = .ok t' := by
  rw [Disk.init, outcome_lift_bind] at h
  split at h
  · cases h
  · have hsame : (Id.run (((disk w).isTaken (Path.join cwd Manifest.fileName)).run t)).2 = t := rfl
    rw [outcome_lift_bind, hsame, run_writeText] at h
    cases hwrite : t.writeText w (Path.join cwd Manifest.fileName) (Manifest.template name) with
    | error cause =>
      rw [hwrite] at h
      cases h
    | ok next =>
      rw [hwrite] at h
      cases h
      rfl

theorem ancestors_eq_cons (path : String) : ∃ above, Path.ancestors path = path :: above := by
  rw [Path.ancestors, List.range_succ_eq_map, List.filterMap_cons_some]
  · exact ⟨_, rfl⟩
  · rfl

/-- A manifest in a directory is in force there, if it can be read. -/
theorem findManifest_of_readText {text : String}
    (h : t.readText w (Path.join cwd Manifest.fileName) = .ok text) :
    outcome ((disk w).findManifest cwd) t =
      (match Manifest.parse text with
        | some manifest => .ok (some ⟨manifest, cwd⟩)
        | none => .error (.malformed (Path.join cwd Manifest.fileName)), t) := by
  obtain ⟨above, habove⟩ := ancestors_eq_cons cwd
  have hfile : Id.run (((disk w).isFile (Path.join cwd Manifest.fileName)).run t) = (true, t) :=
    congrArg (·, t) (isFile_of_readText h)
  have hread : Id.run (((disk w).readText (Path.join cwd Manifest.fileName)).run t) =
      (.ok text, t) :=
    congrArg (·, t) h
  rw [Disk.findManifest, habove, Disk.findManifestIn, outcome_mk_bind, hfile, if_pos rfl,
    outcome_mk_bind, hread]
  dsimp only
  cases Manifest.parse text <;> rfl

/-- A request goes on with the manifest that is found: it reads the file that it was given or that
the manifest names, and shows its result in the format that it was given or that the manifest
names. -/
theorem outcome_prepare {located : Option Located}
    (h : outcome ((disk w).findManifest cwd) t = (.ok located, t)) (file : SetupFile)
    (given format : Option String) :
    outcome ((disk w).prepare cwd file given format) t =
      ((do
        let path ← setupPath cwd file given located
        let format ← chooseFormat format located
        return (located, path, format)), t) := by
  have hfind : outcome (((disk w).findManifest cwd).adapt CommandError.manifest) t =
      (.ok located, t) := by
    rw [outcome_adapt, h]
    rfl
  rw [Disk.prepare, outcome_bind, hfind]
  dsimp only
  cases setupPath cwd file given located with
  | error e => rfl
  | ok path => cases chooseFormat format located <;> rfl

/-- A new manifest is found where it was written, if its device's name can be written; then every
request finds its file and its format there. It is not found, or has another name, for every other
name of a device. -/
theorem init_loads_iff (h : outcome ((disk w).init cwd name) t = (.ok message, t')) :
    (Manifest.Writable name →
      outcome ((disk w).findManifest cwd) t' = (.ok (some ⟨.blank name, cwd⟩), t') ∧
        ∀ file : SetupFile, ∃ path, file.entry? (.blank name) = some path ∧
          outcome ((disk w).prepare cwd file none none) t' =
            (.ok (some ⟨.blank name, cwd⟩, Path.join cwd path, .human), t')) ∧
      ((∃ l, outcome ((disk w).findManifest cwd) t' = (.ok (some l), t') ∧
          l.manifest.name = name) ↔ Manifest.Writable name) := by
  have hfind := findManifest_of_readText (readText_of_writeText (writeText_of_init h))
  have hblank : Manifest.Writable name →
      outcome ((disk w).findManifest cwd) t' = (.ok (some ⟨.blank name, cwd⟩), t') := by
    intro hname
    rw [hfind, Manifest.parse_template hname]
  refine ⟨fun hname ↦ ⟨hblank hname, fun file ↦ ?_⟩, fun ⟨l, hl, hlname⟩ ↦ ?_, fun hname ↦ ?_⟩
  · cases file <;> exact ⟨_, rfl, outcome_prepare (hblank hname) _ none none⟩
  · rw [← Manifest.parse_template_iff]
    rw [hfind] at hl
    cases hparse : Manifest.parse (Manifest.template name) with
    | none =>
      rw [hparse] at hl
      cases hl
    | some m =>
      rw [hparse] at hl
      cases hl
      exact ⟨m, rfl, hlname⟩
  · exact ⟨_, hblank hname, rfl⟩

/-- The tree of a directory with nothing but a new manifest. -/
def withManifest (name : String) : FileTree :=
  empty.put [Manifest.fileName.toList] (.file (Manifest.template name).toUTF8)

theorem init_empty (name : String) :
    ∃ message, outcome ((disk []).init "" name) empty = (.ok message, withManifest name) :=
  ⟨_, rfl⟩

/-- A plain name, and one with a quote in it. -/
theorem init_loads_iff_dut :
    (∃ message, outcome ((disk []).init "" "dut_1") empty = (.ok message, withManifest "dut_1")) ∧
      Manifest.Writable "dut_1" ∧
      outcome ((disk []).findManifest "") (withManifest "dut_1") =
        (.ok (some ⟨.blank "dut_1", ""⟩), withManifest "dut_1") ∧
      ¬∃ l, outcome ((disk []).findManifest "") (withManifest "a\"b") =
        (.ok (some l), withManifest "a\"b") ∧ l.manifest.name = "a\"b" := by
  obtain ⟨message, hinit⟩ := init_empty "dut_1"
  obtain ⟨message', hinit'⟩ := init_empty "a\"b"
  have hplain : Manifest.Writable "dut_1" := by decide
  have hquote : ¬Manifest.Writable "a\"b" := by decide
  exact ⟨⟨message, hinit⟩, hplain, ((init_loads_iff hinit).1 hplain).1,
    fun hload ↦ hquote ((init_loads_iff hinit').2.mp hload)⟩

/-- The manifest for a device with a quote in its name cannot be read. -/
theorem not_forall_init_loads :
    Manifest.parse (Manifest.template "a\"b") = none ∧
      ¬∀ (t t' : FileTree) (w : Place) (cwd name message : String),
        outcome ((disk w).init cwd name) t = (.ok message, t') →
          ∃ l, outcome ((disk w).findManifest cwd) t' = (.ok (some l), t') ∧
            l.manifest.name = name := by
  have hparse : Manifest.parse (Manifest.template "a\"b") = none := by decide +kernel
  refine ⟨hparse, fun hall ↦ ?_⟩
  obtain ⟨message, hinit⟩ := init_empty "a\"b"
  obtain ⟨l, hl, -⟩ := hall _ _ _ _ _ _ hinit
  rw [findManifest_of_readText (readText_of_writeText (writeText_of_init hinit)), hparse] at hl
  cases hl

end FileTree

end TesterSetup
