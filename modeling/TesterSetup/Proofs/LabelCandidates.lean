import TesterSetup.Proofs.PathNames
import TesterSetup.Reader.PatternMaster

/-!
# Candidates for a label

Which of the listed files of a pattern master may hold a label. Without the directories that they
are grouped in, the candidates are the listed files whose names contain that of the label
(`PatternMaster.lookup_of_no_pattern`), unless one of them contains it with the ending of a pattern
file: then the first such file is the only candidate (`PatternMaster.lookup_of_pattern`).

A file that is named after the label contains its name in this way, but so does one whose name
merely ends in it. `PatternMaster.lookup_of_isNamedFor` says that the file named after the label is
the candidate, unless a file of the other kind is listed before it.
-/

set_option autoImplicit false

namespace TesterSetup

open Text

/-- A file has the name of a label with an ending of pattern files. -/
def IsNamedFor (name file : String) : Prop :=
  file = name ++ ".binl" ∨ file = name ++ ".burst"

instance (name file : String) : Decidable (IsNamedFor name file) :=
  inferInstanceAs (Decidable (_ ∨ _))

namespace PatternMaster

/-- The listed files with their directories, in order. -/
def listed (p : PatternMaster) : List (String × String) :=
  p.entries.entries.flatMap fun (dir, files) ↦ files.map (dir, ·)

/-- The path of a listed file. -/
def pathOf (p : PatternMaster) (deviceDir : Option String) (f : String × String) : String :=
  Path.join (p.directory deviceDir f.1) f.2

variable {p : PatternMaster} {deviceDir : Option String} {name file : String}
  {f : String × String}

theorem mentions_eq_map (p : PatternMaster) (name : String) (deviceDir : Option String) :
    p.mentions name deviceDir =
      (p.listed.filter fun f ↦ contains f.2 name).map fun f ↦ (f.2, p.pathOf deviceDir f) := by
  simp only [mentions, listed, List.filter_flatMap, List.map_flatMap, List.filter_map,
    List.map_map]
  rfl

theorem exists_ending_of_isPatternOf (h : isPatternOf name file = true) :
    ∃ ending : String, 5 ≤ ending.toList.length ∧
      name.toList ++ ending.toList <:+: file.toList := by
  rw [isPatternOf, Bool.or_eq_true, contains, contains, occursIn_iff, occursIn_iff,
    String.toList_append, String.toList_append] at h
  rcases h with h | h
  · exact ⟨".burst", by decide, h⟩
  · exact ⟨".binl", by decide, h⟩

theorem contains_of_isPatternOf (h : isPatternOf name file = true) : contains file name = true := by
  obtain ⟨ending, -, hinfix⟩ := exists_ending_of_isPatternOf h
  rw [contains, occursIn_iff]
  exact (List.prefix_append _ _).isInfix.trans hinfix

theorem isPatternOf_of_isNamedFor (h : IsNamedFor name file) : isPatternOf name file = true := by
  rw [isPatternOf, Bool.or_eq_true]
  rcases h with rfl | rfl
  · exact .inr (occursIn_iff.mpr List.infix_rfl)
  · exact .inl (occursIn_iff.mpr List.infix_rfl)

theorem find?_mentions (p : PatternMaster) (name : String) (deviceDir : Option String) :
    (p.mentions name deviceDir).find? (fun f ↦ isPatternOf name f.1) =
      (p.listed.find? fun f ↦ isPatternOf name f.2).map fun f ↦ (f.2, p.pathOf deviceDir f) := by
  rw [mentions_eq_map, List.find?_map, List.find?_filter]
  refine congrArg _ (congrArg (List.find? · p.listed) (funext fun f ↦ ?_))
  rw [Bool.eq_iff_iff, Function.comp_apply, decide_eq_true_iff]
  exact and_iff_right_of_imp contains_of_isPatternOf

/-- The first listed file whose name contains that of a label with an ending of pattern files is the
only candidate. -/
theorem lookup_of_pattern (hfind : p.listed.find? (fun f ↦ isPatternOf name f.2) = some f) :
    p.lookup name deviceDir = [p.pathOf deviceDir f] := by
  rw [lookup, find?_mentions, hfind]
  rfl

/-- Without such a file, the candidates are the listed files whose names contain that of the
label. -/
theorem lookup_of_no_pattern (hfind : p.listed.find? (fun f ↦ isPatternOf name f.2) = none) :
    p.lookup name deviceDir =
      (p.listed.filter fun f ↦ contains f.2 name).map (p.pathOf deviceDir) := by
  rw [lookup, find?_mentions, hfind]
  dsimp only [Option.map_none]
  rw [mentions_eq_map, List.map_map]
  rfl

/-- The path of a listed file without slashes in its name ends in this name. -/
theorem fileName?_pathOf (hpattern : isPatternOf name f.2 = true) (hslash : '/' ∉ f.2.toList) :
    Path.fileName? (p.pathOf deviceDir f) = some f.2 := by
  obtain ⟨ending, hending, hinfix⟩ := exists_ending_of_isPatternOf hpattern
  have hlength : 5 ≤ f.2.toList.length := by
    have hle := hinfix.length_le
    rw [List.length_append] at hle
    omega
  have hname : Path.isName f.2.toList = true := by
    rw [Path.isName, Bool.and_eq_true, decide_eq_true_iff, decide_eq_true_iff]
    constructor <;> intro h <;> simp [h] at hlength
  refine Path.fileName?_join hslash hname fun h ↦ ?_
  simp [h] at hlength

/-- The file that is named after a label is the only candidate for it, unless a file is listed
before it whose name contains its name without being it; then the first one of these is. -/
theorem lookup_of_isNamedFor (deviceDir : Option String)
    (h : ∃ f ∈ p.listed, IsNamedFor name f.2) :
    ∃ before f after, p.listed = before ++ f :: after ∧ IsNamedFor name f.2 ∧
      (∀ g ∈ before, ¬IsNamedFor name g.2) ∧
      (((∀ g ∈ before, isPatternOf name g.2 = false) ∧
          p.lookup name deviceDir = [p.pathOf deviceDir f] ∧
          ('/' ∉ f.2.toList → Path.fileName? (p.pathOf deviceDir f) = some f.2)) ∨
        ∃ g, before.find? (fun g ↦ isPatternOf name g.2) = some g ∧
          p.lookup name deviceDir = [p.pathOf deviceDir g] ∧
          ('/' ∉ g.2.toList → Path.fileName? (p.pathOf deviceDir g) = some g.2)) := by
  obtain ⟨named, hmem, hnamed⟩ := h
  have hsome : (p.listed.find? fun f ↦ IsNamedFor name f.2).isSome = true :=
    List.find?_isSome.mpr ⟨named, hmem, decide_eq_true hnamed⟩
  obtain ⟨f, hfirst⟩ := Option.isSome_iff_exists.mp hsome
  obtain ⟨hf, before, after, hlisted, hbefore⟩ := List.find?_eq_some_iff_append.mp hfirst
  have hpattern : isPatternOf name f.2 = true := isPatternOf_of_isNamedFor (of_decide_eq_true hf)
  have hfind : p.listed.find? (fun g ↦ isPatternOf name g.2) =
      (before.find? fun g ↦ isPatternOf name g.2).or (some f) := by
    rw [hlisted, List.find?_append]
    exact congrArg _ (List.find?_cons_of_pos hpattern)
  refine ⟨before, f, after, hlisted, of_decide_eq_true hf, fun g hg ↦ ?_, ?_⟩
  · simpa using hbefore g hg
  · cases hmerely : before.find? fun g ↦ isPatternOf name g.2 with
    | none =>
      rw [hmerely, Option.none_or] at hfind
      refine .inl ⟨fun g hg ↦ ?_, lookup_of_pattern hfind, fileName?_pathOf hpattern⟩
      simpa using List.find?_eq_none.mp hmerely g hg
    | some g =>
      rw [hmerely, Option.some_or] at hfind
      have hg := List.find?_some hmerely
      exact .inr ⟨g, rfl, lookup_of_pattern hfind, fileName?_pathOf hg⟩

/-- Two files in one directory, the first of them named after another label. -/
def twoScans : PatternMaster :=
  ⟨none, .ofList [("vectors", ["pre_scan_a.binl", "scan_a.binl"])]⟩

theorem lookup_of_isNamedFor_twoScans :
    (∃ f ∈ twoScans.listed, IsNamedFor "scan_a" f.2) ∧
      ∃ g ∈ twoScans.listed, twoScans.lookup "scan_a" none = [twoScans.pathOf none g] ∧
        Path.fileName? (twoScans.pathOf none g) = some g.2 := by
  have hnamed : ∃ f ∈ twoScans.listed, IsNamedFor "scan_a" f.2 :=
    ⟨("vectors", "scan_a.binl"), by decide, by decide⟩
  have hslash : ∀ g ∈ twoScans.listed, '/' ∉ g.2.toList := by decide
  refine ⟨hnamed, ?_⟩
  obtain ⟨before, f, after, hlisted, -, -, ⟨-, hlookup, hfile⟩ | ⟨g, hg, hlookup, hfile⟩⟩ :=
    lookup_of_isNamedFor none hnamed
  · have hmem : f ∈ twoScans.listed := hlisted ▸ List.mem_append_right _ List.mem_cons_self
    exact ⟨f, hmem, hlookup, hfile (hslash f hmem)⟩
  · have hmem : g ∈ twoScans.listed :=
      hlisted ▸ List.mem_append_left _ (List.mem_of_find?_eq_some hg)
    exact ⟨g, hmem, hlookup, hfile (hslash g hmem)⟩

/-- The only candidate for a label may be the file of another one. -/
theorem not_forall_lookup_isNamedFor :
    ¬∀ (p : PatternMaster) (deviceDir : Option String) (name : String),
      (∃ f ∈ p.listed, IsNamedFor name f.2) →
      ∃ path ∈ p.lookup name deviceDir, ∃ file,
        Path.fileName? path = some file ∧ IsNamedFor name file := by
  intro hall
  obtain ⟨path, hpath, file, hfile, hnamed⟩ := hall twoScans none "scan_a"
    ⟨("vectors", "scan_a.binl"), by decide, by decide⟩
  have hlookup : twoScans.lookup "scan_a" none = ["vectors/pre_scan_a.binl"] := by decide +kernel
  rw [hlookup, List.mem_singleton] at hpath
  have hother : Path.fileName? "vectors/pre_scan_a.binl" = some "pre_scan_a.binl" := by
    decide +kernel
  rw [hpath, hother] at hfile
  cases hfile
  exact absurd hnamed (by decide)

end PatternMaster

end TesterSetup
