import TesterSetup.Files.Tree
import TesterSetup.Proofs.TracedComposition

/-!
# Places of paths

A file tree follows the spelling of a path, name by name, and asks of every place on the way that it
is a directory. So two spellings with the same components need not both lead somewhere, but when
they do, they lead to the same place (`FileTree.placeOf_eq_of_components`): the names that are
passed over leave the place as it is (`FileTree.eq_of_follow`). Hence a file that was read under one
spelling is the one that another spelling of its path leads to (`FileTree.readText_of_components`).
-/

set_option autoImplicit false

namespace TesterSetup

namespace Path

/-- Whether a piece of a path names something. -/
def isName (piece : List Char) : Bool :=
  piece ≠ [] && piece ≠ ['.']

theorem filter_pieces_splitStart (s : List Char) :
    (pieces (splitStart s).2).filter isName = (pieces s).filter isName := by
  unfold splitStart
  split <;> simp [pieces, isName]

theorem splitStart_fst_eq_slash_iff (s : List Char) :
    (splitStart s).1 = ['/'] ↔ s.head? = some '/' := by
  unfold splitStart
  split
  · simp
  · simp
  · simp
  · rename_i hslash _ _
    refine ⟨nofun, fun h ↦ ?_⟩
    obtain ⟨body, rfl⟩ := List.head?_eq_some_iff.mp h
    exact absurd rfl (hslash body)

/-- The names of a path are its pieces that name something. -/
theorem components_snd (path : String) :
    (components path).2 = (pieces path.toList).filter isName :=
  filter_pieces_splitStart path.toList

theorem isAbsolute_iff (path : String) :
    isAbsolute path = true ↔ (components path).1 = ['/'] := by
  rw [isAbsolute, beq_iff_eq]
  exact (splitStart_fst_eq_slash_iff path.toList).symm

end Path

namespace FileTree

variable {t : FileTree} {cwd place q q' : Place} {path path' text : String}

/-- Where a name leads from a place when nothing stands in the way. -/
def stepTo (place : Place) (name : List Char) : Place :=
  if name = ['.', '.'] then place.dropLast else place ++ [name]

/-- Following a name takes a step from a directory. -/
theorem follow_cons {name : List Char} {names : List (List Char)}
    (h : t.follow place (name :: names) = .ok q) :
    t.entry? place = some .directory ∧
      t.follow (if Path.isName name then stepTo place name else place) names = .ok q := by
  rw [follow] at h
  split at h
  · cases h
  · cases h
  · rename_i hplace
    refine ⟨hplace, ?_⟩
    unfold stepTo
    split at h
    · rename_i hidle
      have hname : ¬Path.isName name = true := by rcases hidle with rfl | rfl <;> decide
      rwa [if_neg hname]
    · rename_i hidle
      rw [not_or] at hidle
      have hname : Path.isName name = true := by simp [Path.isName, hidle]
      rw [if_pos hname]
      split at h
      · rename_i hup
        rwa [if_pos hup]
      · rename_i hdown
        rw [if_neg hdown]
        split at h
        · cases h
        · exact h

/-- A place that names lead to is the one that they spell. -/
theorem eq_of_follow {names : List (List Char)} (h : t.follow place names = .ok q) :
    q = (names.filter Path.isName).foldl stepTo place := by
  induction names generalizing place with
  | nil =>
    cases h
    rfl
  | cons name rest ih =>
    obtain ⟨-, h⟩ := follow_cons h
    split at h
    · rename_i hname
      rw [List.filter_cons_of_pos hname, List.foldl_cons]
      exact ih h
    · rename_i hname
      rw [List.filter_cons_of_neg hname]
      exact ih h

theorem follow_of_placeOf (h : t.placeOf cwd path = .ok q) :
    t.follow (start cwd path) (Path.pieces path.toList) = .ok q := by
  unfold placeOf at h
  split at h
  · cases h
  · exact h

/-- Two spellings of a path lead to one place, if they both lead somewhere. -/
theorem placeOf_eq_of_components (hsame : Path.components path = Path.components path')
    (h : t.placeOf cwd path = .ok q) (h' : t.placeOf cwd path' = .ok q') : q = q' := by
  have hstart : start cwd path = start cwd path' := by
    have habsolute : Path.isAbsolute path = Path.isAbsolute path' := by
      rw [Bool.eq_iff_iff, Path.isAbsolute_iff, Path.isAbsolute_iff, hsame]
    rw [start, start, habsolute]
  rw [eq_of_follow (follow_of_placeOf h), eq_of_follow (follow_of_placeOf h'),
    ← Path.components_snd, ← Path.components_snd, hsame, hstart]

/-! ### Reading files -/

theorem find_eq_ok_iff {e : Entry} :
    t.find cwd path = .ok e ↔ ∃ q, t.placeOf cwd path = .ok q ∧ t.entry? q = some e := by
  unfold find
  rw [except_bind_eq_ok_iff]
  refine exists_congr fun q ↦ and_congr_right' ?_
  cases t.entry? q <;> simp

/-- A text is read from what a path leads to, which has to be a file of this text. -/
theorem readText_eq_ok_iff :
    t.readText cwd path = .ok text ↔
      ∃ content, t.find cwd path = .ok (.file content) ∧ String.fromUTF8? content = some text := by
  unfold readText
  rw [except_bind_eq_ok_iff]
  constructor
  · rintro ⟨e, he, h⟩
    cases e with
    | directory => cases h
    | file content =>
      refine ⟨content, he, ?_⟩
      dsimp only at h
      split at h
      · rename_i found hfound
        cases h
        exact hfound
      · cases h
  · rintro ⟨content, hfind, htext⟩
    refine ⟨.file content, hfind, ?_⟩
    dsimp only
    rw [htext]

theorem isFile_iff :
    t.isFile cwd path = true ↔ ∃ content, t.find cwd path = .ok (.file content) := by
  unfold isFile
  split
  · rename_i content hfind
    exact ⟨fun _ ↦ ⟨content, hfind⟩, fun _ ↦ rfl⟩
  · rename_i hother
    exact ⟨nofun, fun ⟨content, hfind⟩ ↦ absurd hfind (hother content)⟩

theorem isFile_of_readText (h : t.readText cwd path = .ok text) : t.isFile cwd path = true := by
  obtain ⟨content, hfind, -⟩ := readText_eq_ok_iff.mp h
  exact isFile_iff.mpr ⟨content, hfind⟩

/-- A file that was read under one spelling of its path is read under another that leads to a
file. -/
theorem readText_of_components (hsame : Path.components path = Path.components path')
    (hfile : t.isFile cwd path = true) (h' : t.readText cwd path' = .ok text) :
    t.readText cwd path = .ok text := by
  obtain ⟨content, hfind⟩ := isFile_iff.mp hfile
  obtain ⟨content', hfind', htext⟩ := readText_eq_ok_iff.mp h'
  obtain ⟨q, hq, hentry⟩ := find_eq_ok_iff.mp hfind
  obtain ⟨q', hq', hentry'⟩ := find_eq_ok_iff.mp hfind'
  obtain rfl := placeOf_eq_of_components hsame hq hq'
  rw [hentry] at hentry'
  cases hentry'
  exact readText_eq_ok_iff.mpr ⟨content, hfind, htext⟩

end FileTree

end TesterSetup
