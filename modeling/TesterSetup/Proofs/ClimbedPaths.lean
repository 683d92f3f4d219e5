import TesterSetup.Proofs.FollowedEntries
import TesterSetup.Proofs.PathNames

/-!
# Climbing from the directory of a master file

The path of a master file's entry starts with steps up, and each of them takes the last name of the
directory away. On the names of plain directories that is the way up. Where the last names of the
directory are steps up themselves, they are taken away and not undone, and the path leads
elsewhere: from `a/b/..` one step up leads to `a/b`. `ClimbsTo` is when the places agree, and
`place_of_resolveMasterPath` that the file of an entry is where its path leads from the directory
exactly then.

A path denotes the place that its names spell from the root (`Path.place`), which is where a file
tree finds it if it finds anything. Of the names after the steps up none is a step up: it would have
to be the last one, after which there is a directory and not a file.
-/

set_option autoImplicit false

namespace TesterSetup

/-! ### Places that names spell -/

/-- The name of a step up. -/
def Path.up : List Char := ['.', '.']

/-- The place that a path denotes. Each step up leads to the parent of what precedes it. -/
def Path.place (path : String) : Place :=
  (Path.names path).foldl FileTree.stepTo []

namespace FileTree

open TesterSetup.Path

variable {t : FileTree} {cwd place q base : Place} {names last : List (List Char)} {k : Nat}

theorem foldl_stepTo_of_notMem (h : up ∉ names) : names.foldl stepTo place = place ++ names := by
  induction names generalizing place with
  | nil => exact (List.append_nil place).symm
  | cons name rest ih =>
    rw [List.mem_cons, not_or] at h
    have hstep : stepTo place name = place ++ [name] := if_neg (Ne.symm h.1)
    rw [List.foldl_cons, hstep, ih h.2, List.append_assoc, List.singleton_append]

theorem foldl_stepTo_replicate (place : Place) (k : Nat) :
    (List.replicate k up).foldl stepTo place = place.take (place.length - k) := by
  induction k generalizing place with
  | zero => exact (List.take_length).symm
  | succ k ih =>
    have hstep : stepTo place up = place.dropLast := if_pos rfl
    rw [List.replicate_succ, List.foldl_cons, hstep, ih, List.length_dropLast,
      List.dropLast_eq_take, List.take_take]
    congr 1
    omega

theorem length_foldl_stepTo_le (names : List (List Char)) (place : Place) :
    (names.foldl stepTo place).length ≤ place.length + names.length := by
  induction names generalizing place with
  | nil => exact Nat.le_refl _
  | cons name rest ih =>
    have hstep : (stepTo place name).length ≤ place.length + 1 := by
      unfold stepTo
      split <;> simp
      omega
    have hrest := ih (stepTo place name)
    rw [List.foldl_cons, List.length_cons]
    omega

/-- A step up among names makes the place that they lead to less deep. -/
theorem length_foldl_stepTo_lt (h : up ∈ names) (place : Place) :
    (names.foldl stepTo place).length < place.length + names.length := by
  obtain ⟨before, after, rfl⟩ := List.append_of_mem h
  have hbefore := length_foldl_stepTo_le before place
  have hafter := length_foldl_stepTo_le after (before.foldl stepTo place).dropLast
  have hstep : stepTo (before.foldl stepTo place) up = (before.foldl stepTo place).dropLast :=
    if_pos rfl
  rw [List.foldl_append, List.foldl_cons, hstep, List.length_append, List.length_cons]
  rw [List.length_dropLast] at hafter
  omega

/-- As many steps up as there were names lead back, unless some of the names was a step up itself.
That makes no difference at the root, beyond which nothing leads. -/
theorem take_foldl_stepTo_eq_iff :
    (last.foldl stepTo base).take ((last.foldl stepTo base).length - last.length) = base ↔
      up ∉ last ∨ base = [] := by
  constructor
  · intro h
    by_cases hup : up ∈ last
    · have hlength := congrArg List.length h
      have hlt := length_foldl_stepTo_lt hup base
      rw [List.length_take] at hlength
      exact .inr (List.eq_nil_of_length_eq_zero (by omega))
    · exact .inl hup
  · rintro (hup | rfl)
    · rw [foldl_stepTo_of_notMem hup, List.length_append, Nat.add_sub_cancel, List.take_left]
    · have hle := length_foldl_stepTo_le last []
      rw [List.length_nil, Nat.zero_add] at hle
      rw [Nat.sub_eq_zero_of_le hle, List.take_zero]

/-! ### Directories on the way -/

/-- There is a directory at each place above this one. -/
def Reached (t : FileTree) (place : Place) : Prop :=
  ∀ above, above <+: place → above ≠ place → t.entry? above = some .directory

theorem reached_root : t.Reached [] :=
  fun _ habove hne ↦ absurd (List.prefix_nil.mp habove) hne

theorem Reached.stepTo (h : t.Reached place) (hplace : t.entry? place = some .directory)
    (name : List Char) : t.Reached (stepTo place name) := by
  intro above habove hne
  by_cases hup : name = up
  · have hstep : FileTree.stepTo place name = place.dropLast := if_pos hup
    rw [hstep] at habove hne
    have hshorter := List.dropLast_prefix place
    refine h above (habove.trans hshorter) fun heq ↦ ?_
    have hle := habove.length_le
    rw [heq, List.length_dropLast] at hle
    have hroot : place = [] := List.eq_nil_of_length_eq_zero (by omega)
    rw [heq, hroot] at hne
    exact hne rfl
  · have hstep : FileTree.stepTo place name = place ++ [name] := if_neg hup
    rw [hstep] at habove hne
    by_cases heq : above = place
    · rw [heq]
      exact hplace
    · exact h above ((List.prefix_concat_iff.mp habove).resolve_left hne) heq

/-- A step up leads to a directory. -/
theorem entry?_of_follow_up (hplace : t.Reached place)
    (h : t.follow place (names ++ [up]) = .ok q) : t.entry? q = some .directory := by
  induction names generalizing place with
  | nil =>
    obtain ⟨hentry, h⟩ := follow_cons h
    cases h
    change t.entry? place.dropLast = some .directory
    by_cases hroot : place = []
    · rw [hroot]
      rfl
    · have hshorter := List.dropLast_prefix place
      refine hplace _ hshorter fun heq ↦ ?_
      have hlength := congrArg List.length heq
      have hpos := List.length_pos_of_ne_nil hroot
      rw [List.length_dropLast] at hlength
      omega
  | cons name rest ih =>
    obtain ⟨hentry, h⟩ := follow_cons h
    refine ih ?_ h
    split
    · exact hplace.stepTo hentry name
    · exact hplace

end FileTree

/-! ### Steps up in front of a text -/

section Texts

open TesterSetup.Path

variable {s rest : List Char} {c : Char} {k : Nat} {dir path file : String}

/-- What follows some steps up, in names and in steps up that are still to come. -/
theorem names_of_afterClimbs (h : afterClimbs k s = some rest) :
    namesIn s = List.replicate k up ++ namesIn rest ∧ climbsIn s = climbsIn rest + k := by
  fun_induction afterClimbs k s with
  | case1 s =>
    cases h
    exact ⟨rfl, rfl⟩
  | case2 k s ih =>
    obtain ⟨hnames, hclimbs⟩ := ih h
    have hcut : namesIn ('.' :: '.' :: '/' :: s) = namesIn up ++ namesIn s :=
      namesIn_append_slash up s
    have hup : namesIn up = [up] := rfl
    exact ⟨by rw [hcut, hup, hnames]; rfl, by rw [climbsIn, hclimbs]; rfl⟩
  | case3 => cases h

theorem head?_of_afterClimbs (hk : k ≠ 0) (h : afterClimbs k s = some rest) :
    s.head? = some '.' := by
  unfold afterClimbs at h
  split at h
  · exact absurd rfl hk
  · rfl
  · cases h

theorem climbsIn_cons_eq_zero (h : climbsIn (c :: s) = 0) :
    climbsIn s = 0 ∧ ∀ rest, c :: s ≠ '.' :: '.' :: '/' :: rest := by
  rw [climbsIn.eq_def] at h
  split at h
  · cases h
  · rename_i hfront hsplit
    cases hsplit
    refine ⟨h, ?_⟩
    rintro rest ⟨⟩
    exact hfront rest rfl rfl
  · contradiction

/-- Without the text of a step up, only the last piece of a text can be two dots. -/
theorem up_notMem_dropLast_pieces (h : climbsIn s = 0) : up ∉ (pieces s).dropLast := by
  induction s with
  | nil => exact List.not_mem_nil
  | cons c s ih =>
    obtain ⟨hs, hfront⟩ := climbsIn_cons_eq_zero h
    by_cases hc : c = '/'
    · rw [hc, pieces_slash, List.dropLast_cons_of_ne_nil (pieces_ne_nil s), List.mem_cons, not_or]
      exact ⟨by decide, ih hs⟩
    · obtain ⟨piece, more, hpieces, hcons⟩ := exists_pieces_cons hc s
      have hmore : up ∉ (piece :: more).dropLast := hpieces ▸ ih hs
      rw [hcons]
      cases more with
      | nil => exact List.not_mem_nil
      | cons next more =>
        rw [List.dropLast_cons_of_ne_nil (List.cons_ne_nil _ _), List.mem_cons, not_or] at hmore ⊢
        refine ⟨fun hup ↦ ?_, hmore.2⟩
        obtain ⟨rest, hrest⟩ := exists_eq_of_pieces hcons (List.cons_ne_nil next more)
        exact hfront rest (by rw [hrest, ← hup]; rfl)

theorem masterPath_eq_ok (h : masterPath dir path = .ok file) :
    (climbsIn path.toList = 0 ∧ file = join dir path) ∨
      climbsIn path.toList ≠ 0 ∧ ∃ rest base,
        afterClimbs (climbsIn path.toList) path.toList = some rest ∧
          ancestor? dir (climbsIn path.toList) = some base ∧
          file = join base (String.ofList rest) := by
  unfold masterPath at h
  dsimp only at h
  split at h
  · rename_i hclimbs
    exact .inl ⟨hclimbs, (Except.ok.inj h).symm⟩
  · rename_i hclimbs
    split at h
    · cases h
    · rename_i rest hrest
      split at h
      · cases h
      · rename_i base hbase
        exact .inr ⟨hclimbs, rest, base, hrest, hbase, (Except.ok.inj h).symm⟩

end Texts

/-! ### Files of entries -/

section Files

open FileTree TesterSetup.Path

variable {t : FileTree} {cwd : Place} {dir path file base : String} {rest : List Char}
  {front : List (List Char)}

/-- The steps up in front of a path lead from a directory to where they say. Either there are none,
or the names of the directory that they take away are no steps up, or they end at the root. What is
absolute after them is at the root already. -/
def ClimbsTo (dir path : String) : Prop :=
  let climbs := climbsIn path.toList
  let kept := (names dir).length - climbs
  climbs = 0 ∨ ∃ rest, afterClimbs climbs path.toList = some rest ∧
    if isAbsolute (String.ofList rest) then (place dir).length ≤ climbs
    else up ∉ (names dir).drop kept ∨ ((names dir).take kept).foldl stepTo [] = []

theorem Path.place_join (hpath : isAbsolute path = false) :
    place (join dir path) = (names path).foldl stepTo (place dir) := by
  rw [place, names_join hpath, List.foldl_append]
  rfl

/-- Two dots at the end of a path lead to a directory. -/
theorem up_notMem_names_of_isFile (habsolute : isAbsolute file = true)
    (hpieces : pieces file.toList = front ++ pieces rest) (hclimbs : climbsIn rest = 0)
    (hfile : t.isFile cwd file = true) : up ∉ namesIn rest := by
  intro hup
  have hlast : pieces rest = (pieces rest).dropLast ++ [up] := by
    have hsplit := List.dropLast_concat_getLast (pieces_ne_nil rest)
    have hmem : up ∈ pieces rest := (List.mem_filter.mp hup).1
    rw [← hsplit, List.mem_append, List.mem_singleton] at hmem
    rw [hmem.resolve_left (up_notMem_dropLast_pieces hclimbs), hsplit]
  obtain ⟨content, hfind⟩ := isFile_iff.mp hfile
  obtain ⟨q, hq, hentry⟩ := find_eq_ok_iff.mp hfind
  have hfollow := follow_of_placeOf hq
  rw [hpieces, hlast, ← List.append_assoc, start, if_pos habsolute] at hfollow
  rw [entry?_of_follow_up reached_root hfollow] at hentry
  cases hentry

/-- `ClimbsTo` in terms of the names that the steps up take away. -/
theorem climbsTo_iff {last : List (List Char)} (hclimbs : climbsIn path.toList ≠ 0)
    (hrest : afterClimbs (climbsIn path.toList) path.toList = some rest)
    (hlast : last.length = climbsIn path.toList) (hnames : names dir = names base ++ last) :
    ClimbsTo dir path ↔
      if isAbsolute (String.ofList rest) then (place dir).length ≤ climbsIn path.toList
      else up ∉ last ∨ place base = [] := by
  have hkept : (names dir).length - climbsIn path.toList = (names base).length := by
    rw [hnames, List.length_append, hlast, Nat.add_sub_cancel]
  have hdrop : (names dir).drop (names base).length = last := by rw [hnames, List.drop_left]
  have htake : (names dir).take (names base).length = names base := by rw [hnames, List.take_left]
  unfold ClimbsTo
  dsimp only
  rw [hkept, hdrop, htake, or_iff_right hclimbs]
  constructor
  · rintro ⟨rest', hrest', h⟩
    rw [hrest] at hrest'
    cases hrest'
    exact h
  · exact fun h ↦ ⟨rest, hrest, h⟩

/-- Where the steps up lead from a directory, and the names after them from there. -/
theorem place_join_of_climbs (hclimbs : climbsIn path.toList ≠ 0)
    (hrest : afterClimbs (climbsIn path.toList) path.toList = some rest) (hup : up ∉ namesIn rest) :
    place (join dir path) =
      (place dir).take ((place dir).length - climbsIn path.toList) ++ namesIn rest := by
  have hpath : isAbsolute path = false := by
    rw [isAbsolute, head?_of_afterClimbs hclimbs hrest]
    rfl
  rw [place_join hpath, names, (names_of_afterClimbs hrest).1, List.foldl_append,
    foldl_stepTo_replicate, foldl_stepTo_of_notMem hup]

/-- What is reached by taking names away is where the steps up lead, just when they climb there. -/
theorem place_join_eq_iff (hdir : isAbsolute dir = true) (hclimbs : climbsIn path.toList ≠ 0)
    (hrest : afterClimbs (climbsIn path.toList) path.toList = some rest)
    (hbase : ancestor? dir (climbsIn path.toList) = some base) (hup : up ∉ namesIn rest) :
    place (join base (String.ofList rest)) = place (join dir path) ↔ ClimbsTo dir path := by
  obtain ⟨-, last, hlast, hnames⟩ := ancestor?_eq_some hdir hbase
  have hnamesRest : names (String.ofList rest) = namesIn rest := by
    rw [names, String.toList_ofList]
  rw [place_join_of_climbs hclimbs hrest hup, climbsTo_iff hclimbs hrest hlast hnames]
  split
  · rename_i habsolute
    have hplace : place (String.ofList rest) = [] ++ namesIn rest := by
      rw [place, hnamesRest, foldl_stepTo_of_notMem hup]
    rw [join_of_isAbsolute habsolute, hplace, List.append_left_inj, eq_comm, List.take_eq_nil_iff,
      Nat.sub_eq_zero_iff_le]
    refine or_iff_left_of_imp fun hroot ↦ ?_
    rw [hroot]
    exact Nat.zero_le _
  · rename_i hrelative
    have hplace : place (join base (String.ofList rest)) = place base ++ namesIn rest := by
      rw [place_join (by simpa using hrelative), hnamesRest, foldl_stepTo_of_notMem hup]
    have hplaceDir : place dir = last.foldl stepTo (place base) := by
      rw [place, hnames, List.foldl_append]
      rfl
    rw [hplace, List.append_left_inj, eq_comm, hplaceDir, ← hlast, take_foldl_stepTo_eq_iff]

/-- The file of an entry is where its path leads from the directory of the master file exactly when
the steps up climb there. Either way, it is a file at the place that its own path denotes. -/
theorem place_of_resolveMasterPath (hdir : isAbsolute dir = true)
    (h : t.Gives ((disk cwd).resolveMasterPath dir path) (.ok file)) :
    t.placeOf cwd file = .ok (place file) ∧
      (∃ content, t.entry? (place file) = some (.file content)) ∧
      (place file = place (join dir path) ↔ ClimbsTo dir path) := by
  have hfileOf : t.fileOf cwd dir path = .ok file :=
    FileTree.Gives.unique (gives_resolveMasterPath dir path) h
  obtain ⟨hmaster, hisFile⟩ := fileOf_eq_ok_iff.mp hfileOf
  have hboth : isAbsolute file = true ∧
      (place file = place (join dir path) ↔ ClimbsTo dir path) := by
    rcases masterPath_eq_ok hmaster with
      ⟨hclimbs, rfl⟩ | ⟨hclimbs, rest, base, hrest, hbase, rfl⟩
    · exact ⟨isAbsolute_join hdir, iff_of_true rfl (.inl hclimbs)⟩
    · have habsolute : isAbsolute (join base (String.ofList rest)) = true :=
        isAbsolute_join (ancestor?_eq_some hdir hbase).1
      have hleft : climbsIn rest = 0 := by
        have hcount := (names_of_afterClimbs hrest).2
        omega
      obtain ⟨front, hfront⟩ := pieces_join_suffix base (String.ofList rest)
      rw [String.toList_ofList] at hfront
      have hup : up ∉ namesIn rest :=
        up_notMem_names_of_isFile habsolute hfront.symm hleft hisFile
      exact ⟨habsolute, place_join_eq_iff hdir hclimbs hrest hbase hup⟩
  obtain ⟨content, hfind⟩ := isFile_iff.mp hisFile
  obtain ⟨q, hq, hentry⟩ := find_eq_ok_iff.mp hfind
  have hplace : q = place file := by
    have hq' := eq_of_follow (follow_of_placeOf hq)
    rwa [start, if_pos hboth.1] at hq'
  subst hplace
  exact ⟨hq, ⟨content, hentry⟩, hboth.2⟩

/-- A file tree with a file `x` under `w` and another one in a directory further down. -/
def twoFiles : FileTree :=
  (FileTree.empty.add "w/x" ByteArray.empty).add "w/a/p/x" ByteArray.empty

theorem gives_twoFiles {file : String} (h : twoFiles.fileOf [] dir path = .ok file) :
    twoFiles.Gives ((disk []).resolveMasterPath dir path) (.ok file) :=
  h ▸ gives_resolveMasterPath dir path

theorem place_of_resolveMasterPath_twoFiles :
    isAbsolute "/w/a" = true ∧
      twoFiles.Gives ((disk []).resolveMasterPath "/w/a" "../x") (.ok "/w/x") ∧
      place "/w/x" = place (join "/w/a" "../x") := by
  have hgives : twoFiles.Gives ((disk []).resolveMasterPath "/w/a" "../x") (.ok "/w/x") :=
    gives_twoFiles (by decide +kernel)
  have hclimbs : ClimbsTo "/w/a" "../x" := .inr ⟨['x'], rfl, by decide +kernel⟩
  refine ⟨by decide, hgives, ?_⟩
  exact (place_of_resolveMasterPath (by decide) hgives).2.2.mpr hclimbs

/-- A step up from a directory that is spelled with one itself may lead to a file in between. -/
theorem not_forall_place_eq_place_join :
    ¬∀ (t : FileTree) (cwd : Place) (dir path file : String), isAbsolute dir = true →
      t.Gives ((disk cwd).resolveMasterPath dir path) (.ok file) →
      place file = place (join dir path) := by
  intro hall
  have hplace : place "/w/a/p/x" = place (join "/w/a/p/.." "../x") :=
    hall twoFiles [] "/w/a/p/.." "../x" "/w/a/p/x" (by decide) (gives_twoFiles (by decide +kernel))
  exact absurd hplace (by decide +kernel)

end Files

end TesterSetup
