import TesterSetup.Proofs.PathPlaces

/-!
# Names of joined and shortened paths

The names of a path in terms of those of the paths it is made from. Joining appends the names of
the second path to those of the first (`names_join`), going to the parent takes the last name away
(`parent?_eq_some`), whatever slashes and single dots stand in between, since cutting a text at a
slash cuts its pieces there (`pieces_append_slash`) and idle pieces are no names. The file name of a
path that ends in a plain name is that name (`fileName?_join`).
-/

set_option autoImplicit false

namespace TesterSetup.Path

/-- The names of a text. -/
def namesIn (s : List Char) : List (List Char) :=
  (pieces s).filter isName

/-- The names of a path. -/
def names (path : String) : List (List Char) :=
  namesIn path.toList

section Pieces

variable {c : Char} {s t piece : List Char} {more : List (List Char)}

theorem pieces_slash (s : List Char) : pieces ('/' :: s) = [] :: pieces s := by
  rw [pieces]

theorem pieces_ne_nil (s : List Char) : pieces s ≠ [] := by
  fun_cases pieces s <;> exact List.cons_ne_nil _ _

/-- A character of a name goes in front of the first piece. -/
theorem exists_pieces_cons (hc : c ≠ '/') (s : List Char) :
    ∃ piece more, pieces s = piece :: more ∧ pieces (c :: s) = (c :: piece) :: more := by
  obtain ⟨piece, more, h⟩ := List.exists_cons_of_ne_nil (pieces_ne_nil s)
  refine ⟨piece, more, h, ?_⟩
  rw [pieces.eq_3 _ _ (by simpa using hc), h]

/-- A piece that is not the last one ends at a slash. -/
theorem exists_eq_of_pieces (h : pieces s = piece :: more) (hmore : more ≠ []) :
    ∃ rest, s = piece ++ '/' :: rest := by
  induction s generalizing piece with
  | nil =>
    cases h
    exact absurd rfl hmore
  | cons c s ih =>
    by_cases hc : c = '/'
    · rw [hc, pieces_slash] at h
      cases h
      exact ⟨s, by rw [hc, List.nil_append]⟩
    · obtain ⟨first, others, hs, hcs⟩ := exists_pieces_cons hc s
      rw [hcs] at h
      cases h
      obtain ⟨rest, rfl⟩ := ih hs
      exact ⟨rest, rfl⟩

/-- A text is cut at each of its slashes. -/
theorem pieces_append_slash (s t : List Char) : pieces (s ++ '/' :: t) = pieces s ++ pieces t := by
  induction s with
  | nil => rw [List.nil_append, pieces_slash]; rfl
  | cons c s ih =>
    by_cases hc : c = '/'
    · rw [hc, List.cons_append, pieces_slash, pieces_slash, ih, List.cons_append]
    · obtain ⟨piece, more, hs, hcs⟩ := exists_pieces_cons hc s
      obtain ⟨piece', more', hst, hcst⟩ := exists_pieces_cons hc (s ++ '/' :: t)
      rw [ih, hs, List.cons_append, List.cons.injEq] at hst
      rw [List.cons_append, hcst, hcs, ← hst.1, ← hst.2, List.cons_append]

theorem pieces_of_notMem (h : '/' ∉ s) : pieces s = [s] := by
  induction s with
  | nil => rfl
  | cons c s ih =>
    rw [List.mem_cons, not_or] at h
    obtain ⟨piece, more, hs, hcs⟩ := exists_pieces_cons (Ne.symm h.1) s
    rw [ih h.2] at hs
    cases hs
    exact hcs

theorem namesIn_append_slash (s t : List Char) :
    namesIn (s ++ '/' :: t) = namesIn s ++ namesIn t := by
  rw [namesIn, pieces_append_slash, List.filter_append]
  rfl

theorem namesIn_slash (s : List Char) : namesIn ('/' :: s) = namesIn s :=
  namesIn_append_slash [] s

theorem namesIn_of_notMem (h : '/' ∉ s) (hname : isName s = true) : namesIn s = [s] := by
  rw [namesIn, pieces_of_notMem h, List.filter_cons_of_pos hname, List.filter_nil]

end Pieces

/-! ### Joined paths -/

section Joined

variable {dir path file : String}

/-- The pieces of a joined path are those of its parts. Only idle ones may stand between them. -/
theorem exists_pieces_join (dir : String) (hpath : isAbsolute path = false) :
    ∃ front, pieces (join dir path).toList = front ++ pieces path.toList ∧
      front.filter isName = names dir := by
  unfold join
  rw [hpath, if_neg Bool.false_ne_true]
  split
  · rename_i hdir
    rcases hdir with rfl | hslash
    · exact ⟨[], by rw [String.empty_append, List.nil_append], rfl⟩
    · obtain ⟨d, hd⟩ := List.getLast?_eq_some_iff.mp hslash
      refine ⟨pieces d, ?_, ?_⟩
      · rw [String.toList_append, hd, List.append_assoc, List.singleton_append,
          pieces_append_slash]
      · rw [names, hd, namesIn_append_slash]
        exact (List.append_nil _).symm
  · refine ⟨pieces dir.toList, ?_, rfl⟩
    have hslash : "/".toList = ['/'] := rfl
    rw [String.toList_append, String.toList_append, hslash, List.append_assoc,
      List.singleton_append, pieces_append_slash]

theorem names_join (hpath : isAbsolute path = false) :
    names (join dir path) = names dir ++ names path := by
  obtain ⟨front, hfront, hnames⟩ := exists_pieces_join dir hpath
  rw [names, namesIn, hfront, List.filter_append, hnames]
  rfl

theorem join_of_isAbsolute (hpath : isAbsolute path = true) : join dir path = path := by
  rw [join, if_pos hpath]

theorem pieces_join_suffix (dir path : String) :
    pieces path.toList <:+ pieces (join dir path).toList := by
  cases hpath : isAbsolute path with
  | true => exact ⟨[], by rw [List.nil_append, join_of_isAbsolute hpath]⟩
  | false =>
    obtain ⟨front, hfront, -⟩ := exists_pieces_join dir hpath
    exact ⟨front, hfront.symm⟩

theorem isAbsolute_join (hdir : isAbsolute dir = true) : isAbsolute (join dir path) = true := by
  unfold join
  split
  · assumption
  · rw [isAbsolute, beq_iff_eq] at hdir ⊢
    obtain ⟨d, hd⟩ := List.head?_eq_some_iff.mp hdir
    split <;> simp [hd]

/-- A plain name at the end of a path is its file name. -/
theorem fileName?_join (hslash : '/' ∉ file.toList) (hname : isName file.toList = true)
    (hup : file.toList ≠ ['.', '.']) : fileName? (join dir file) = some file := by
  have hfile : isAbsolute file = false := by
    rw [isAbsolute, beq_eq_false_iff_ne]
    exact fun hhead ↦ hslash (List.mem_of_mem_head? hhead)
  have hlast : (components (join dir file)).2.getLast? = some file.toList := by
    have hnames : names file = [file.toList] := namesIn_of_notMem hslash hname
    rw [components_snd, ← namesIn, ← names, names_join hfile, hnames, List.getLast?_concat]
  rw [fileName?, hlast]
  dsimp only
  rw [if_neg hup, String.ofList_toList]

end Joined

/-! ### Parents -/

section Parents

variable {path p : String} {k : Nat}

theorem isName_reverse (piece : List Char) : isName piece.reverse = isName piece := by
  have hdot : piece.reverse = ['.'] ↔ piece = ['.'] := List.reverse_eq_iff
  simp only [isName, ne_eq, List.reverse_eq_nil_iff, hdot]

/-- A text from right to left, cut at its last slash. -/
theorem namesIn_reverse (r : List Char) :
    namesIn r.reverse = namesIn ((r.dropWhile isNamePart).drop 1).reverse ++
      namesIn (r.takeWhile isNamePart).reverse := by
  have hcut := List.takeWhile_append_dropWhile (p := isNamePart) (l := r)
  cases hafter : r.dropWhile isNamePart with
  | nil =>
    rw [hafter, List.append_nil] at hcut
    rw [hcut]
    rfl
  | cons c before =>
    have hc : c = '/' := by
      have hfirst := List.head?_dropWhile_not isNamePart r
      rw [hafter] at hfirst
      simpa [isNamePart] using hfirst
    rw [hafter, hc] at hcut
    have hreverse : r.reverse = before.reverse ++ '/' :: (r.takeWhile isNamePart).reverse := by
      simpa using (congrArg List.reverse hcut).symm
    rw [hreverse, namesIn_append_slash, List.drop_one, List.tail_cons]

theorem namesIn_reverse_takeWhile (r : List Char) :
    namesIn (r.takeWhile isNamePart).reverse =
      [(r.takeWhile isNamePart).reverse].filter isName := by
  have hslash : '/' ∉ (r.takeWhile isNamePart).reverse := by
    rw [List.mem_reverse]
    intro hmem
    exact absurd (List.all_eq_true.mp List.all_takeWhile _ hmem) (by decide)
  rw [namesIn, pieces_of_notMem hslash]

/-- Slashes and single dots at the end of a text are no names. -/
theorem namesIn_dropIdle (r : List Char) : namesIn (dropIdle r).reverse = namesIn r.reverse := by
  have hidle : ∀ name : List Char,
      name = [] ∨ name = ['.'] → [name.reverse].filter isName = [] := by
    rintro name (rfl | rfl) <;> rfl
  fun_induction dropIdle r with
  | case1 r name hname hafter =>
    rw [namesIn_reverse r, namesIn_reverse_takeWhile, hidle _ hname, hafter]
    rfl
  | case2 r name hname c before hafter ih =>
    rw [namesIn_reverse r, namesIn_reverse_takeWhile, hidle _ hname, hafter, List.append_nil, ih]
    rfl
  | case3 r name hname => rfl

/-- What is left of a text without the slashes and single dots at its end is nothing or ends in a
name. -/
theorem isName_dropIdle (r : List Char) :
    dropIdle r = [] ∨ isName ((dropIdle r).takeWhile isNamePart) = true := by
  fun_induction dropIdle r with
  | case1 r name hname hafter => exact .inl rfl
  | case2 r name hname c before hafter ih => exact ih
  | case3 r name hname =>
    rw [not_or] at hname
    refine .inr ?_
    rw [isName, Bool.and_eq_true, decide_eq_true_iff, decide_eq_true_iff]
    exact hname

/-- The parent of an absolute path has all its names but the last. -/
theorem parent?_eq_some (habsolute : isAbsolute path = true) (h : parent? path = some p) :
    isAbsolute p = true ∧ ∃ name, names path = names p ++ [name] := by
  rw [isAbsolute, beq_iff_eq] at habsolute
  obtain ⟨body, hbody⟩ := List.head?_eq_some_iff.mp habsolute
  rw [parent?, hbody, splitStart] at h
  dsimp only at h
  split at h
  · cases h
  · rename_i hsome
    cases h
    refine ⟨by simp [isAbsolute], (dropIdle body.reverse).takeWhile isNamePart |>.reverse, ?_⟩
    have hname := (isName_dropIdle body.reverse).resolve_left hsome
    rw [← isName_reverse] at hname
    have hnames := namesIn_dropIdle body.reverse
    rw [List.reverse_reverse, namesIn_reverse (dropIdle _), namesIn_reverse_takeWhile,
      List.filter_cons_of_pos hname, List.filter_nil] at hnames
    rw [names, names, hbody, namesIn_slash, ← hnames, String.toList_ofList, List.singleton_append,
      namesIn_slash, namesIn_dropIdle]

/-- Each step to a parent takes a name away. -/
theorem ancestor?_eq_some (habsolute : isAbsolute path = true) (h : ancestor? path k = some p) :
    isAbsolute p = true ∧ ∃ last, last.length = k ∧ names path = names p ++ last := by
  induction k generalizing path with
  | zero =>
    cases h
    exact ⟨habsolute, [], rfl, (List.append_nil _).symm⟩
  | succ k ih =>
    rw [ancestor?, Option.bind_eq_some_iff] at h
    obtain ⟨before, hbefore, h⟩ := h
    obtain ⟨hparent, name, hname⟩ := parent?_eq_some habsolute hbefore
    obtain ⟨hp, last, hlast, hnames⟩ := ih hparent h
    exact ⟨hp, last ++ [name], by rw [List.length_append, hlast]; rfl,
      by rw [hname, hnames, List.append_assoc]⟩

end Parents

end TesterSetup.Path
