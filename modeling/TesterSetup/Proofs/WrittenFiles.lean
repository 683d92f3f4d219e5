import TesterSetup.Proofs.PathPlaces

/-!
# Written files

A text that is written to a file of a file tree is read back under the same path
(`FileTree.readText_of_writeText`). Writing puts a file where no directory stands, so the places on
the way to it stay directories, and whatever names led somewhere lead there still
(`FileTree.follow_put`).
-/

set_option autoImplicit false

namespace TesterSetup.FileTree

variable {t t' : FileTree} {cwd place target q r : Place} {name : List Char}
  {names more : List (List Char)} {path text : String} {e : Entry}

/-- A name leads from a directory to what stands there under it; nothing has to stand where a name
is passed over or leads back. -/
theorem follow_cons_iff :
    t.follow place (name :: names) = .ok q ↔
      t.entry? place = some .directory ∧
        (Path.isName name = true → name ≠ ['.', '.'] →
          (t.entry? (place ++ [name])).isSome = true) ∧
        t.follow (if Path.isName name then stepTo place name else place) names = .ok q := by
  rw [follow]
  cases hplace : t.entry? place with
  | none => simp
  | some e =>
    cases e with
    | file content => simp
    | directory =>
      dsimp only
      by_cases hidle : name = [] ∨ name = ['.']
      · have hname : Path.isName name = false := by rcases hidle with rfl | rfl <;> decide
        simp [hidle, hname]
      · have hname : Path.isName name = true := by simpa [Path.isName] using hidle
        rw [if_neg hidle, if_pos hname, stepTo]
        by_cases hdown : name = ['.', '.']
        · simp [hdown]
        · rw [if_neg hdown, if_neg hdown]
          cases hnext : t.entry? (place ++ [name]) with
          | none => simp [hname, hdown]
          | some next => simp

theorem follow_append (h : t.follow place names = .ok q) (h' : t.follow q more = .ok r) :
    t.follow place (names ++ more) = .ok r := by
  induction names generalizing place with
  | nil =>
    cases h
    exact h'
  | cons name names ih =>
    obtain ⟨hplace, hstands, hnext⟩ := follow_cons_iff.mp h
    exact follow_cons_iff.mpr ⟨hplace, hstands, ih hnext⟩

/-! ### Putting files -/

theorem entry?_put (hroot : target ≠ []) (place : Place) :
    entry? (t.put target e) place = if target = place then some e else t.entry? place := by
  unfold entry? put
  by_cases hplace : place = []
  · rw [if_pos hplace, if_pos hplace, if_neg (hplace ▸ hroot)]
  · rw [if_neg hplace, if_neg hplace, OrderedMap.get?_insert]

/-- Names that led somewhere lead there still after something is put where no directory stood. -/
theorem follow_put (htarget : t.entry? target ≠ some .directory)
    (h : t.follow place names = .ok q) : (t.put target e).follow place names = .ok q := by
  have hroot : target ≠ [] := by
    rintro rfl
    exact htarget rfl
  induction names generalizing place with
  | nil =>
    cases h
    rfl
  | cons name names ih =>
    obtain ⟨hplace, hstands, hnext⟩ := follow_cons_iff.mp h
    refine follow_cons_iff.mpr ⟨?_, fun hname hdown ↦ ?_, ih hnext⟩
    · rw [entry?_put hroot, if_neg, hplace]
      rintro rfl
      exact htarget hplace
    · rw [entry?_put hroot]
      by_cases hput : target = place ++ [name]
      · rw [if_pos hput]
        rfl
      · rw [if_neg hput]
        exact hstands hname hdown

/-! ### Writing -/

/-- A text is written to a file in a directory, where no directory stands. -/
theorem of_writeText (h : t.writeText cwd path text = .ok t') :
    ∃ dirs name dir, Path.pieces path.toList = dirs ++ [name] ∧ Path.isName name = true ∧
      name ≠ ['.', '.'] ∧ t.follow (start cwd path) dirs = .ok dir ∧
      t.entry? dir = some .directory ∧ t.entry? (dir ++ [name]) ≠ some .directory ∧
      t' = t.put (dir ++ [name]) (.file text.toUTF8) := by
  obtain ⟨dir, hdir, h⟩ := except_bind_eq_ok_iff.mp h
  dsimp only at h
  split at h
  · cases h
  · rename_i hreserved
    cases hlast : (Path.pieces path.toList).getLast? with
    | none => simp [hlast] at hreserved
    | some name =>
      obtain ⟨dirs, hpieces⟩ := List.getLast?_eq_some_iff.mp hlast
      rw [hpieces, List.dropLast_concat] at hdir
      simp only [hlast, Option.getD_some, List.mem_cons, List.not_mem_nil, or_false, not_or]
        at h hreserved
      obtain ⟨hempty, hdot, hdown⟩ := hreserved
      split at h
      · cases h
      · rename_i hdirectory hfree
        cases h
        exact ⟨dirs, name, dir, hpieces, by simp [Path.isName, hempty, hdot], hdown, hdir,
          hdirectory, hfree, rfl⟩
      · cases h

theorem fromUTF8?_toUTF8 (s : String) : String.fromUTF8? s.toUTF8 = some s := by
  unfold String.fromUTF8?
  rw [String.toUTF8_eq_toByteArray, dif_pos s.isValidUTF8]
  rfl

/-- A text that was written is read back. -/
theorem readText_of_writeText (h : t.writeText cwd path text = .ok t') :
    t'.readText cwd path = .ok text := by
  obtain ⟨dirs, name, dir, hpieces, hname, hdown, hdir, hdirectory, hfree, rfl⟩ := of_writeText h
  have hput : ∀ place, entry? (t.put (dir ++ [name]) (.file text.toUTF8)) place =
      if dir ++ [name] = place then some (.file text.toUTF8) else t.entry? place :=
    entry?_put (List.append_ne_nil_of_right_ne_nil dir nofun)
  have hfile := (hput (dir ++ [name])).trans (if_pos rfl)
  have hkept := follow_put (e := .file text.toUTF8) hfree hdir
  generalize t.put (dir ++ [name]) (.file text.toUTF8) = t' at *
  have hlast : t'.follow dir [name] = .ok (dir ++ [name]) := by
    refine follow_cons_iff.mpr ⟨?_, fun _ _ ↦ by rw [hfile]; rfl, ?_⟩
    · rw [hput, if_neg (by simp), hdirectory]
    · rw [if_pos hname, stepTo, if_neg hdown]
      rfl
  have hpath : path ≠ "" := by
    rintro rfl
    obtain ⟨-, rfl⟩ : dirs = [] ∧ name = [] := by
      simpa using List.append_eq_cons_iff.mp hpieces.symm
    cases hname
  have hplace : t'.placeOf cwd path = .ok (dir ++ [name]) := by
    rw [placeOf, if_neg hpath, hpieces]
    exact follow_append hkept hlast
  exact readText_eq_ok_iff.mpr
    ⟨text.toUTF8, find_eq_ok_iff.mpr ⟨_, hplace, hfile⟩, fromUTF8?_toUTF8 text⟩

end TesterSetup.FileTree
