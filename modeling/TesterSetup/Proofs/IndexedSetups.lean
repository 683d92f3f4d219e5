import TesterSetup.Proofs.MasterIndex
import TesterSetup.Proofs.TakenParts
import TesterSetup.Proofs.TimingSections

/-!
# Setups that master files index

A plain file is loaded alone, or through a master file that lists some of its parts. On a file tree
both give the same parts: what a master file lists of one file is loaded as it is there, with the
spec sets of the equation sets that are listed and no others (`Levels.SelectedFrom`,
`Timing.SelectedFrom`).

Whatever files a master file lists, an equation set has the spec sets that its own file gives it
(`Indexed.GivesSpecSets`), and loading ends with an error only at an entry whose file cannot be had
or lacks what is listed (`Levels.LoadStops`, `Timing.LoadStops`).
-/

set_option autoImplicit false

namespace TesterSetup

open TesterSetup.Text

/-! ### Other spellings of a path -/

theorem Levels.parse_of_origin {text origin : String} {l : Levels} (h : parse text origin = .ok l)
    (origin' : String) : parse text origin' = .ok l := by
  obtain ⟨lines, hheader, h⟩ := except_bind_eq_ok_iff.mp h
  obtain ⟨r, hread, h⟩ := except_bind_eq_ok_iff.mp h
  have hheader' : afterHeader origin' header (isHeader · language) (significantLines text) =
      .ok lines := afterHeader_eq_ok_iff.mpr (afterHeader_eq_ok_iff.mp hheader)
  unfold parse
  rw [hheader']
  change (readLines origin' _ _ lines >>= _) = _
  rw [readLines_of_origin origin' hread]
  exact h

theorem Timing.parse_of_origin {text origin : String} {timing : Timing}
    (h : parse text origin = .ok timing) (origin' : String) : parse text origin' = .ok timing := by
  obtain ⟨lines, hheader, h⟩ := except_bind_eq_ok_iff.mp h
  obtain ⟨r, hread, hfinish⟩ := except_bind_eq_ok_iff.mp h
  have hheader' : afterHeader origin' header (isHeader · language) (significantLines text) =
      .ok lines := afterHeader_eq_ok_iff.mpr (afterHeader_eq_ok_iff.mp hheader)
  have hfinish' : r.finish origin' (lines.getLast?.getD default) = .ok timing := by
    unfold TimingReader.finish at hfinish ⊢
    split at hfinish
    · exact hfinish
    · cases hfinish
  unfold parse
  rw [hheader']
  change (readLines origin' _ _ lines >>= _) = _
  rw [readLines_of_origin origin' hread]
  exact hfinish'

/-- What is read of a file beside the spelling of its path. -/
def Levels.SameBesidePath (l l' : Levels) : Prop :=
  ∃ parsed file file', l = readFrom file parsed ∧ l' = readFrom file' parsed

/-- What is read of a file beside the spelling of its path. -/
def Timing.SameBesidePath (timing timing' : Timing) : Prop :=
  ∃ parsed file file', timing = readFrom file parsed ∧ timing' = readFrom file' parsed

theorem Levels.ofFile_eq_ok_iff {file text : String} {l : Levels} :
    ofFile file text = .ok l ↔
      ∃ parsed, parse text file = .ok parsed ∧ l = parsed.readFrom file := by
  unfold ofFile
  rw [except_bind_eq_ok_iff]
  simp only [pure, Except.pure, Except.ok.injEq, eq_comm]

theorem Timing.ofFile_eq_ok_iff {file text : String} {timing : Timing} :
    ofFile file text = .ok timing ↔
      ∃ parsed, parse text file = .ok parsed ∧ timing = parsed.readFrom file := by
  unfold ofFile
  rw [except_bind_eq_ok_iff]
  simp only [pure, Except.pure, Except.ok.injEq, eq_comm]

theorem Levels.exists_ofFile (file file' text : String) (l : Levels)
    (h : ofFile file text = .ok l) : ∃ l', ofFile file' text = .ok l' ∧ SameBesidePath l l' := by
  obtain ⟨parsed, hparse, rfl⟩ := ofFile_eq_ok_iff.mp h
  exact ⟨_, ofFile_eq_ok_iff.mpr ⟨parsed, parse_of_origin hparse file', rfl⟩, parsed, file, file',
    rfl, rfl⟩

theorem Timing.exists_ofFile (file file' text : String) (timing : Timing)
    (h : ofFile file text = .ok timing) :
    ∃ timing', ofFile file' text = .ok timing' ∧ SameBesidePath timing timing' := by
  obtain ⟨parsed, hparse, rfl⟩ := ofFile_eq_ok_iff.mp h
  exact ⟨_, ofFile_eq_ok_iff.mpr ⟨parsed, parse_of_origin hparse file', rfl⟩, parsed, file, file',
    rfl, rfl⟩

theorem Container.keys_mapItems {α κ : Type} [Keyed α κ] (f : α → α)
    (h : ∀ a, Keyed.key (f a) = Keyed.key a) (c : Container α) :
    (c.mapItems f h).keys = c.keys := by
  simp [keys, mapItems, h]

theorem Levels.keys_readFrom (file : String) (l : Levels) :
    (l.readFrom file).eqnsets.keys = l.eqnsets.keys :=
  Container.keys_mapItems (fun e : LevelsEqnSet ↦ { e with source := some file }) (fun _ ↦ rfl) _

theorem Timing.keys_readFrom (file : String) (timing : Timing) :
    (timing.readFrom file).eqnsets.keys = timing.eqnsets.keys ∧
      (timing.readFrom file).wavetables.keys = timing.wavetables.keys :=
  ⟨Container.keys_mapItems (fun e : TimingEqnSet ↦ { e with source := some file }) (fun _ ↦ rfl) _,
    Container.keys_mapItems (fun w : WaveTable ↦ { w with source := some file }) (fun _ ↦ rfl) _⟩

/-! ### Loading a master file -/

/-- A master file of a levels setup on a file tree. -/
def MasterFile.levelsIndex (t : FileTree) (cwd : Place) (path : String) (m : MasterFile) :
    Indexed Levels :=
  ⟨t, cwd, path, Levels.ofFile, m.eqnsets.values⟩

/-- A master file of a timing setup on a file tree. -/
def MasterFile.timingIndex (t : FileTree) (cwd : Place) (path : String) (m : MasterFile) :
    Indexed Timing :=
  ⟨t, cwd, path, Timing.ofFile,
    m.eqnsets.values ++ (m.wavetables.values ++ m.multiportSpecs.values)⟩

/-- The entries of a timing setup's master file are followed kind by kind, with this result. -/
inductive Indexed.FollowsTiming (x : Indexed Timing) (m : MasterFile) :
    Except ReadError Timing → Prop
  | eqnsets {e : ReadError}
      (h : x.Follows Timing.takeEqnSet .empty m.eqnsets.entries (.error e)) :
      FollowsTiming x m (.error e)
  | wavetables {timing : Timing} {e : ReadError}
      (heqnsets : x.Follows Timing.takeEqnSet .empty m.eqnsets.entries (.ok timing))
      (h : x.Follows Timing.takeWaveTable timing m.wavetables.entries (.error e)) :
      FollowsTiming x m (.error e)
  | specifications {timing timing' : Timing} {r : Except ReadError Timing}
      (heqnsets : x.Follows Timing.takeEqnSet .empty m.eqnsets.entries (.ok timing))
      (hwavetables : x.Follows Timing.takeWaveTable timing m.wavetables.entries (.ok timing'))
      (h : x.Follows Timing.takeSpecification timing' m.multiportSpecs.entries r) :
      FollowsTiming x m r

section Loading

variable {t : FileTree} {cwd : Place} {path : String}

theorem exists_gives_levelsOfMaster (t : FileTree) (cwd : Place) (path : String) (m : MasterFile) :
    ∃ r, t.Gives ((FileTree.disk cwd).levelsOfMaster path m) r ∧
      (m.levelsIndex t cwd path).Follows Levels.takeEqnSet .empty m.eqnsets.entries r := by
  have heqnset : ∀ e ∈ m.eqnsets.entries, e.2 ∈ (m.levelsIndex t cwd path).entries :=
    fun e he ↦ List.mem_map_of_mem he
  obtain ⟨r, hgives, hfollows, -⟩ :=
    Indexed.exists_gives_follow Levels.takeEqnSet (g := ⟨.empty, .empty⟩) heqnset
      Indexed.remembers_empty
  refine ⟨r.map Gathering.setup, ?_, hfollows⟩
  cases r with
  | error e => exact hgives.bind_error
  | ok g => exact hgives.bind (FileTree.gives_pure g.setup)

theorem exists_gives_timingOfMaster (t : FileTree) (cwd : Place) (path : String) (m : MasterFile) :
    ∃ r, t.Gives ((FileTree.disk cwd).timingOfMaster path m) r ∧
      (m.timingIndex t cwd path).FollowsTiming m r := by
  have heqnset : ∀ e ∈ m.eqnsets.entries, e.2 ∈ (m.timingIndex t cwd path).entries :=
    fun e he ↦ List.mem_append_left _ (List.mem_map_of_mem he)
  have hwavetable : ∀ e ∈ m.wavetables.entries, e.2 ∈ (m.timingIndex t cwd path).entries :=
    fun e he ↦ List.mem_append_right _ (List.mem_append_left _ (List.mem_map_of_mem he))
  have hspec : ∀ e ∈ m.multiportSpecs.entries, e.2 ∈ (m.timingIndex t cwd path).entries :=
    fun e he ↦ List.mem_append_right _ (List.mem_append_right _ (List.mem_map_of_mem he))
  obtain ⟨r, hgives, hfollows, hfiles⟩ :=
    Indexed.exists_gives_follow Timing.takeEqnSet (g := ⟨.empty, .empty⟩) heqnset
      Indexed.remembers_empty
  cases r with
  | error e => exact ⟨.error e, hgives.bind_error, .eqnsets hfollows⟩
  | ok g =>
    obtain ⟨r₁, hgives₁, hfollows₁, hfiles₁⟩ :=
      Indexed.exists_gives_follow Timing.takeWaveTable hwavetable (hfiles g rfl)
    cases r₁ with
    | error e =>
      exact ⟨.error e, hgives.bind hgives₁.bind_error, .wavetables hfollows hfollows₁⟩
    | ok g₁ =>
      obtain ⟨r₂, hgives₂, hfollows₂, -⟩ :=
        Indexed.exists_gives_follow Timing.takeSpecification hspec (hfiles₁ g₁ rfl)
      refine ⟨r₂.map Gathering.setup, ?_, .specifications hfollows hfollows₁ hfollows₂⟩
      cases r₂ with
      | error e => exact hgives.bind (hgives₁.bind hgives₂.bind_error)
      | ok g₂ => exact hgives.bind (hgives₁.bind (hgives₂.bind (FileTree.gives_pure g₂.setup)))

/-- A text that is read as a master file is loaded as one. -/
theorem gives_setup_of_master {S : Type} {kind : MasterKind} {language header text : String}
    {ofFile : String → String → Except ReadError S}
    {ofMaster : String → MasterFile → ExceptT ReadError (StateM FileTree) S} {m : MasterFile}
    {r : Except ReadError S} (htext : t.readText cwd path = .ok text)
    (hparse : MasterFile.parse kind text path = .ok m) (h : t.Gives (ofMaster path m) r) :
    t.Gives ((FileTree.disk cwd).setup kind language header ofFile ofMaster path) r := by
  have hgives : t.Gives ((FileTree.disk cwd).text path)
      ((t.readText cwd path).mapError (.file path)) := FileTree.gives_text path
  rw [htext] at hgives
  obtain ⟨lines, hlines, -⟩ := except_bind_eq_ok_iff.mp hparse
  obtain ⟨first, hsignificant, hfirst⟩ := afterHeader_eq_ok_iff.mp hlines
  refine hgives.bind ?_
  dsimp only
  rw [hsignificant, List.head?_cons, Option.map_some, Option.getD_some,
    if_pos (beq_iff_eq.mp hfirst), hparse]
  exact (FileTree.gives_mk _).bind h

/-- A text with the header of its language is loaded as a plain file. -/
theorem gives_setup_of_plain {S : Type} {kind : MasterKind} {language header text : String}
    {ofFile : String → String → Except ReadError S}
    {ofMaster : String → MasterFile → ExceptT ReadError (StateM FileTree) S} {lines : List Line}
    (htext : t.readText cwd path = .ok text)
    (hlines : afterHeader path header (isHeader · language) (significantLines text) = .ok lines)
    (hkind : isHeader kind.header language = false) :
    t.Gives ((FileTree.disk cwd).setup kind language header ofFile ofMaster path)
      (ofFile path text) := by
  have hgives : t.Gives ((FileTree.disk cwd).text path)
      ((t.readText cwd path).mapError (.file path)) := FileTree.gives_text path
  rw [htext] at hgives
  obtain ⟨first, hsignificant, hfirst⟩ := afterHeader_eq_ok_iff.mp hlines
  have hne : first.text ≠ kind.header := by
    intro heq
    rw [heq, hkind] at hfirst
    cases hfirst
  refine hgives.bind ?_
  dsimp only
  rw [hsignificant, List.head?_cons, Option.map_some, Option.getD_some, if_neg hne, if_pos hfirst]
  exact FileTree.gives_mk _

theorem gives_levels_of_plain {text : String} {l : Levels}
    (htext : t.readText cwd path = .ok text) (hparse : Levels.parse text path = .ok l) :
    t.Gives ((FileTree.disk cwd).levels path) (.ok (l.readFrom path)) := by
  obtain ⟨lines, hlines, -⟩ := except_bind_eq_ok_iff.mp hparse
  have hgives : t.Gives ((FileTree.disk cwd).levels path) (Levels.ofFile path text) :=
    gives_setup_of_plain htext hlines (by decide +kernel)
  rwa [Levels.ofFile_eq_ok_iff.mpr ⟨l, hparse, rfl⟩] at hgives

theorem gives_timing_of_plain {text : String} {timing : Timing}
    (htext : t.readText cwd path = .ok text) (hparse : Timing.parse text path = .ok timing) :
    t.Gives ((FileTree.disk cwd).timing path) (.ok (timing.readFrom path)) := by
  obtain ⟨lines, hlines, -⟩ := except_bind_eq_ok_iff.mp hparse
  have hgives : t.Gives ((FileTree.disk cwd).timing path) (Timing.ofFile path text) :=
    gives_setup_of_plain htext hlines (by decide +kernel)
  rwa [Timing.ofFile_eq_ok_iff.mpr ⟨timing, hparse, rfl⟩] at hgives

end Loading

/-! ### What entries add -/

section Contents

variable {S : Type} {x : Indexed S}

/-- Each equation set that is listed has the spec sets that its file gives it, and no others are
there. -/
structure Indexed.GivesSpecSets (x : Indexed S) (specsets : S → Container SpecSet)
    (entries : List (Nat × MasterEntry)) (result : Container SpecSet) : Prop where
  listed : ∀ num entry, (num, entry) ∈ entries → ∃ file part, x.fileOf entry = .ok file ∧
    x.read file = .ok part ∧ result.items.filter (·.eqnset == num) =
      (specsets part).items.filter (·.eqnset == num)
  onlyListed : ∀ s ∈ result.items, s.eqnset ∈ entries.map Prod.fst

variable {specsets : S → Container SpecSet} {taken : List (Nat × S)}

theorem eqnset_of_mem_taken {s : SpecSet}
    (h : s ∈ taken.flatMap fun p ↦ (specsets p.2).items.filter (·.eqnset == p.1)) :
    s.eqnset ∈ taken.map Prod.fst := by
  obtain ⟨p, hp, hs⟩ := List.mem_flatMap.mp h
  rw [beq_iff_eq.mp (List.mem_filter.mp hs).2]
  exact List.mem_map_of_mem hp

/-- Of the spec sets that were taken, those of one equation set come from one setup. -/
theorem filter_taken {num : Nat} {part : S} (hdistinct : (taken.map Prod.fst).Nodup)
    (hmem : (num, part) ∈ taken) :
    (taken.flatMap fun p ↦ (specsets p.2).items.filter (·.eqnset == p.1)).filter
        (·.eqnset == num) = (specsets part).items.filter (·.eqnset == num) := by
  have hnone : ∀ {rest : List (Nat × S)}, num ∉ rest.map Prod.fst →
      (rest.flatMap fun p ↦ (specsets p.2).items.filter (·.eqnset == p.1)).filter
        (·.eqnset == num) = [] := by
    intro rest hrest
    rw [List.filter_eq_nil_iff]
    intro s hs heq
    exact hrest (beq_iff_eq.mp heq ▸ eqnset_of_mem_taken hs)
  induction taken with
  | nil => cases hmem
  | cons p rest ih =>
    rw [List.map_cons, List.nodup_cons] at hdistinct
    rw [List.flatMap_cons, List.filter_append]
    rcases List.mem_cons.mp hmem with rfl | hmem
    · rw [hnone hdistinct.1, List.append_nil, List.filter_filter]
      simp only [Bool.and_self]
    · have hne : p.1 ≠ num := fun heq ↦ hdistinct.1 (heq ▸ List.mem_map_of_mem hmem)
      have hfirst : ((specsets p.2).items.filter (·.eqnset == p.1)).filter (·.eqnset == num) =
          [] := by
        rw [List.filter_eq_nil_iff]
        intro s hs heq
        exact hne ((beq_iff_eq.mp (List.mem_filter.mp hs).2).symm.trans (beq_iff_eq.mp heq))
      rw [hfirst, List.nil_append, ih hdistinct.2 hmem]

theorem Indexed.GivesSpecSets.of_taken {entries : List (Nat × MasterEntry)}
    {result : Container SpecSet} {R : S → S → Prop}
    (hsame : ∀ file file' text part, x.ofFile file text = .ok part →
      ∃ part', x.ofFile file' text = .ok part' ∧ R part part')
    (hspecs : ∀ part part', R part part' → specsets part' = specsets part)
    (hdistinct : (entries.map Prod.fst).Nodup) (htaken : x.TakenFrom entries taken)
    (hresult : result.items =
      taken.flatMap fun p ↦ (specsets p.2).items.filter (·.eqnset == p.1)) :
    x.GivesSpecSets specsets entries result where
  listed num entry hmem := by
    obtain ⟨part, hpart, hleads⟩ := htaken.exists_of_mem hmem
    obtain ⟨file, part', hfile, hread, hsame⟩ := hleads.exists_read hsame
    refine ⟨file, part', hfile, hread, ?_⟩
    rw [hspecs part part' hsame, hresult, filter_taken (htaken.map_fst ▸ hdistinct) hpart]
  onlyListed s hs := by
    rw [hresult] at hs
    rw [← htaken.map_fst]
    exact eqnset_of_mem_taken hs

end Contents

/-- Of keys that are taken, each has its part. -/
theorem Container.map_some_flatMap_get? {α κ : Type} [Keyed α κ] [DecidableEq κ] {c : Container α}
    {ks : List κ} (h : ∀ k ∈ ks, k ∈ c.keys) :
    (ks.flatMap fun k ↦ (c.get? k).toList).map some = ks.map c.get? := by
  induction ks with
  | nil => rfl
  | cons k rest ih =>
    rw [List.forall_mem_cons] at h
    cases hget : c.get? k with
    | none => exact absurd h.1 (get?_eq_none_iff.mp hget)
    | some a => rw [List.flatMap_cons, List.map_append, ih h.2, List.map_cons, hget]; rfl

/-! ### Levels -/

namespace Levels

variable {t : FileTree} {cwd : Place} {path : String} {m : MasterFile} {l : Levels}

theorem exists_taken {x : Indexed Levels} {entries : List (Nat × MasterEntry)}
    (h : x.Follows takeEqnSet .empty entries (.ok l)) :
    ∃ taken, x.TakenFrom entries taken ∧
      l.eqnsets.items = taken.flatMap (fun p ↦ (p.2.eqnsets.get? p.1).toList) ∧
      l.specsets.items = taken.flatMap fun p ↦ p.2.specsets.items.filter (·.eqnset == p.1) := by
  obtain ⟨taken, htaken, hcontents⟩ := h.exists_taken
  refine ⟨taken, htaken, ?_, ?_⟩
  · exact hcontents (·.eqnsets.items) (fun num part ↦ (part.eqnsets.get? num).toList)
      fun _ _ _ _ htake ↦ (takesEqnSet htake).eqnsets
  · exact hcontents (·.specsets.items) (fun num part ↦ part.specsets.items.filter (·.eqnset == num))
      fun _ _ _ _ htake ↦ (takesEqnSet htake).specsets

/-- What ends the loading of a master file. -/
def LoadStops (t : FileTree) (cwd : Place) (path : String) (m : MasterFile) (e : ReadError) :
    Prop :=
  (m.levelsIndex t cwd path).StopsAmong m.eqnsets.entries (fun num part ↦ num ∉ part.eqnsets.keys)
    (fun num ↦ .notFound "EQNSET" (toString num)) e

theorem loadStops_of_follows {e : ReadError}
    (h : (m.levelsIndex t cwd path).Follows takeEqnSet .empty m.eqnsets.entries (.error e)) :
    LoadStops t cwd path m e := by
  refine h.stopsAmong (F := fun num l ↦ IsFreeOf num l.eqnsets l.specsets)
    (R := SameBesidePath) exists_ofFile ?_ ?_ ?_ m.eqnsets.nodup ?_
  · rintro num _ _ ⟨parsed, file, file', rfl, rfl⟩ hlacks
    rwa [keys_readFrom] at hlacks ⊢
  · exact fun num part l cause ↦ missing_of_takeEqnSet
  · exact fun num part l l' other htake ↦ (takesEqnSet htake).isFreeOf other
  · exact fun num _ ↦ ⟨List.not_mem_nil, List.forall_mem_nil _⟩

/-- Equation sets of a plain setup in an order of their own, with their spec sets and no others. -/
structure SelectedFrom (plain : Levels) (nums : List Nat) (l : Levels) : Prop where
  eqnsets : l.eqnsets.items.map some = nums.map plain.eqnsets.get?
  specsets : l.specsets.items =
    nums.flatMap fun num ↦ plain.specsets.items.filter (·.eqnset == num)

/-- A master file that lists equation sets of one file is loaded as these. -/
theorem exists_selectedFrom {file : String} {plain : Levels}
    (hfile : ∀ entry ∈ m.eqnsets.values, (m.levelsIndex t cwd path).fileOf entry = .ok file)
    (hread : (m.levelsIndex t cwd path).read file = .ok plain)
    (hkeys : ∀ num ∈ m.eqnsets.keys, num ∈ plain.eqnsets.keys) :
    ∃ l, t.Gives ((FileTree.disk cwd).levelsOfMaster path m) (.ok l) ∧
      plain.SelectedFrom m.eqnsets.keys l := by
  obtain ⟨r, hgives, hfollows⟩ := exists_gives_levelsOfMaster t cwd path m
  cases r with
  | error e =>
    obtain ⟨num, entry, hmem, hstops⟩ := loadStops_of_follows hfollows
    have hhas : num ∈ plain.eqnsets.keys := hkeys num (List.mem_map_of_mem hmem)
    exact absurd hstops (Indexed.not_stops_of_oneFile hfile hread (List.mem_map_of_mem hmem)
      (not_not_intro hhas))
  | ok l =>
    refine ⟨l, hgives, ?_⟩
    obtain ⟨taken, htaken, heqnsets, hspecsets⟩ := exists_taken hfollows
    rw [htaken.eq_map_of_oneFile hfile hread, List.flatMap_map] at heqnsets hspecsets
    exact ⟨(congrArg (List.map some) heqnsets).trans (Container.map_some_flatMap_get? hkeys),
      hspecsets⟩

/-- Loading a master file gives each equation set the spec sets of its own file. It ends with an
error only where the file of an entry cannot be had, or lacks what is listed. -/
theorem exists_gives_master {index : String} (hindex : t.readText cwd path = .ok index)
    (hm : MasterFile.parse .levels index path = .ok m) :
    ∃ r, t.Gives ((FileTree.disk cwd).levels path) r ∧
      (∀ l, r = .ok l →
        (m.levelsIndex t cwd path).GivesSpecSets Levels.specsets m.eqnsets.entries l.specsets) ∧
      ∀ e, r = .error e → LoadStops t cwd path m e := by
  obtain ⟨r, hgives, hfollows⟩ := exists_gives_levelsOfMaster t cwd path m
  refine ⟨r, gives_setup_of_master hindex hm hgives, ?_, ?_⟩
  · rintro l rfl
    obtain ⟨taken, htaken, -, hspecsets⟩ := exists_taken hfollows
    refine .of_taken (R := SameBesidePath) exists_ofFile ?_ m.eqnsets.nodup htaken hspecsets
    rintro _ _ ⟨parsed, file, file', rfl, rfl⟩
    rfl
  · rintro e rfl
    exact loadStops_of_follows hfollows

end Levels

/-! ### Timing -/

namespace Timing

variable {t : FileTree} {cwd : Place} {path : String} {m : MasterFile} {timing timing' : Timing}

section Taken

variable {x : Indexed Timing}

theorem exists_taken_eqnsets {entries : List (Nat × MasterEntry)}
    (h : x.Follows takeEqnSet .empty entries (.ok timing)) :
    ∃ taken, x.TakenFrom entries taken ∧
      timing.eqnsets.items = taken.flatMap (fun p ↦ (p.2.eqnsets.get? p.1).toList) ∧
      (timing.specsets.items =
        taken.flatMap fun p ↦ p.2.specsets.items.filter (·.eqnset == p.1)) ∧
      timing.wavetables = .empty ∧ timing.specifications = .empty := by
  obtain ⟨taken, htaken, hcontents⟩ := h.exists_taken
  refine ⟨taken, htaken, ?_, ?_, ?_, ?_⟩
  · exact hcontents (·.eqnsets.items) (fun num part ↦ (part.eqnsets.get? num).toList)
      fun _ _ _ _ htake ↦ (takesEqnSet htake).1.eqnsets
  · exact hcontents (·.specsets.items) (fun num part ↦ part.specsets.items.filter (·.eqnset == num))
      fun _ _ _ _ htake ↦ (takesEqnSet htake).1.specsets
  · exact h.eq_of_steps (·.wavetables) fun _ _ _ _ htake ↦ (takesEqnSet htake).2.1
  · exact h.eq_of_steps (·.specifications) fun _ _ _ _ htake ↦ (takesEqnSet htake).2.2

theorem exists_taken_wavetables {entries : List (String × MasterEntry)}
    (h : x.Follows takeWaveTable timing entries (.ok timing')) :
    ∃ taken, x.TakenFrom entries taken ∧
      timing'.wavetables.items =
        timing.wavetables.items ++ taken.flatMap (fun p ↦ (p.2.wavetables.get? p.1).toList) ∧
      timing'.eqnsets = timing.eqnsets ∧ timing'.specsets = timing.specsets ∧
      timing'.specifications = timing.specifications := by
  obtain ⟨taken, htaken, hcontents⟩ := h.exists_taken
  refine ⟨taken, htaken, ?_, ?_, ?_, ?_⟩
  · exact hcontents (·.wavetables.items) (fun name part ↦ (part.wavetables.get? name).toList)
      fun _ _ _ _ htake ↦ (items_takeWaveTable htake).1
  · exact h.eq_of_steps (·.eqnsets) fun _ _ _ _ htake ↦ (items_takeWaveTable htake).2.1
  · exact h.eq_of_steps (·.specsets) fun _ _ _ _ htake ↦ (items_takeWaveTable htake).2.2.1
  · exact h.eq_of_steps (·.specifications) fun _ _ _ _ htake ↦ (items_takeWaveTable htake).2.2.2

theorem exists_taken_specifications {entries : List (String × MasterEntry)}
    (h : x.Follows takeSpecification timing entries (.ok timing')) :
    ∃ taken, x.TakenFrom entries taken ∧
      timing'.specifications.items = timing.specifications.items ++
        taken.flatMap (fun p ↦ (p.2.specifications.get? p.1).toList) ∧
      timing'.eqnsets = timing.eqnsets ∧ timing'.specsets = timing.specsets ∧
      timing'.wavetables = timing.wavetables := by
  obtain ⟨taken, htaken, hcontents⟩ := h.exists_taken
  refine ⟨taken, htaken, ?_, ?_, ?_, ?_⟩
  · exact hcontents (·.specifications.items)
      (fun name part ↦ (part.specifications.get? name).toList)
      fun _ _ _ _ htake ↦ (items_takeSpecification htake).1
  · exact h.eq_of_steps (·.eqnsets) fun _ _ _ _ htake ↦ (items_takeSpecification htake).2.1
  · exact h.eq_of_steps (·.specsets) fun _ _ _ _ htake ↦ (items_takeSpecification htake).2.2.1
  · exact h.eq_of_steps (·.wavetables) fun _ _ _ _ htake ↦ (items_takeSpecification htake).2.2.2

/-- What is there after all entries were followed. -/
theorem exists_taken (h : x.FollowsTiming m (.ok timing)) :
    ∃ eqnsets wavetables specifications, x.TakenFrom m.eqnsets.entries eqnsets ∧
      x.TakenFrom m.wavetables.entries wavetables ∧
      x.TakenFrom m.multiportSpecs.entries specifications ∧
      timing.eqnsets.items = eqnsets.flatMap (fun p ↦ (p.2.eqnsets.get? p.1).toList) ∧
      (timing.specsets.items =
        eqnsets.flatMap fun p ↦ p.2.specsets.items.filter (·.eqnset == p.1)) ∧
      timing.wavetables.items = wavetables.flatMap (fun p ↦ (p.2.wavetables.get? p.1).toList) ∧
      timing.specifications.items =
        specifications.flatMap fun p ↦ (p.2.specifications.get? p.1).toList := by
  cases h with
  | specifications h₁ h₂ h₃ =>
    obtain ⟨eqnsets, htaken₁, heqnsets, hspecsets, hnoWave, hnoSpec⟩ := exists_taken_eqnsets h₁
    obtain ⟨wavetables, htaken₂, hwave, heqnsets₂, hspecsets₂, hspec₂⟩ :=
      exists_taken_wavetables h₂
    obtain ⟨specifications, htaken₃, hspec, heqnsets₃, hspecsets₃, hwave₃⟩ :=
      exists_taken_specifications h₃
    rw [hnoWave] at hwave
    rw [hspec₂, hnoSpec] at hspec
    exact ⟨eqnsets, wavetables, specifications, htaken₁, htaken₂, htaken₃,
      by rw [heqnsets₃, heqnsets₂, heqnsets], by rw [hspecsets₃, hspecsets₂, hspecsets],
      by rw [hwave₃]; exact hwave, hspec⟩

end Taken

/-- What ends the loading of a master file. -/
def LoadStops (t : FileTree) (cwd : Place) (path : String) (m : MasterFile) (e : ReadError) :
    Prop :=
  (m.timingIndex t cwd path).StopsAmong m.eqnsets.entries (fun num part ↦ num ∉ part.eqnsets.keys)
      (fun num ↦ .notFound "EQNSET" (toString num)) e ∨
    (m.timingIndex t cwd path).StopsAmong m.wavetables.entries
      (fun name part ↦ name ∉ part.wavetables.keys) (.notFound "WAVETBL") e ∨
    (m.timingIndex t cwd path).StopsAmong m.multiportSpecs.entries
      (fun name part ↦ name ∉ part.specifications.keys) (.notFound "SPECIFICATION") e

theorem loadStops_of_followsTiming {e : ReadError}
    (h : (m.timingIndex t cwd path).FollowsTiming m (.error e)) : LoadStops t cwd path m e := by
  cases h with
  | eqnsets h =>
    refine .inl (h.stopsAmong (F := fun num timing ↦ IsFreeOf num timing.eqnsets timing.specsets)
      (R := SameBesidePath) exists_ofFile ?_ ?_ ?_ m.eqnsets.nodup ?_)
    · rintro num _ _ ⟨parsed, file, file', rfl, rfl⟩ hlacks
      rwa [(keys_readFrom file parsed).1, ← (keys_readFrom file' parsed).1] at hlacks
    · exact fun num part timing cause ↦ missing_of_takeEqnSet
    · exact fun num part timing timing' other htake ↦ (takesEqnSet htake).1.isFreeOf other
    · exact fun num _ ↦ ⟨List.not_mem_nil, List.forall_mem_nil _⟩
  | wavetables h₁ h =>
    obtain ⟨-, -, -, -, hnoWave, -⟩ := exists_taken_eqnsets h₁
    refine .inr (.inl (h.stopsAmong (F := fun name timing ↦ name ∉ timing.wavetables.keys)
      (R := SameBesidePath) exists_ofFile ?_ ?_ ?_ m.wavetables.nodup ?_))
    · rintro num _ _ ⟨parsed, file, file', rfl, rfl⟩ hlacks
      rwa [(keys_readFrom file parsed).2, ← (keys_readFrom file' parsed).2] at hlacks
    · exact fun name part timing cause ↦ takeWaveTable_eq_error
    · exact fun name part timing timing' other htake ↦ free_takeWaveTable htake
    · intro name _
      rw [hnoWave]
      exact List.not_mem_nil
  | specifications h₁ h₂ h =>
    obtain ⟨-, -, -, -, -, hnoSpec⟩ := exists_taken_eqnsets h₁
    obtain ⟨-, -, -, -, -, hspec₂⟩ := exists_taken_wavetables h₂
    refine .inr (.inr (h.stopsAmong (F := fun name timing ↦ name ∉ timing.specifications.keys)
      (R := SameBesidePath) exists_ofFile ?_ ?_ ?_ m.multiportSpecs.nodup ?_))
    · rintro num _ _ ⟨parsed, file, file', rfl, rfl⟩ hlacks
      exact hlacks
    · exact fun name part timing cause ↦ takeSpecification_eq_error
    · exact fun name part timing timing' other htake ↦ free_takeSpecification htake
    · intro name _
      rw [hspec₂, hnoSpec]
      exact List.not_mem_nil

/-- Equation sets, wave tables and specifications of a plain setup in orders of their own, with the
spec sets of these equation sets and no others. -/
structure SelectedFrom (plain : Timing) (nums : List Nat) (wavetables specifications : List String)
    (timing : Timing) : Prop where
  eqnsets : timing.eqnsets.items.map some = nums.map plain.eqnsets.get?
  specsets : timing.specsets.items =
    nums.flatMap fun num ↦ plain.specsets.items.filter (·.eqnset == num)
  wavetables : timing.wavetables.items.map some = wavetables.map plain.wavetables.get?
  specifications : timing.specifications.items.map some =
    specifications.map plain.specifications.get?

/-- A master file that lists parts of one file is loaded as these. -/
theorem exists_selectedFrom {file : String} {plain : Timing}
    (hfile : ∀ entry ∈ (m.timingIndex t cwd path).entries,
      (m.timingIndex t cwd path).fileOf entry = .ok file)
    (hread : (m.timingIndex t cwd path).read file = .ok plain)
    (heqnsets : ∀ num ∈ m.eqnsets.keys, num ∈ plain.eqnsets.keys)
    (hwavetables : ∀ name ∈ m.wavetables.keys, name ∈ plain.wavetables.keys)
    (hspecs : ∀ name ∈ m.multiportSpecs.keys, name ∈ plain.specifications.keys) :
    ∃ timing, t.Gives ((FileTree.disk cwd).timingOfMaster path m) (.ok timing) ∧
      plain.SelectedFrom m.eqnsets.keys m.wavetables.keys m.multiportSpecs.keys timing := by
  obtain ⟨r, hgives, hfollows⟩ := exists_gives_timingOfMaster t cwd path m
  cases r with
  | error e =>
    rcases loadStops_of_followsTiming hfollows with ⟨num, entry, hmem, hstops⟩ |
      ⟨name, entry, hmem, hstops⟩ | ⟨name, entry, hmem, hstops⟩
    · have hhas := heqnsets num (List.mem_map_of_mem hmem)
      exact absurd hstops (Indexed.not_stops_of_oneFile hfile hread
        (List.mem_append_left _ (List.mem_map_of_mem hmem)) (not_not_intro hhas))
    · have hhas := hwavetables name (List.mem_map_of_mem hmem)
      exact absurd hstops (Indexed.not_stops_of_oneFile hfile hread (List.mem_append_right _
        (List.mem_append_left _ (List.mem_map_of_mem hmem))) (not_not_intro hhas))
    · have hhas := hspecs name (List.mem_map_of_mem hmem)
      exact absurd hstops (Indexed.not_stops_of_oneFile hfile hread (List.mem_append_right _
        (List.mem_append_right _ (List.mem_map_of_mem hmem))) (not_not_intro hhas))
  | ok timing =>
    refine ⟨timing, hgives, ?_⟩
    obtain ⟨_, _, _, htaken₁, htaken₂, htaken₃, heqnset, hspecset, hwavetable, hspec⟩ :=
      exists_taken hfollows
    rw [htaken₁.eq_map_of_oneFile hfile hread, List.flatMap_map] at heqnset hspecset
    rw [htaken₂.eq_map_of_oneFile hfile hread, List.flatMap_map] at hwavetable
    rw [htaken₃.eq_map_of_oneFile hfile hread, List.flatMap_map] at hspec
    exact ⟨(congrArg (List.map some) heqnset).trans (Container.map_some_flatMap_get? heqnsets),
      hspecset,
      (congrArg (List.map some) hwavetable).trans (Container.map_some_flatMap_get? hwavetables),
      (congrArg (List.map some) hspec).trans (Container.map_some_flatMap_get? hspecs)⟩

/-- Loading a master file gives each equation set the spec sets of its own file. It ends with an
error only where the file of an entry cannot be had, or lacks what is listed. -/
theorem exists_gives_master {index : String} (hindex : t.readText cwd path = .ok index)
    (hm : MasterFile.parse .timing index path = .ok m) :
    ∃ r, t.Gives ((FileTree.disk cwd).timing path) r ∧
      (∀ timing, r = .ok timing →
        (m.timingIndex t cwd path).GivesSpecSets Timing.specsets m.eqnsets.entries
          timing.specsets) ∧
      ∀ e, r = .error e → LoadStops t cwd path m e := by
  obtain ⟨r, hgives, hfollows⟩ := exists_gives_timingOfMaster t cwd path m
  refine ⟨r, gives_setup_of_master hindex hm hgives, ?_, ?_⟩
  · rintro timing rfl
    obtain ⟨taken, _, _, htaken, -, -, -, hspecsets, -⟩ := exists_taken hfollows
    refine .of_taken (R := SameBesidePath) exists_ofFile ?_ m.eqnsets.nodup htaken hspecsets
    rintro _ _ ⟨parsed, file, file', rfl, rfl⟩
    rfl
  · rintro e rfl
    exact loadStops_of_followsTiming hfollows

end Timing

end TesterSetup
