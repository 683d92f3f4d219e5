import TesterSetup.Proofs.IndexedSetups

/-!
# Master files beside the files they list

A master file that lists parts of a file in its own directory, by the name of that file. Loading it
gives the parts that are listed as loading the file alone does (`gives_levels_of_index`,
`gives_timing_of_index`), and with several files each equation set has the spec sets of its own
(`indexed_setups_load`).
-/

set_option autoImplicit false

namespace TesterSetup

open TesterSetup.Text

/-- The path of a file in the directory that another file lies in. -/
def Path.beside (path file : String) : String :=
  join ((parent? path).getD ".") file

/-- The name of a file that a line can name. -/
def IsFileName (file : String) : Prop :=
  IsPathWord file ∧ '/' ∉ file.toList

theorem climbsIn_eq_zero {s : List Char} (h : '/' ∉ s) : climbsIn s = 0 := by
  fun_induction climbsIn s with
  | case1 rest ih => exact absurd (by simp) h
  | case2 c rest _ ih => exact ih fun hrest ↦ h (List.mem_cons_of_mem c hrest)
  | case3 => rfl

/-- A file beside a master file is where an entry with its name leads. -/
theorem fileOf_beside {t : FileTree} {cwd : Place} {path file text : String}
    (hname : IsFileName file) (htext : t.readText cwd (Path.beside path file) = .ok text) :
    t.fileOf cwd ((Path.parent? path).getD ".") file = .ok (Path.beside path file) := by
  unfold FileTree.fileOf masterPath
  rw [climbsIn_eq_zero hname.2]
  exact if_pos (FileTree.isFile_of_readText htext)

/-- Every entry that a timing setup is loaded from is for some part that is listed. -/
theorem MasterFile.Indexes.exists_part {m : MasterFile} {t : FileTree} {cwd : Place} {path : String}
    {items : List (IndexedPart × MasterEntry)} {entry : MasterEntry} (h : m.Indexes items)
    (hentry : entry ∈ (m.timingIndex t cwd path).entries) : ∃ part, (part, entry) ∈ items := by
  rcases List.mem_append.mp hentry with heqnset | hother
  · obtain ⟨⟨num, _⟩, hmem, rfl⟩ := List.mem_map.mp heqnset
    exact ⟨_, h.mem_of_eqnsets hmem⟩
  · rcases List.mem_append.mp hother with hwavetable | hspec
    · obtain ⟨⟨name, _⟩, hmem, rfl⟩ := List.mem_map.mp hwavetable
      exact ⟨_, h.mem_of_wavetables hmem⟩
    · obtain ⟨⟨name, _⟩, hmem, rfl⟩ := List.mem_map.mp hspec
      exact ⟨_, h.mem_of_multiportSpecs hmem⟩

/-- The levels setup has a part, which a line can name. -/
def Levels.Offers (l : Levels) : IndexedPart → Prop
  | .eqnset num => num ∈ l.eqnsets.keys
  | _ => False

/-- The timing setup has a part, which a line can name. -/
def Timing.Offers (timing : Timing) : IndexedPart → Prop
  | .eqnset num => num ∈ timing.eqnsets.keys
  | .wavetable name =>
    name ∈ timing.wavetables.keys ∧ ':' ∉ name.toList ∧ '"' ∉ name.toList
  | .specification name =>
    name ∈ timing.specifications.keys ∧ ':' ∉ name.toList ∧ '"' ∉ name.toList
  | .testdata _ => False

theorem Timing.Offers.isPlain {text origin : String} {timing : Timing} {part : IndexedPart}
    (hparse : parse text origin = .ok timing) (h : timing.Offers part) : part.IsPlain := by
  obtain ⟨hwavetables, hspecs⟩ := hasBareEnds_of_parse hparse
  cases part with
  | eqnset num => exact trivial
  | testdata name => exact h.elim
  | specification name => exact ⟨hspecs name h.1, h.2.1, h.2.2⟩
  | wavetable name => exact ⟨hwavetables name h.1, h.2.1, h.2.2⟩

/-- An entry for test data, which no setup is loaded from. -/
def IsTestdata (item : IndexedPart × MasterEntry) : Prop :=
  ∃ name, item.1 = .testdata name ∧ IsPlainKey name ∧ IsPathWord item.2.path

/-- The equation sets that are listed. -/
def listedNums (items : List (IndexedPart × MasterEntry)) : List Nat :=
  (items.filterMap IndexedPart.eqnset?).map Prod.fst

/-- The wave tables that are listed. -/
def listedWaveTables (items : List (IndexedPart × MasterEntry)) : List String :=
  (items.filterMap IndexedPart.wavetable?).map Prod.fst

/-- The specifications that are listed. -/
def listedSpecifications (items : List (IndexedPart × MasterEntry)) : List String :=
  (items.filterMap IndexedPart.specification?).map Prod.fst

section Beside

variable {t : FileTree} {cwd : Place} {path file text index : String}
  {items : List (IndexedPart × MasterEntry)}

theorem gives_levels_of_index {l : Levels} (hname : IsFileName file)
    (htext : t.readText cwd (Path.beside path file) = .ok text)
    (hparse : Levels.parse text (Path.beside path file) = .ok l)
    (hindex : t.readText cwd path = .ok index) (hlists : MasterKind.levels.IsIndex index items)
    (hitems : ∀ item ∈ items, l.Offers item.1 ∧ item.2.path = file ∨ IsTestdata item)
    (hdistinct : (items.map Prod.fst).Nodup) :
    ∃ plain selected,
      t.Gives ((FileTree.disk cwd).levels (Path.beside path file)) (.ok plain) ∧
      t.Gives ((FileTree.disk cwd).levels path) (.ok selected) ∧
      plain.SelectedFrom (listedNums items) selected := by
  have hwritable : ∀ item ∈ items, item.1.kind ∈ MasterKind.levels.entryKinds ∧
      item.1.IsPlain ∧ IsPathWord item.2.path := by
    rintro ⟨part, entry⟩ hitem
    rcases hitems _ hitem with ⟨hoffers, hpath⟩ | ⟨name, hpart, hkey, hpath⟩
    · cases part with
      | eqnset num => exact ⟨List.mem_cons_self, trivial, hpath.symm ▸ hname.1⟩
      | _ => exact hoffers.elim
    · obtain rfl : part = .testdata name := hpart
      exact ⟨List.mem_cons_of_mem _ List.mem_cons_self, hkey, hpath⟩
  have heqnset : ∀ num entry, (IndexedPart.eqnset num, entry) ∈ items →
      num ∈ l.eqnsets.keys ∧ entry.path = file := by
    intro num entry hitem
    rcases hitems _ hitem with hoffers | ⟨name, hpart, -⟩
    · exact hoffers
    · cases hpart
  obtain ⟨m, hm, hindexes⟩ := MasterFile.parse_of_isIndex path hlists hwritable hdistinct
  have hfile : ∀ entry ∈ m.eqnsets.values,
      (m.levelsIndex t cwd path).fileOf entry = .ok (Path.beside path file) := by
    intro entry hentry
    obtain ⟨⟨num, _⟩, hmem, rfl⟩ := List.mem_map.mp hentry
    have hpath := (heqnset num _ (hindexes.mem_of_eqnsets hmem)).2
    rw [Indexed.fileOf, hpath]
    exact fileOf_beside hname htext
  have hread : (m.levelsIndex t cwd path).read (Path.beside path file) =
      .ok (l.readFrom (Path.beside path file)) := by
    refine except_bind_eq_ok_iff.mpr ⟨text, except_mapError_eq_ok_iff.mpr htext, ?_⟩
    exact Levels.ofFile_eq_ok_iff.mpr ⟨l, hparse, rfl⟩
  have hkeys : ∀ num ∈ m.eqnsets.keys,
      num ∈ (l.readFrom (Path.beside path file)).eqnsets.keys := by
    intro num hnum
    obtain ⟨⟨_, entry⟩, hmem, rfl⟩ := List.mem_map.mp hnum
    rw [Levels.keys_readFrom]
    exact (heqnset _ entry (hindexes.mem_of_eqnsets hmem)).1
  obtain ⟨selected, hgives, hselected⟩ := Levels.exists_selectedFrom hfile hread hkeys
  refine ⟨_, selected, gives_levels_of_plain htext hparse,
    gives_setup_of_master hindex hm hgives, ?_⟩
  rwa [OrderedMap.keys, hindexes.eqnsets] at hselected

theorem gives_timing_of_index {timing : Timing} (hname : IsFileName file)
    (htext : t.readText cwd (Path.beside path file) = .ok text)
    (hparse : Timing.parse text (Path.beside path file) = .ok timing)
    (hindex : t.readText cwd path = .ok index) (hlists : MasterKind.timing.IsIndex index items)
    (hitems : ∀ item ∈ items, timing.Offers item.1 ∧ item.2.path = file)
    (hdistinct : (items.map Prod.fst).Nodup) :
    ∃ plain selected,
      t.Gives ((FileTree.disk cwd).timing (Path.beside path file)) (.ok plain) ∧
      t.Gives ((FileTree.disk cwd).timing path) (.ok selected) ∧
      plain.SelectedFrom (listedNums items) (listedWaveTables items) (listedSpecifications items)
        selected := by
  have hwritable : ∀ item ∈ items, item.1.kind ∈ MasterKind.timing.entryKinds ∧
      item.1.IsPlain ∧ IsPathWord item.2.path := by
    rintro ⟨part, entry⟩ hitem
    obtain ⟨hoffers, hpath⟩ := hitems _ hitem
    refine ⟨?_, hoffers.isPlain hparse, hpath.symm ▸ hname.1⟩
    cases part with
    | testdata name => exact hoffers.elim
    | _ => simp [IndexedPart.kind, MasterKind.entryKinds]
  obtain ⟨m, hm, hindexes⟩ := MasterFile.parse_of_isIndex path hlists hwritable hdistinct
  have hfile : ∀ entry ∈ (m.timingIndex t cwd path).entries,
      (m.timingIndex t cwd path).fileOf entry = .ok (Path.beside path file) := by
    intro entry hentry
    obtain ⟨part, hitem⟩ := hindexes.exists_part hentry
    rw [Indexed.fileOf, (hitems _ hitem).2]
    exact fileOf_beside hname htext
  have hread : (m.timingIndex t cwd path).read (Path.beside path file) =
      .ok (timing.readFrom (Path.beside path file)) := by
    refine except_bind_eq_ok_iff.mpr ⟨text, except_mapError_eq_ok_iff.mpr htext, ?_⟩
    exact Timing.ofFile_eq_ok_iff.mpr ⟨timing, hparse, rfl⟩
  obtain ⟨heqnsetKeys, hwavetableKeys⟩ := Timing.keys_readFrom (Path.beside path file) timing
  have heqnsets : ∀ num ∈ m.eqnsets.keys,
      num ∈ (timing.readFrom (Path.beside path file)).eqnsets.keys := by
    intro num hnum
    obtain ⟨⟨_, entry⟩, hmem, rfl⟩ := List.mem_map.mp hnum
    rw [heqnsetKeys]
    exact (hitems _ (hindexes.mem_of_eqnsets hmem)).1
  have hwavetables : ∀ name ∈ m.wavetables.keys,
      name ∈ (timing.readFrom (Path.beside path file)).wavetables.keys := by
    intro name hname
    obtain ⟨⟨_, entry⟩, hmem, rfl⟩ := List.mem_map.mp hname
    rw [hwavetableKeys]
    exact (hitems _ (hindexes.mem_of_wavetables hmem)).1.1
  have hspecs : ∀ name ∈ m.multiportSpecs.keys,
      name ∈ (timing.readFrom (Path.beside path file)).specifications.keys := by
    intro name hname
    obtain ⟨⟨_, entry⟩, hmem, rfl⟩ := List.mem_map.mp hname
    exact (hitems _ (hindexes.mem_of_multiportSpecs hmem)).1.1
  obtain ⟨selected, hgives, hselected⟩ :=
    Timing.exists_selectedFrom hfile hread heqnsets hwavetables hspecs
  refine ⟨_, selected, gives_timing_of_plain htext hparse,
    gives_setup_of_master hindex hm hgives, ?_⟩
  rwa [OrderedMap.keys, OrderedMap.keys, OrderedMap.keys, hindexes.eqnsets, hindexes.wavetables,
    hindexes.multiportSpecs] at hselected

end Beside

/-- A master file that lists parts of a file beside it, in any order, is loaded as these parts, each
as it is loaded from the file alone, with the spec sets of its equation sets and no others. A master
file of any number of files gives each equation set the spec sets of its own file; it ends with an
error only where the file of an entry cannot be had or lacks what is listed, never because a key is
taken. -/
theorem indexed_setups_load (t : FileTree) (cwd : Place) (path index : String)
    (hindex : t.readText cwd path = .ok index) :
    (∀ file text l items, IsFileName file →
      t.readText cwd (Path.beside path file) = .ok text →
      Levels.parse text (Path.beside path file) = .ok l →
      MasterKind.levels.IsIndex index items →
      (∀ item ∈ items, l.Offers item.1 ∧ item.2.path = file ∨ IsTestdata item) →
      (items.map Prod.fst).Nodup →
      ∃ plain selected,
        t.Gives ((FileTree.disk cwd).levels (Path.beside path file)) (.ok plain) ∧
        t.Gives ((FileTree.disk cwd).levels path) (.ok selected) ∧
        plain.SelectedFrom (listedNums items) selected) ∧
    (∀ file text timing items, IsFileName file →
      t.readText cwd (Path.beside path file) = .ok text →
      Timing.parse text (Path.beside path file) = .ok timing →
      MasterKind.timing.IsIndex index items →
      (∀ item ∈ items, timing.Offers item.1 ∧ item.2.path = file) →
      (items.map Prod.fst).Nodup →
      ∃ plain selected,
        t.Gives ((FileTree.disk cwd).timing (Path.beside path file)) (.ok plain) ∧
        t.Gives ((FileTree.disk cwd).timing path) (.ok selected) ∧
        plain.SelectedFrom (listedNums items) (listedWaveTables items)
          (listedSpecifications items) selected) ∧
    (∀ m, MasterFile.parse .levels index path = .ok m →
      ∃ r, t.Gives ((FileTree.disk cwd).levels path) r ∧
        (∀ l, r = .ok l →
          (m.levelsIndex t cwd path).GivesSpecSets Levels.specsets m.eqnsets.entries l.specsets) ∧
        ∀ e, r = .error e → Levels.LoadStops t cwd path m e) ∧
    ∀ m, MasterFile.parse .timing index path = .ok m →
      ∃ r, t.Gives ((FileTree.disk cwd).timing path) r ∧
        (∀ timing, r = .ok timing →
          (m.timingIndex t cwd path).GivesSpecSets Timing.specsets m.eqnsets.entries
            timing.specsets) ∧
        ∀ e, r = .error e → Timing.LoadStops t cwd path m e := by
  refine ⟨?_, ?_, ?_, ?_⟩
  · intro file text l items hname htext hparse hlists hitems hdistinct
    exact gives_levels_of_index hname htext hparse hindex hlists hitems hdistinct
  · intro file text timing items hname htext hparse hlists hitems hdistinct
    exact gives_timing_of_index hname htext hparse hindex hlists hitems hdistinct
  · exact fun m hm ↦ Levels.exists_gives_master hindex hm
  · exact fun m hm ↦ Timing.exists_gives_master hindex hm

/-! A directory with a levels file and a timing file, each beside a master file that lists parts of
it. -/

def twoSetsText : String :=
  "hp93000,level,0.1\nEQSP LEV,EQN,#1\nEQNSET 1\nEQNSET 2\nSPECS\nvio [V]\n" ++
    "EQSP LEV,SPS,#1\nEQNSET 1\nSPECSET 1\nEQNSET 2\nSPECSET 1\nvio 3.3\n"

def oneSetIndex : String :=
  "hp93000,level_master_file,0.1\ntesterfile : lev.master\n\nEQNSET \"2\" : a.lev\n"

def allPartsText : String :=
  "hp93000,timing,0.1\nEQSP TIM,WVT,#1\nWAVETBL \"w\"\nEQSP TIM,EQN,#1\nEQNSET 1\n" ++
    "EQSP TIM,SPS,#1\nEQNSET 1\nSPECSET 1\nSPECIFICATION \"s\"\n\x7b\n\x7d\n"

def allPartsIndex : String :=
  "hp93000,timing_master_file,0.1\nMULTIPORT_SPEC \"s\" : a.tim\nWAVETABLE w : a.tim\n" ++
    "EQNSET 1:a.tim\n"

def masterTree : FileTree :=
  [("a.lev", twoSetsText), ("lev.master", oneSetIndex), ("a.tim", allPartsText),
    ("tim.master", allPartsIndex)].foldl (fun t file ↦ t.add file.1 file.2.toUTF8) .empty

/-- A blank on either side of a colon and behind the keyword. -/
def Form.Gaps.single : Form.Gaps :=
  ⟨[' '], [' '], [' '], by decide, List.all_eq_true.mp (by decide)⟩

theorem isIndex_oneSetIndex :
    MasterKind.levels.IsIndex oneSetIndex [(.eqnset 2, ⟨"a.lev", 4⟩)] := by
  refine ⟨⟨1, _⟩, [⟨2, "testerfile : lev.master"⟩, ⟨4, "EQNSET \"2\" : a.lev"⟩],
    by decide +kernel, rfl, ?_⟩
  have hmaster : IsPathWord "lev.master" := by decide +kernel
  have hblank : ∀ c ∈ [' '], isBlank c = true := List.all_eq_true.mp (by decide)
  refine .testerfile hblank hblank hmaster rfl (.entry ?_ .nil)
  exact ⟨"2", _, .single, rfl, .inr rfl, rfl⟩

theorem isIndex_allPartsIndex :
    MasterKind.timing.IsIndex allPartsIndex [(.specification "s", ⟨"a.tim", 2⟩),
      (.wavetable "w", ⟨"a.tim", 3⟩), (.eqnset 1, ⟨"a.tim", 4⟩)] := by
  refine ⟨⟨1, _⟩, [⟨2, "MULTIPORT_SPEC \"s\" : a.tim"⟩, ⟨3, "WAVETABLE w : a.tim"⟩,
    ⟨4, "EQNSET 1:a.tim"⟩], by decide +kernel, rfl, .entry ?_ (.entry ?_ (.entry ?_ .nil))⟩
  · exact ⟨"s", _, .single, rfl, .inr rfl, rfl⟩
  · exact ⟨"w", _, .single, rfl, .inl ⟨by decide, rfl⟩, rfl⟩
  · exact ⟨"1", _, ⟨[' '], [], [], by decide, List.all_eq_true.mp (by decide)⟩, rfl,
      .inl ⟨by decide, rfl⟩, rfl⟩

/-- Both master files are loaded, and each as the parts that it lists. -/
theorem indexed_setups_load_beside :
    (∃ plain selected, masterTree.Gives ((FileTree.disk []).levels "a.lev") (.ok plain) ∧
      masterTree.Gives ((FileTree.disk []).levels "lev.master") (.ok selected) ∧
      plain.SelectedFrom [2] selected) ∧
    (∃ plain selected, masterTree.Gives ((FileTree.disk []).timing "a.tim") (.ok plain) ∧
      masterTree.Gives ((FileTree.disk []).timing "tim.master") (.ok selected) ∧
      plain.SelectedFrom [1] ["w"] ["s"] selected) ∧
    (∃ m l, MasterFile.parse .levels oneSetIndex "lev.master" = .ok m ∧
      masterTree.Gives ((FileTree.disk []).levels "lev.master") (.ok l) ∧
      (m.levelsIndex masterTree [] "lev.master").GivesSpecSets Levels.specsets m.eqnsets.entries
        l.specsets) ∧
    ∃ m timing, MasterFile.parse .timing allPartsIndex "tim.master" = .ok m ∧
      masterTree.Gives ((FileTree.disk []).timing "tim.master") (.ok timing) ∧
      (m.timingIndex masterTree [] "tim.master").GivesSpecSets Timing.specsets m.eqnsets.entries
        timing.specsets := by
  have hlevelsPath : Path.beside "lev.master" "a.lev" = "a.lev" := by decide +kernel
  have htimingPath : Path.beside "tim.master" "a.tim" = "a.tim" := by decide +kernel
  obtain ⟨hlevels, -, hlevelsSpecs, -⟩ :=
    indexed_setups_load masterTree [] "lev.master" oneSetIndex rfl
  obtain ⟨-, htiming, -, htimingSpecs⟩ :=
    indexed_setups_load masterTree [] "tim.master" allPartsIndex rfl
  obtain ⟨l, hl, hnum⟩ : ∃ l, Levels.parse twoSetsText (Path.beside "lev.master" "a.lev") = .ok l ∧
      l.eqnsets.keys.contains 2 = true :=
    exists_eq_ok_of_any (by decide +kernel)
  obtain ⟨timing, ht, hparts⟩ : ∃ timing,
      Timing.parse allPartsText (Path.beside "tim.master" "a.tim") = .ok timing ∧
        (timing.eqnsets.keys.contains 1 && timing.wavetables.keys.contains "w" &&
          timing.specifications.keys.contains "s") = true :=
    exists_eq_ok_of_any (by decide +kernel)
  simp only [Bool.and_eq_true, List.contains_iff_mem] at hnum hparts
  obtain ⟨⟨hset, hwave⟩, hspec⟩ := hparts
  have hlevelsText : masterTree.readText [] (Path.beside "lev.master" "a.lev") =
      .ok twoSetsText := by
    rw [hlevelsPath]
    decide +kernel
  have htimingText : masterTree.readText [] (Path.beside "tim.master" "a.tim") =
      .ok allPartsText := by
    rw [htimingPath]
    decide +kernel
  obtain ⟨plain, selected, hplain, hselected, hfrom⟩ := hlevels "a.lev" twoSetsText l
    [(.eqnset 2, ⟨"a.lev", 4⟩)] ⟨by decide +kernel, by decide +kernel⟩ hlevelsText hl
    isIndex_oneSetIndex (by simpa [Levels.Offers] using .inl hnum) (by decide)
  obtain ⟨plain', selected', hplain', hselected', hfrom'⟩ := htiming "a.tim" allPartsText timing
    [(.specification "s", ⟨"a.tim", 2⟩), (.wavetable "w", ⟨"a.tim", 3⟩),
      (.eqnset 1, ⟨"a.tim", 4⟩)] ⟨by decide +kernel, by decide +kernel⟩ htimingText ht
    isIndex_allPartsIndex (by simp [Timing.Offers, hset, hwave, hspec]) (by decide)
  rw [hlevelsPath] at hplain
  rw [htimingPath] at hplain'
  obtain ⟨m, hm⟩ : ∃ m, MasterFile.parse .levels oneSetIndex "lev.master" = .ok m :=
    exists_eq_ok_of_isOk (by decide +kernel)
  obtain ⟨m', hm'⟩ : ∃ m, MasterFile.parse .timing allPartsIndex "tim.master" = .ok m :=
    exists_eq_ok_of_isOk (by decide +kernel)
  obtain ⟨r, hr, hspecsets, -⟩ := hlevelsSpecs m hm
  obtain ⟨r', hr', hspecsets', -⟩ := htimingSpecs m' hm'
  exact ⟨⟨plain, selected, hplain, hselected, hfrom⟩,
    ⟨plain', selected', hplain', hselected', hfrom'⟩,
    ⟨m, selected, hm, hselected, hspecsets selected (hr.unique hselected)⟩,
    ⟨m', selected', hm', hselected', hspecsets' selected' (hr'.unique hselected')⟩⟩

end TesterSetup
