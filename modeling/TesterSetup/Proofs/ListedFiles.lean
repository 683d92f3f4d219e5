import TesterSetup.Proofs.BuildingSteps
import TesterSetup.Proofs.LabelCandidates

/-!
# Files that a pattern master lists

What the text of a pattern master file lists, said of its lines alone. Two lines are markers: they
say whether the lines after them, up to the next one, are directories or files. So what a line is
depends on the lines before it, and so does the directory that a file lies in, which is the one
named last (`directoryAfter`). `listing` is each directory once, where it was named first, with its
files in order.

The reader has the same things at hand after each line (`PatternMaster.Reader.Reads`): one step
keeps them (`PatternMaster.Reader.Reads.read`), hence a run does, and an accepted text is read as
its listing (`PatternMaster.listing_of_parse`).
-/

set_option autoImplicit false

namespace TesterSetup

namespace PatternMaster

open Text

/-! ### Lines and the lines before them -/

/-- A line that says what the lines after it are. -/
def isMarker (text : String) : Bool :=
  text == "path:" || text == "files:"

/-- The marker that holds after some lines. -/
def markerAfter (before : List String) : Option String :=
  (before.filter isMarker).getLast?

/-- The lines that are kept for what they are and what stands before them. -/
def linesWhere (keep : List String → String → Bool) (lines : List String) : List String :=
  lines.zipIdx.filterMap fun (text, i) ↦ if keep (lines.take i) text then some text else none

/-- A line that names a directory. -/
def isPathLine (before : List String) (text : String) : Bool :=
  !isMarker text && markerAfter before == some "path:"

/-- A line that names a file. -/
def isFileLine (before : List String) (text : String) : Bool :=
  !isMarker text && markerAfter before == some "files:"

/-- The directory that was named last. -/
def directoryAfter (before : List String) : Option String :=
  (linesWhere isPathLine before).getLast?

/-- A line that names a file of a directory. -/
def isFileOf (dir : String) (before : List String) (text : String) : Bool :=
  isFileLine before text && directoryAfter before == some dir

/-- The directories that lines name, each where it is named first, with their files. -/
def listing (lines : List String) : List (String × List String) :=
  (linesWhere isPathLine lines).eraseDups.map fun dir ↦ (dir, linesWhere (isFileOf dir) lines)

section Lines

variable {keep : List String → String → Bool} {lines : List String} {text : String}

theorem linesWhere_concat (keep : List String → String → Bool) (lines : List String)
    (text : String) :
    linesWhere keep (lines ++ [text]) =
      linesWhere keep lines ++ if keep lines text then [text] else [] := by
  unfold linesWhere
  rw [List.zipIdx_append, List.filterMap_append]
  congr 1
  · refine List.filterMap_congr fun l hl ↦ ?_
    have hle : l.2 ≤ lines.length := by
      obtain ⟨-, hlt, -⟩ := List.mem_zipIdx hl
      omega
    dsimp only
    rw [List.take_append_of_le_length hle]
  · rw [Nat.zero_add, List.zipIdx_singleton, List.filterMap_cons, List.filterMap_nil]
    dsimp only
    rw [List.take_left]
    cases keep lines text <;> rfl

theorem linesWhere_concat_of_true (h : keep lines text = true) :
    linesWhere keep (lines ++ [text]) = linesWhere keep lines ++ [text] := by
  rw [linesWhere_concat, if_pos h]

theorem linesWhere_concat_of_false (h : keep lines text = false) :
    linesWhere keep (lines ++ [text]) = linesWhere keep lines := by
  rw [linesWhere_concat, h, if_neg Bool.false_ne_true, List.append_nil]

theorem isFileOf_eq_false (h : isFileLine lines text = false) (dir : String) :
    isFileOf dir lines text = false := by
  rw [isFileOf, h, Bool.false_and]

theorem markerAfter_concat (lines : List String) (text : String) :
    markerAfter (lines ++ [text]) = if isMarker text then some text else markerAfter lines := by
  unfold markerAfter
  rw [List.filter_append]
  split
  · rename_i h
    rw [List.filter_cons_of_pos h, List.filter_nil, List.getLast?_concat]
  · rename_i h
    rw [List.filter_cons_of_neg h, List.filter_nil, List.append_nil]

end Lines

/-! ### Adding files -/

theorem keys_addFiles (entries : OrderedMap String (List String)) (dir : String)
    (files : List String) :
    (addFiles entries dir files).keys =
      if dir ∈ entries.keys then entries.keys else entries.keys ++ [dir] :=
  OrderedMap.keys_insert _ _ _

theorem getD_addFiles (entries : OrderedMap String (List String)) (dir other : String)
    (files : List String) :
    ((addFiles entries dir files).get? other).getD [] =
      (entries.get? other).getD [] ++ if dir = other then files else [] := by
  unfold addFiles
  rw [OrderedMap.get?_insert]
  split
  · rename_i h
    rw [h, Option.getD_some]
  · rw [List.append_nil]

theorem sum_lengths_write (dir : String) (files : List String)
    (l : List (String × List String)) :
    (OrderedMap.write dir ((OrderedMap.lookup dir l).getD [] ++ files) l).foldr
        (fun e n ↦ e.2.length + n) 0 =
      l.foldr (fun e n ↦ e.2.length + n) 0 + files.length := by
  induction l with
  | nil => simp [OrderedMap.write, OrderedMap.lookup]
  | cons e rest ih =>
    obtain ⟨other, held⟩ := e
    by_cases h : other = dir
    · simp only [OrderedMap.write, OrderedMap.lookup, h, if_true, List.foldr_cons,
        Option.getD_some, List.length_append]
      omega
    · simp only [OrderedMap.write, OrderedMap.lookup, h, if_false, List.foldr_cons, ih]
      omega

theorem size_addFiles (path : Option String) (entries : OrderedMap String (List String))
    (dir : String) (files : List String) :
    PatternMaster.size ⟨path, addFiles entries dir files⟩ =
      PatternMaster.size ⟨path, entries⟩ + files.length := by
  have hsize : ∀ m : OrderedMap String (List String), PatternMaster.size ⟨path, m⟩ =
      m.entries.foldr (fun e n ↦ e.2.length + n) 0 := by
    intro m
    rw [size, OrderedMap.values, List.foldr_map]
  rw [hsize, hsize]
  exact sum_lengths_write dir files entries.entries

/-! ### Reading lines -/

namespace Reader

variable {r r' : Reader} {line : Line} {lines : List String}

/-- What a line does. -/
theorem read_cases (h : r.read line = .ok r') :
    (line.text = "path:" ∧ r' = { r with part := .paths }) ∨
      (line.text = "files:" ∧ r' = { r with part := .files }) ∨
      (isMarker line.text = false ∧ r.part = .paths ∧
        r' = { r with
          directory := some line.text, entries := addFiles r.entries line.text [] }) ∨
      (isMarker line.text = false ∧ r.part = .files ∧ ∃ dir, r.directory = some dir ∧
        r' = { r with entries := addFiles r.entries dir [line.text] }) := by
  unfold read at h
  split at h
  · rename_i hpath
    exact .inl ⟨hpath, (Except.ok.inj h).symm⟩
  · rename_i hpath
    split at h
    · rename_i hfiles
      exact .inr (.inl ⟨hfiles, (Except.ok.inj h).symm⟩)
    · rename_i hfiles
      have hmarker : isMarker line.text = false := by simp [isMarker, hpath, hfiles]
      split at h
      · cases h
      · rename_i hpart
        exact .inr (.inr (.inl ⟨hmarker, hpart, (Except.ok.inj h).symm⟩))
      · rename_i hpart
        split at h
        · cases h
        · rename_i dir hdir
          exact .inr (.inr (.inr ⟨hmarker, hpart, dir, hdir, (Except.ok.inj h).symm⟩))

end Reader

/-- The marker of a part. -/
def Part.marker : Part → Option String
  | .preamble => none
  | .paths => some "path:"
  | .files => some "files:"

/-- What the reader holds after some lines. -/
structure Reader.Reads (lines : List String) (r : Reader) : Prop where
  part : r.part.marker = markerAfter lines
  directory : r.directory = directoryAfter lines
  keys : r.entries.keys = (linesWhere isPathLine lines).eraseDups
  files : ∀ dir, (r.entries.get? dir).getD [] = linesWhere (isFileOf dir) lines
  size : PatternMaster.size ⟨none, r.entries⟩ = (linesWhere isFileLine lines).length

namespace Reader

variable {r r' : Reader} {line : Line} {lines : List String} {text dir : String}

theorem reads_start : Reads [] ⟨.preamble, none, .empty⟩ :=
  ⟨rfl, rfl, rfl, fun _ ↦ rfl, rfl⟩

theorem Reads.isPathLine_eq (h : r.Reads lines) (hmarker : isMarker text = false) :
    isPathLine lines text = decide (r.part = .paths) := by
  rw [isPathLine, hmarker, ← h.part]
  cases r.part <;> rfl

theorem Reads.isFileLine_eq (h : r.Reads lines) (hmarker : isMarker text = false) :
    isFileLine lines text = decide (r.part = .files) := by
  rw [isFileLine, hmarker, ← h.part]
  cases r.part <;> rfl

/-- A marker adds nothing. -/
theorem Reads.marker {part : Part} (h : r.Reads lines) (hmarker : isMarker text = true)
    (hpart : part.marker = some text) : Reads (lines ++ [text]) { r with part } := by
  have hpath : isPathLine lines text = false := by rw [isPathLine, hmarker]; rfl
  have hfile : isFileLine lines text = false := by rw [isFileLine, hmarker]; rfl
  refine { part := ?part, directory := ?directory, keys := ?keys, files := fun dir ↦ ?files,
           size := ?size }
  case part => rw [markerAfter_concat, if_pos hmarker, hpart]
  case directory =>
    rw [directoryAfter, linesWhere_concat_of_false hpath, ← directoryAfter, h.directory]
  case keys => rw [linesWhere_concat_of_false hpath, h.keys]
  case files => rw [linesWhere_concat_of_false (isFileOf_eq_false hfile dir), h.files dir]
  case size => rw [linesWhere_concat_of_false hfile, h.size]

/-- A directory that is named has no files by that. -/
theorem Reads.pathLine (h : r.Reads lines) (hmarker : isMarker text = false)
    (hpart : r.part = .paths) :
    Reads (lines ++ [text])
      { r with directory := some text, entries := addFiles r.entries text [] } := by
  have hpath : isPathLine lines text = true := by rw [h.isPathLine_eq hmarker, hpart]; rfl
  have hfile : isFileLine lines text = false := by rw [h.isFileLine_eq hmarker, hpart]; rfl
  refine { part := ?part, directory := ?directory, keys := ?keys, files := fun dir ↦ ?files,
           size := ?size }
  case part => rw [markerAfter_concat, hmarker, if_neg Bool.false_ne_true, h.part]
  case directory => rw [directoryAfter, linesWhere_concat_of_true hpath, List.getLast?_concat]
  case keys => rw [linesWhere_concat_of_true hpath, keys_addFiles, eraseDups_concat, h.keys]
  case files =>
    rw [linesWhere_concat_of_false (isFileOf_eq_false hfile dir), getD_addFiles, ite_self,
      List.append_nil, h.files dir]
  case size =>
    rw [linesWhere_concat_of_false hfile, size_addFiles, h.size, List.length_nil, Nat.add_zero]

/-- A file is added to the directory named last, which has been named. -/
theorem Reads.fileLine (h : r.Reads lines) (hmarker : isMarker text = false)
    (hpart : r.part = .files) (hdir : r.directory = some dir) :
    Reads (lines ++ [text]) { r with entries := addFiles r.entries dir [text] } := by
  have hpath : isPathLine lines text = false := by rw [h.isPathLine_eq hmarker, hpart]; rfl
  have hfile : isFileLine lines text = true := by rw [h.isFileLine_eq hmarker, hpart]; rfl
  have hnamed : dir ∈ r.entries.keys := by
    rw [h.keys, List.mem_eraseDups]
    exact List.mem_of_getLast? (h.directory.symm.trans hdir)
  refine { part := ?part, directory := ?directory, keys := ?keys, files := fun other ↦ ?files,
           size := ?size }
  case part => rw [markerAfter_concat, hmarker, if_neg Bool.false_ne_true, h.part]
  case directory =>
    rw [directoryAfter, linesWhere_concat_of_false hpath, ← directoryAfter, h.directory]
  case keys => rw [linesWhere_concat_of_false hpath, keys_addFiles, if_pos hnamed, h.keys]
  case files =>
    rw [linesWhere_concat, getD_addFiles, h.files other, isFileOf, hfile, ← h.directory, hdir]
    simp
  case size => rw [linesWhere_concat_of_true hfile, size_addFiles, h.size, List.length_append]

/-- A line keeps what the reader holds. -/
theorem Reads.read (h : r.Reads lines) (hread : r.read line = .ok r') :
    r'.Reads (lines ++ [line.text]) := by
  rcases read_cases hread with ⟨htext, rfl⟩ | ⟨htext, rfl⟩ | ⟨hmarker, hpart, rfl⟩ |
    ⟨hmarker, hpart, dir, hdir, rfl⟩
  · exact h.marker (by rw [htext]; rfl) (by rw [htext]; rfl)
  · exact h.marker (by rw [htext]; rfl) (by rw [htext]; rfl)
  · exact h.pathLine hmarker hpart
  · exact h.fileLine hmarker hpart hdir

/-- What the reader holds after some lines is their listing. -/
theorem Reads.entries_eq (h : r.Reads lines) : r.entries.entries = listing lines := by
  have hfiles : ∀ e ∈ r.entries.entries, (e.1, linesWhere (isFileOf e.1) lines) = e := by
    intro e he
    have hget : r.entries.get? e.1 = some e.2 := OrderedMap.get?_eq_some_iff.mpr he
    rw [← h.files e.1, hget]
    rfl
  rw [listing, ← h.keys, OrderedMap.keys, List.map_map]
  exact ((List.map_congr_left hfiles).trans (List.map_id _)).symm

end Reader

/-! ### Accepted texts -/

/-- The lines of a text that are neither empty nor comments. -/
def linesOf (text : String) : List String :=
  ((numberedLines text).map Line.text).filter fun line ↦
    line != "" && !Form.startsWith line "--"

variable {p : PatternMaster} {text origin : String}

/-- An accepted text is read as the listing of the lines after its header, with a file for each line
that names one. Where no listed file has a label's name with an ending of pattern files in its own,
the candidates for the label are the listed files with its name in theirs, one for each and in
order, wherever the pattern master lies. -/
theorem listing_of_parse (h : parse text origin = .ok p) :
    ∃ lines, linesOf text = header :: lines ∧ p.path = none ∧
      p.entries.entries = listing lines ∧ p.size = (linesWhere isFileLine lines).length ∧
      ∀ (path deviceDir : Option String) (name : String),
        (∀ f ∈ p.listed, isPatternOf name f.2 = false) →
        ({ p with path } : PatternMaster).lookup name deviceDir =
          (p.listed.filter fun f ↦ contains f.2 name).map
            (PatternMaster.pathOf { p with path } deviceDir) := by
  obtain ⟨lines, hlines, h⟩ := except_bind_eq_ok_iff.mp h
  obtain ⟨r, hr, h⟩ := except_bind_eq_ok_iff.mp h
  cases h
  obtain ⟨first, hall, hfirst⟩ := afterHeader_eq_ok_iff.mp hlines
  have hreads : r.Reads (([] ++ lines).map Line.text) := by
    have hstart : Reader.Reads (([] : List Line).map Line.text) ⟨.preamble, none, .empty⟩ :=
      Reader.reads_start
    refine readLines_induction_front (P := fun front r ↦ r.Reads (front.map Line.text)) hr
      hstart fun front r r' line _ hfront hread ↦ ?_
    rw [List.map_append]
    exact hfront.read hread
  rw [List.nil_append] at hreads
  refine ⟨lines.map Line.text, ?_, rfl, hreads.entries_eq, hreads.size, ?_⟩
  · have hheader : first.text = header := by simpa using hfirst
    have hmap := congrArg (List.map Line.text) hall
    rw [linesOf, List.filter_map]
    rw [List.map_cons, hheader] at hmap
    exact hmap
  · intro path deviceDir name hpattern
    refine lookup_of_no_pattern (List.find?_eq_none.mpr fun f hf ↦ ?_)
    rw [hpattern f hf]
    exact Bool.false_ne_true

/-- Two directories, of which the first is named again. -/
def namedAgain : String :=
  "hp93000,pattern_master_file,0.1\npath:\na\nb\nfiles:\nscan\npath:\na\nfiles:\nscan2\nclk"

theorem listing_of_parse_namedAgain :
    ∃ p, parse namedAgain "p" = .ok p ∧
      p.entries.entries = [("a", ["scan2", "clk"]), ("b", ["scan"])] ∧ p.size = 3 ∧
      (∀ f ∈ p.listed, isPatternOf "scan" f.2 = false) ∧
      p.lookup "scan" none = ["a/scan2", "b/scan"] := by
  have hnumbered : numberedLines namedAgain = [⟨1, header⟩, ⟨2, "path:"⟩, ⟨3, "a"⟩, ⟨4, "b"⟩,
      ⟨5, "files:"⟩, ⟨6, "scan"⟩, ⟨7, "path:"⟩, ⟨8, "a"⟩, ⟨9, "files:"⟩, ⟨10, "scan2"⟩,
      ⟨11, "clk"⟩] := by decide +kernel
  have hok : (parse namedAgain "p").isOk = true := by
    rw [parse, hnumbered]
    decide +kernel
  obtain ⟨p, hp⟩ := exists_eq_ok_of_isOk hok
  have hlines : linesOf namedAgain = header ::
      ["path:", "a", "b", "files:", "scan", "path:", "a", "files:", "scan2", "clk"] := by
    rw [linesOf, hnumbered]
    decide +kernel
  obtain ⟨lines, hlines', hpath, hentries, hsize, hlookup⟩ := listing_of_parse hp
  rw [hlines] at hlines'
  cases hlines'
  have hlisting : p.entries.entries = [("a", ["scan2", "clk"]), ("b", ["scan"])] :=
    hentries.trans (by decide +kernel)
  have hlisted : p.listed = [("a", "scan2"), ("a", "clk"), ("b", "scan")] := by
    rw [listed, hlisting]
    rfl
  have hpattern : ∀ f ∈ p.listed, isPatternOf "scan" f.2 = false := by
    rw [hlisted]
    decide +kernel
  refine ⟨p, hp, hlisting, hsize.trans (by decide +kernel), hpattern, ?_⟩
  have hdir : ∀ f, PatternMaster.pathOf { p with path := none } none f = Path.join f.1 f.2 :=
    fun _ ↦ rfl
  have hnone : ({ p with path := none } : PatternMaster) = p := by rw [← hpath]
  have h := hlookup none none "scan" hpattern
  rw [hlisted, funext hdir, hnone] at h
  exact h.trans (by decide +kernel)

end PatternMaster

end TesterSetup
