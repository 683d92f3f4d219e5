import TesterSetup.Proofs.GrowingModels
import TesterSetup.Proofs.WrittenForms
import TesterSetup.Reader.Master

/-!
# Written indexes

A master file that was written as an index: each line names a part by its key, as it is or in
quotes, and the file that has it (`IndexedPart.WrittenAs`). Such a file is read back
(`MasterFile.parse_of_isIndex`): it has an entry for each part, in the order of the lines, as long
as no part is listed twice. The keys are the numerals of equation sets, and names without colons and
quotes.
-/

set_option autoImplicit false

namespace TesterSetup

open TesterSetup.Text

/-! ### Keys -/

/-- A key that a line can name as it is: blanks, quotes and colons would be taken for something
else. -/
structure IsPlainKey (key : String) : Prop extends HasBareEnds key.toList where
  noColon : ':' ∉ key.toList
  noQuote : '"' ∉ key.toList

/-- The spellings of a key: as it is, or in quotes. -/
def SpelledAs (key : String) (spelled : List Char) : Prop :=
  key ≠ "" ∧ spelled = key.toList ∨ spelled = inQuotes key

section Keys

variable {key : String} {spelled : List Char}

theorem isAsciiDigit_of_readDigits? {ds : List Char} {n : Nat} (h : readDigits? ds = some n) :
    ∀ c ∈ ds, isAsciiDigit c = true := by
  unfold readDigits? at h
  split at h
  · rename_i hall
    exact List.all_eq_true.mp hall.2
  · cases h

theorem mem_of_readNat? {bound n : Nat} (h : readNat? bound key = some n) :
    ∀ c ∈ key.toList, c = '+' ∨ isAsciiDigit c = true := by
  obtain ⟨hdigits, -⟩ := Option.filter_eq_some_iff.mp h
  have hall := isAsciiDigit_of_readDigits? hdigits
  split at hall
  · rename_i rest hkey
    intro c hc
    rw [hkey, List.mem_cons] at hc
    exact hc.imp_right (hall c)
  · exact fun c hc ↦ .inr (hall c hc)

/-- Numerals are plain keys. -/
theorem IsPlainKey.of_readNat? {bound n : Nat} (h : readNat? bound key = some n) :
    IsPlainKey key := by
  have hmem := mem_of_readNat? h
  have hbare : ∀ c ∈ key.toList, isBlank c = false := by
    intro c hc
    rcases hmem c hc with rfl | hdigit
    · decide
    · exact isBlank_eq_false_of_isWord (isWord_of_isAsciiDigit hdigit)
  exact {
    first := fun c hc ↦ hbare c (List.mem_of_head? hc)
    last := fun c hc ↦ hbare c (List.mem_of_getLast? hc)
    noColon := fun hc ↦ absurd (hmem _ hc) (by decide)
    noQuote := fun hc ↦ absurd (hmem _ hc) (by decide) }

theorem SpelledAs.hasBareEnds (h : SpelledAs key spelled) (hkey : IsPlainKey key) :
    HasBareEnds spelled := by
  rcases h with ⟨-, rfl⟩ | rfl
  · exact hkey.toHasBareEnds
  · exact hasBareEnds_inQuotes key

theorem SpelledAs.ne_nil (h : SpelledAs key spelled) : spelled ≠ [] := by
  rcases h with ⟨hne, rfl⟩ | rfl
  · exact fun hnil ↦ hne (String.toList_eq_nil_iff.mp hnil)
  · exact List.cons_ne_nil _ _

theorem SpelledAs.noColon (h : SpelledAs key spelled) (hkey : IsPlainKey key) :
    ':' ∉ spelled := by
  rcases h with ⟨-, rfl⟩ | rfl
  · exact hkey.noColon
  · simp [inQuotes, hkey.noColon]

/-- A key is read back from its spellings. -/
theorem SpelledAs.unquote_eq (h : SpelledAs key spelled) (hkey : IsPlainKey key) :
    unquote (String.ofList spelled) = key := by
  have hfirst : key.toList.head? ≠ some '"' := fun hc ↦ hkey.noQuote (List.mem_of_head? hc)
  have hlast : key.toList.getLast? ≠ some '"' := fun hc ↦ hkey.noQuote (List.mem_of_getLast? hc)
  rcases h with ⟨-, rfl⟩ | rfl
  · rw [String.ofList_toList]
    exact unquote_eq_self hkey.toHasBareEnds hfirst hlast
  · exact unquote_inQuotes_of_ne hkey.toHasBareEnds hfirst hlast

end Keys

/-! ### Lines -/

/-- A path that a line can name. -/
def IsPathWord (path : String) : Prop :=
  path ≠ "" ∧ ∀ c ∈ path.toList, isBlank c = false

instance (path : String) : Decidable (IsPathWord path) :=
  decidable_of_iff (path ≠ "" ∧ path.toList.all (!isBlank ·) = true) (by simp [IsPathWord])

namespace Form

variable {path : String} {blanks : List Char}

theorem dropBlanksRight_append (h : ∀ c ∈ blanks, isBlank c = true) {rest : List Char}
    (hrest : ∀ c, rest.getLast? = some c → isBlank c = false) :
    dropBlanksRight (rest ++ blanks) = rest := by
  rw [dropBlanksRight, List.reverse_append, dropWhile_append_of_head?, List.reverse_reverse]
  · exact fun c hc ↦ h c (List.mem_reverse.mp hc)
  · exact fun c hc ↦ hrest c (by rwa [List.head?_reverse] at hc)

theorem pathAfterColon?_written (hpath : IsPathWord path) (h : ∀ c ∈ blanks, isBlank c = true) :
    pathAfterColon? (':' :: (blanks ++ path.toList)) = some path := by
  have hcolon : dropBlanks (':' :: (blanks ++ path.toList)) = ':' :: (blanks ++ path.toList) :=
    dropBlanks_eq_self fun c hc ↦ by cases hc; decide
  have hfirst : dropBlanks (blanks ++ path.toList) = path.toList :=
    dropWhile_append_of_head? h fun c hc ↦ hpath.2 c (List.mem_of_head? hc)
  have hword : path.toList ≠ [] ∧ path.toList.all (fun c ↦ !isBlank c) = true := by
    refine ⟨fun hnil ↦ hpath.1 (String.toList_eq_nil_iff.mp hnil), ?_⟩
    rw [List.all_eq_true]
    exact fun c hc ↦ by rw [hpath.2 c hc]; rfl
  unfold pathAfterColon?
  rw [hcolon]
  split
  · rename_i rest heq
    cases heq
    rw [hfirst, if_pos hword, String.ofList_toList]
  · rename_i hne
    exact absurd rfl (hne _)

/-- A character of a keyword. -/
def isKeywordPart (c : Char) : Bool :=
  ('A' ≤ c && c ≤ 'Z') || c == '_'

theorem isKeywordPart_keyword (kind : EntryKind) :
    ∀ c ∈ kind.keyword.toList, isKeywordPart c = true :=
  List.all_eq_true.mp (by cases kind <;> decide +kernel)

theorem isKeywordPart_of_isBlank {c : Char} (h : isBlank c = true) : isKeywordPart c = false :=
  eq_false_of_isBlank (by decide +kernel) h

/-- The blanks between the parts of a line. -/
structure Gaps where
  afterKeyword : List Char
  beforeColon : List Char
  afterColon : List Char
  ne_nil : afterKeyword ≠ []
  blank : ∀ c ∈ afterKeyword ++ (beforeColon ++ afterColon), isBlank c = true

theorem masterEntry?_written {kind : EntryKind} {key text : String} {spelled : List Char}
    (gaps : Gaps) (hspelled : SpelledAs key spelled) (hkey : IsPlainKey key)
    (hpath : IsPathWord path)
    (htext : text.toList = kind.keyword.toList ++ (gaps.afterKeyword ++ (spelled ++
      (gaps.beforeColon ++ ':' :: (gaps.afterColon ++ path.toList))))) :
    masterEntry? text.toList = some (kind.keyword, String.ofList spelled, path) := by
  obtain ⟨afterKeyword, beforeColon, afterColon, hne, hblank⟩ := gaps
  obtain ⟨b, more, rfl⟩ := List.exists_cons_of_ne_nil hne
  simp only [List.forall_mem_append] at hblank
  obtain ⟨hafter, hbefore, hafterColon⟩ := hblank
  have hkeyword := isKeywordPart_keyword kind
  have hstop : isKeywordPart b = false := isKeywordPart_of_isBlank (hafter b List.mem_cons_self)
  have hfirst : ∀ rest c, (spelled ++ rest).head? = some c → isBlank c = false := by
    intro rest c hc
    obtain ⟨d, spelled, rfl⟩ := List.exists_cons_of_ne_nil hspelled.ne_nil
    exact (hspelled.hasBareEnds hkey).first c hc
  have hcolon : ':' ∉ spelled ++ beforeColon := by
    rw [List.mem_append, not_or]
    exact ⟨hspelled.noColon hkey, fun hc ↦ absurd (hbefore _ hc) (by decide)⟩
  have hline : text.toList = kind.keyword.toList ++ b :: (more ++ ((spelled ++ beforeColon) ++
      ':' :: (afterColon ++ path.toList))) := by
    rw [htext, List.cons_append, List.append_assoc spelled]
  have hrest : ∀ c,
      ((spelled ++ beforeColon) ++ ':' :: (afterColon ++ path.toList)).head? = some c →
        isBlank c = false := by
    rw [List.append_assoc]
    exact hfirst _
  have htakeBlanks := takeWhile_append_of_head? hafter hrest
  have hdropBlanks := dropWhile_append_of_head? hafter hrest
  rw [List.cons_append] at htakeBlanks hdropBlanks
  obtain ⟨htake, hdrop⟩ := upTo_of_notMem hcolon (afterColon ++ path.toList)
  have hspelledBack : dropBlanksRight (spelled ++ beforeColon) = spelled :=
    dropBlanksRight_append hbefore (hspelled.hasBareEnds hkey).last
  have hne : ¬(kind.keyword.toList = [] ∨ b :: more = [] ∨
      spelled = [] ∧ (b :: more).length < 2) := by
    have hkeywordNe : kind.keyword.toList ≠ [] := by cases kind <;> decide +kernel
    simp [hkeywordNe, hspelled.ne_nil]
  unfold masterEntry?
  dsimp only
  rw [hline]
  have htakeKeyword := takeWhile_upTo hkeyword hstop (more ++ ((spelled ++ beforeColon) ++
      ':' :: (afterColon ++ path.toList)))
  have hdropKeyword := dropWhile_upTo hkeyword hstop (more ++ ((spelled ++ beforeColon) ++
      ':' :: (afterColon ++ path.toList)))
  unfold isKeywordPart at htakeKeyword hdropKeyword
  rw [htakeKeyword, hdropKeyword, htakeBlanks, hdropBlanks, htake, hdrop, hspelledBack,
    pathAfterColon?_written hpath hafterColon]
  simp only [Option.bind_eq_bind, Option.bind_some, if_neg hne, String.ofList_toList]

theorem testerfile?_written {text : String} {beforeColon afterColon : List Char}
    (hbefore : ∀ c ∈ beforeColon, isBlank c = true) (hafter : ∀ c ∈ afterColon, isBlank c = true)
    (hpath : IsPathWord path) (htext : text.toList =
      "testerfile".toList ++ (beforeColon ++ ':' :: (afterColon ++ path.toList))) :
    testerfile? text.toList = some path := by
  have hcolon : dropBlanks (beforeColon ++ ':' :: (afterColon ++ path.toList)) =
      dropBlanks (':' :: (afterColon ++ path.toList)) := by
    rw [dropBlanks, List.dropWhile_append_of_pos hbefore]
    rfl
  have hread := pathAfterColon?_written hpath hafter
  unfold pathAfterColon? at hread
  unfold testerfile? pathAfterColon?
  rw [htext, strip?_append, Option.bind_eq_bind, Option.bind_some, hcolon]
  exact hread

/-- A line that starts with a keyword does not name the master file. -/
theorem testerfile?_keyword {kind : EntryKind} {s rest : List Char}
    (h : s = kind.keyword.toList ++ rest) : testerfile? s = none := by
  have hstrip : strip? "testerfile".toList s = none := by
    rw [Option.eq_none_iff_forall_ne_some]
    intro after hafter
    rw [strip?_eq_some_iff, h] at hafter
    have hhead := congrArg List.head? hafter
    cases kind <;> cases hhead
  unfold testerfile?
  rw [hstrip]
  rfl

end Form

/-! ### Parts -/

/-- A part that a master file may list. -/
inductive IndexedPart where
  | eqnset (num : Nat)
  | testdata (name : String)
  | specification (name : String)
  | wavetable (name : String)
  deriving DecidableEq, Repr

namespace IndexedPart

/-- What a part is listed as. -/
def kind : IndexedPart → EntryKind
  | .eqnset _ => .eqnset
  | .testdata _ => .testdata
  | .specification _ => .multiportSpec
  | .wavetable _ => .wavetable

/-- A text is the key of a part: a numeral of an equation set, or a name. -/
def HasKey : IndexedPart → String → Prop
  | .eqnset num, key => readNat? (widthBound 32) key = some num
  | .testdata name, key | .specification name, key | .wavetable name, key => key = name

/-- The name of a part can be listed. -/
def IsPlain : IndexedPart → Prop
  | .eqnset _ => True
  | .testdata name | .specification name | .wavetable name => IsPlainKey name

/-- A line lists a part with the file that has it. -/
def WrittenAs (part : IndexedPart) (path text : String) : Prop :=
  ∃ key spelled, ∃ gaps : Form.Gaps, part.HasKey key ∧ SpelledAs key spelled ∧
    text.toList = part.kind.keyword.toList ++ (gaps.afterKeyword ++ (spelled ++
      (gaps.beforeColon ++ ':' :: (gaps.afterColon ++ path.toList))))

/-- The entry of an equation set. -/
@[simp] def eqnset? : IndexedPart × MasterEntry → Option (Nat × MasterEntry)
  | (.eqnset num, entry) => some (num, entry)
  | _ => none

/-- The entry of test data. -/
@[simp] def testdata? : IndexedPart × MasterEntry → Option (String × MasterEntry)
  | (.testdata name, entry) => some (name, entry)
  | _ => none

/-- The entry of a specification. -/
@[simp] def specification? : IndexedPart × MasterEntry → Option (String × MasterEntry)
  | (.specification name, entry) => some (name, entry)
  | _ => none

/-- The entry of a wave table. -/
@[simp] def wavetable? : IndexedPart × MasterEntry → Option (String × MasterEntry)
  | (.wavetable name, entry) => some (name, entry)
  | _ => none

theorem isPlainKey {part : IndexedPart} {key : String} (hplain : part.IsPlain)
    (hkey : part.HasKey key) : IsPlainKey key := by
  cases part with
  | eqnset num => exact .of_readNat? hkey
  | testdata name => exact hkey ▸ hplain
  | specification name => exact hkey ▸ hplain
  | wavetable name => exact hkey ▸ hplain

end IndexedPart

/-- Lines list parts with the files that have them. In between, the master file may be named. -/
inductive Lists : List Line → List (IndexedPart × MasterEntry) → Prop
  | nil : Lists [] []
  | testerfile {line : Line} {lines : List Line} {items : List (IndexedPart × MasterEntry)}
      {path : String} {beforeColon afterColon : List Char}
      (hbefore : ∀ c ∈ beforeColon, isBlank c = true)
      (hafter : ∀ c ∈ afterColon, isBlank c = true) (hpath : IsPathWord path)
      (htext : line.text.toList =
        "testerfile".toList ++ (beforeColon ++ ':' :: (afterColon ++ path.toList)))
      (hrest : Lists lines items) : Lists (line :: lines) items
  | entry {line : Line} {lines : List Line} {items : List (IndexedPart × MasterEntry)}
      {part : IndexedPart} {path : String} (htext : part.WrittenAs path line.text)
      (hrest : Lists lines items) : Lists (line :: lines) ((part, ⟨path, line.number⟩) :: items)

/-- The text of a master file that lists parts. -/
def MasterKind.IsIndex (kind : MasterKind) (text : String)
    (items : List (IndexedPart × MasterEntry)) : Prop :=
  ∃ header lines, significantLines text = header :: lines ∧ header.text = kind.header ∧
    Lists lines items

namespace MasterFile

/-- A master file has the entries of some parts. -/
structure Indexes (m : MasterFile) (items : List (IndexedPart × MasterEntry)) : Prop where
  eqnsets : m.eqnsets.entries = items.filterMap IndexedPart.eqnset?
  testdata : m.testdata.entries = items.filterMap IndexedPart.testdata?
  multiportSpecs : m.multiportSpecs.entries = items.filterMap IndexedPart.specification?
  wavetables : m.wavetables.entries = items.filterMap IndexedPart.wavetable?

namespace Indexes

variable {m : MasterFile} {items : List (IndexedPart × MasterEntry)} {entry : MasterEntry}

theorem mem_of_eqnsets {num : Nat} (h : m.Indexes items) (hmem : (num, entry) ∈ m.eqnsets.entries) :
    (.eqnset num, entry) ∈ items := by
  rw [h.eqnsets, List.mem_filterMap] at hmem
  obtain ⟨⟨_ | _ | _ | _, _⟩, hitem, ⟨⟩⟩ := hmem
  exact hitem

theorem mem_of_wavetables {name : String} (h : m.Indexes items)
    (hmem : (name, entry) ∈ m.wavetables.entries) : (.wavetable name, entry) ∈ items := by
  rw [h.wavetables, List.mem_filterMap] at hmem
  obtain ⟨⟨_ | _ | _ | _, _⟩, hitem, ⟨⟩⟩ := hmem
  exact hitem

theorem mem_of_multiportSpecs {name : String} (h : m.Indexes items)
    (hmem : (name, entry) ∈ m.multiportSpecs.entries) : (.specification name, entry) ∈ items := by
  rw [h.multiportSpecs, List.mem_filterMap] at hmem
  obtain ⟨⟨_ | _ | _ | _, _⟩, hitem, ⟨⟩⟩ := hmem
  exact hitem

end Indexes

section Adding

variable {m : MasterFile} {items : List (IndexedPart × MasterEntry)} {part : IndexedPart}
  {key text : String} {entry : MasterEntry}

/-- An entry is written behind the others of its kind, if its part is not listed yet. -/
theorem exists_addEntry {κ : Type} [DecidableEq κ] {entries : OrderedMap κ MasterEntry} {k : κ}
    {ofKind : IndexedPart × MasterEntry → Option (κ × MasterEntry)} (kind : EntryKind)
    (key : String) (entry : MasterEntry) (hentries : entries.entries = items.filterMap ofKind)
    (hkind : ∀ item e, ofKind item = some (k, e) → item.1 = part)
    (hnew : part ∉ items.map Prod.fst) :
    ∃ entries', addEntry kind key entries k entry = .ok entries' ∧
      entries'.entries = items.filterMap ofKind ++ [(k, entry)] := by
  have hfree : k ∉ entries.keys := by
    intro hmem
    rw [OrderedMap.keys, hentries] at hmem
    obtain ⟨⟨_, e⟩, hitem, rfl⟩ := List.mem_map.mp hmem
    obtain ⟨item, hitem, hsome⟩ := List.mem_filterMap.mp hitem
    exact hnew (List.mem_map.mpr ⟨item, hitem, hkind item e hsome⟩)
  refine ⟨entries.insert k entry, ?_, ?_⟩
  · rw [addEntry, if_neg]
    rwa [OrderedMap.contains_iff]
  · rw [OrderedMap.entries_insert_of_notMem hfree, hentries]

/-- A part that is not listed yet gets its entry. -/
theorem Indexes.exists_add (h : m.Indexes items) (text : String) (entry : MasterEntry)
    (hkey : part.HasKey key) (hnew : part ∉ items.map Prod.fst) :
    ∃ m', m.add text key entry part.kind = .ok m' ∧ m'.Indexes (items ++ [(part, entry)]) := by
  obtain ⟨heqnsets, htestdata, hspecifications, hwavetables⟩ := h
  cases part with
  | eqnset num =>
    obtain ⟨eqnsets, hadd, hentries⟩ := exists_addEntry (k := num) .eqnset key entry heqnsets
      (by rintro ⟨_ | _ | _ | _, _⟩ e ⟨⟩; rfl) hnew
    refine ⟨{ m with eqnsets }, ?_, ?_⟩
    · have hnum : readNat? (widthBound 32) key = some num := hkey
      unfold MasterFile.add IndexedPart.kind
      dsimp only
      rw [hnum]
      dsimp only
      rw [hadd]
      rfl
    · constructor <;> simp [*]
  | testdata name =>
    obtain rfl := hkey
    obtain ⟨testdata, hadd, hentries⟩ := exists_addEntry (k := key) .testdata key entry htestdata
      (by rintro ⟨_ | _ | _ | _, _⟩ e ⟨⟩; rfl) hnew
    refine ⟨{ m with testdata }, ?_, ?_⟩
    · change (addEntry .testdata key m.testdata key entry >>= _) = _
      rw [hadd]
      rfl
    · constructor <;> simp [*]
  | specification name =>
    obtain rfl := hkey
    obtain ⟨multiportSpecs, hadd, hentries⟩ := exists_addEntry (k := key) .multiportSpec key entry
      hspecifications (by rintro ⟨_ | _ | _ | _, _⟩ e ⟨⟩; rfl) hnew
    refine ⟨{ m with multiportSpecs }, ?_, ?_⟩
    · change (addEntry .multiportSpec key m.multiportSpecs key entry >>= _) = _
      rw [hadd]
      rfl
    · constructor <;> simp [*]
  | wavetable name =>
    obtain rfl := hkey
    obtain ⟨wavetables, hadd, hentries⟩ := exists_addEntry (k := key) .wavetable key entry
      hwavetables (by rintro ⟨_ | _ | _ | _, _⟩ e ⟨⟩; rfl) hnew
    refine ⟨{ m with wavetables }, ?_, ?_⟩
    · change (addEntry .wavetable key m.wavetables key entry >>= _) = _
      rw [hadd]
      rfl
    · constructor <;> simp [*]

end Adding

/-! ### Texts -/

section Reading

variable {kind : MasterKind} {m : MasterFile} {part : IndexedPart} {path : String} {line : Line}
  {lines : List Line} {done items : List (IndexedPart × MasterEntry)}

/-- A line that lists a part adds its entry. -/
theorem Indexes.exists_place (h : m.Indexes done) (hkind : part.kind ∈ kind.entryKinds)
    (hplain : part.IsPlain) (hpath : IsPathWord path) (hnew : part ∉ done.map Prod.fst)
    (htext : part.WrittenAs path line.text) :
    ∃ m', place kind m line = .ok m' ∧ m'.Indexes (done ++ [(part, ⟨path, line.number⟩)]) := by
  obtain ⟨key, spelled, gaps, hkey, hspelled, htext⟩ := htext
  have hplainKey := IndexedPart.isPlainKey hplain hkey
  obtain ⟨m', hadd, hm'⟩ := h.exists_add line.text ⟨path, line.number⟩ hkey hnew
  refine ⟨m', ?_, hm'⟩
  have hfind : kind.entryKinds.find? (fun e ↦ e.keyword == part.kind.keyword) =
      some part.kind := by
    revert hkind
    cases kind <;> cases part.kind <;> decide
  unfold place
  dsimp only
  rw [Form.testerfile?_keyword htext,
    Form.masterEntry?_written gaps hspelled hplainKey hpath htext]
  dsimp only
  rw [hfind]
  dsimp only
  rw [hspelled.unquote_eq hplainKey, hadd]

/-- Lines that list parts are read, and each part gets its entry. -/
theorem Indexes.exists_readLines (origin : String) (hlines : Lists lines items)
    (h : m.Indexes done) (hitems : ∀ item ∈ items, item.1.kind ∈ kind.entryKinds ∧
      item.1.IsPlain ∧ IsPathWord item.2.path)
    (hdistinct : ((done ++ items).map Prod.fst).Nodup) :
    ∃ m', readLines origin (place kind) m lines = .ok m' ∧ m'.Indexes (done ++ items) := by
  induction hlines generalizing m done with
  | nil => exact ⟨m, rfl, by rwa [List.append_nil]⟩
  | @testerfile line lines items path beforeColon afterColon hbefore hafter hpath htext _ ih =>
    have hplace : place kind m line = .ok { m with testerfile := some path } := by
      unfold place
      dsimp only
      rw [Form.testerfile?_written hbefore hafter hpath htext]
    have hnamed : { m with testerfile := some path }.Indexes done :=
      ⟨h.eqnsets, h.testdata, h.multiportSpecs, h.wavetables⟩
    obtain ⟨m', hread, hm'⟩ := ih hnamed hitems hdistinct
    exact ⟨m', readLines_cons_eq_ok_iff.mpr ⟨_, hplace, hread⟩, hm'⟩
  | @entry line lines items part path htext _ ih =>
    rw [List.forall_mem_cons] at hitems
    obtain ⟨⟨hkind, hplain, hpath⟩, hitems⟩ := hitems
    have hnew : part ∉ done.map Prod.fst := by
      rw [List.map_append, List.nodup_append] at hdistinct
      exact fun hmem ↦ hdistinct.2.2 _ hmem _ List.mem_cons_self rfl
    rw [List.append_cons] at hdistinct ⊢
    obtain ⟨m₁, hplace, hm₁⟩ := h.exists_place hkind hplain hpath hnew htext
    obtain ⟨m', hread, hm'⟩ := ih hm₁ hitems hdistinct
    exact ⟨m', readLines_cons_eq_ok_iff.mpr ⟨m₁, hplace, hread⟩, hm'⟩

/-- The text of a master file that lists parts is read, and each part gets its entry. -/
theorem parse_of_isIndex {text : String} (origin : String) (h : kind.IsIndex text items)
    (hitems : ∀ item ∈ items, item.1.kind ∈ kind.entryKinds ∧ item.1.IsPlain ∧
      IsPathWord item.2.path)
    (hdistinct : (items.map Prod.fst).Nodup) :
    ∃ m, parse kind text origin = .ok m ∧ m.Indexes items := by
  obtain ⟨header, lines, htext, hheader, hlines⟩ := h
  have hafter : afterHeader origin kind.header (· == kind.header) (significantLines text) =
      .ok lines :=
    afterHeader_eq_ok_iff.mpr ⟨header, htext, beq_iff_eq.mpr hheader⟩
  have hempty : empty.Indexes [] := ⟨rfl, rfl, rfl, rfl⟩
  obtain ⟨m, hread, hm⟩ := hempty.exists_readLines origin hlines hitems hdistinct
  refine ⟨m, ?_, hm⟩
  unfold parse
  rw [hafter]
  exact hread

end Reading

end MasterFile

end TesterSetup
