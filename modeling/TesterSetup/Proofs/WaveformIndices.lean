import Mathlib.Data.Nat.Digits.Defs
import TesterSetup.Proofs.WaveformBlocks

/-!
# Indices of waveforms

The index of a waveform is a hexadecimal number (`hexValue`), and a waveform block keeps its
waveforms under their indices as they are written. Two spellings denote the same number when they
differ in the case of letters and in zeros in front alone (`hexValue_eq_iff`), so the waveforms of a
block are distinct as texts, but not as numbers: a further waveform is only turned away when its
index is spelled like one of the block (`TimingReader.isOk_read_waveform_iff`).
-/

set_option autoImplicit false

namespace TesterSetup

open TesterSetup.Text

/-! ### Hexadecimal numbers -/

/-- The value of a hexadecimal digit. -/
def hexDigitValue (c : Char) : Nat :=
  if isAsciiDigit c then c.toNat - '0'.toNat
  else if 'a' ≤ c then c.toNat - 'a'.toNat + 10
  else c.toNat - 'A'.toNat + 10

/-- The number that a hexadecimal numeral denotes. -/
def hexValue (index : String) : Nat :=
  Nat.ofDigits 16 (index.toList.reverse.map hexDigitValue)

/-- A hexadecimal numeral in small letters and without zeros in front. -/
def plainNumeral (index : String) : List Char :=
  (index.toList.map Char.toLower).dropWhile (· == '0')

/-- The codes of the hexadecimal digits. -/
def hexDigitCodes : List Nat :=
  List.range' 48 10 ++ List.range' 97 6 ++ List.range' 65 6

theorem toNat_mem_hexDigitCodes {c : Char} (h : Form.isHexDigit c = true) :
    c.toNat ∈ hexDigitCodes := by
  simp only [Form.isHexDigit, isAsciiDigit, Bool.or_eq_true, Bool.and_eq_true, decide_eq_true_eq,
    Char.le_def, UInt32.le_iff_toNat_le] at h
  simp only [hexDigitCodes, List.mem_append, List.mem_range'_1]
  rcases h with (h | h) | h
  · change 48 ≤ c.toNat ∧ c.toNat ≤ 57 at h
    omega
  · change 97 ≤ c.toNat ∧ c.toNat ≤ 102 at h
    omega
  · change 65 ≤ c.toNat ∧ c.toNat ≤ 70 at h
    omega

/-- What holds of the character of every code holds of every hexadecimal digit. -/
theorem of_isHexDigit {P : Char → Prop} {c : Char} (h : Form.isHexDigit c = true)
    (hall : ∀ n ∈ hexDigitCodes, P (Char.ofNat n)) : P c := by
  have hcode := hall c.toNat (toNat_mem_hexDigitCodes h)
  rwa [Char.ofNat_toNat] at hcode

section Digits

variable {c : Char}

theorem hexDigitValue_lt (h : Form.isHexDigit c = true) : hexDigitValue c < 16 :=
  of_isHexDigit (P := fun c ↦ hexDigitValue c < 16) h (by decide)

theorem isHexDigit_toLower (h : Form.isHexDigit c = true) : Form.isHexDigit c.toLower = true :=
  of_isHexDigit (P := fun c ↦ Form.isHexDigit c.toLower = true) h (by decide)

theorem hexDigitValue_toLower (h : Form.isHexDigit c = true) :
    hexDigitValue c.toLower = hexDigitValue c :=
  of_isHexDigit (P := fun c ↦ hexDigitValue c.toLower = hexDigitValue c) h (by decide)

theorem eq_zero_of_hexDigitValue (h : Form.isHexDigit c = true) :
    hexDigitValue c = 0 → c = '0' :=
  of_isHexDigit (P := fun c ↦ hexDigitValue c = 0 → c = '0') h (by decide)

theorem isWord_of_isHexDigit (h : Form.isHexDigit c = true) : isWord c = true :=
  of_isHexDigit (P := fun c ↦ isWord c = true) h (by decide)

/-- A digit in small letters is the one that its value is written with. -/
theorem digitChar_hexDigitValue (h : Form.isHexDigit c = true) :
    Nat.digitChar (hexDigitValue c.toLower) = c.toLower :=
  of_isHexDigit (P := fun c ↦ Nat.digitChar (hexDigitValue c.toLower) = c.toLower) h
    (by decide)

end Digits

/-- Zeros in front do not count. -/
theorem ofDigits_dropZeros (s : List Char) :
    Nat.ofDigits 16 ((s.dropWhile (· == '0')).reverse.map hexDigitValue) =
      Nat.ofDigits 16 (s.reverse.map hexDigitValue) := by
  induction s with
  | nil => rfl
  | cons c s ih =>
    by_cases hc : (c == '0') = true
    · have hdrop : (c :: s).dropWhile (· == '0') = s.dropWhile (· == '0') :=
        List.dropWhile_cons_of_pos hc
      rw [hdrop, ih, List.reverse_cons, List.map_append, Nat.ofDigits_append,
        eq_of_beq hc]
      simp only [List.map_singleton, Nat.ofDigits_singleton]
      have hzero : hexDigitValue '0' = 0 := by decide
      rw [hzero, Nat.mul_zero, Nat.add_zero]
    · have hdrop : (c :: s).dropWhile (· == '0') = c :: s := List.dropWhile_cons_of_neg hc
      rw [hdrop]

theorem mem_plainNumeral {index : String} (h : IsHexNumeral index) {c : Char}
    (hc : c ∈ plainNumeral index) : ∃ d, Form.isHexDigit d = true ∧ c = d.toLower := by
  obtain ⟨d, hd, rfl⟩ := List.mem_map.mp ((List.dropWhile_suffix _).subset hc)
  exact ⟨d, h.digits d hd, rfl⟩

theorem hexValue_eq_ofDigits {index : String} (h : IsHexNumeral index) :
    hexValue index = Nat.ofDigits 16 ((plainNumeral index).reverse.map hexDigitValue) := by
  have hlower : (index.toList.map Char.toLower).reverse.map hexDigitValue =
      index.toList.reverse.map hexDigitValue := by
    rw [← List.map_reverse, List.map_map]
    exact List.map_congr_left fun c hc ↦ hexDigitValue_toLower (h.digits c (List.mem_reverse.mp hc))
  rw [hexValue, plainNumeral, ofDigits_dropZeros, hlower]

/-- The digits of a plain numeral are those of its number. -/
theorem digits_hexValue {index : String} (h : IsHexNumeral index) :
    Nat.digits 16 (hexValue index) = (plainNumeral index).reverse.map hexDigitValue := by
  rw [hexValue_eq_ofDigits h]
  apply Nat.digits_ofDigits 16 (by decide)
  · intro n hn
    obtain ⟨c, hc, rfl⟩ := List.mem_map.mp hn
    obtain ⟨d, hd, rfl⟩ := mem_plainNumeral h (List.mem_reverse.mp hc)
    exact hexDigitValue_lt (isHexDigit_toLower hd)
  · intro hne
    -- the last digit is the first of the numeral, which is no zero
    have hplain : plainNumeral index ≠ [] := by
      intro hnil
      rw [hnil] at hne
      exact hne rfl
    rw [List.getLast_map, List.getLast_reverse]
    intro hvalue
    obtain ⟨d, hd, hhead⟩ := mem_plainNumeral h (List.head_mem hplain)
    have hdigit : Form.isHexDigit ((plainNumeral index).head hplain) = true :=
      hhead ▸ isHexDigit_toLower hd
    have hnot := List.head_dropWhile_not (· == '0') hplain
    exact absurd (beq_iff_eq.mpr (eq_zero_of_hexDigitValue hdigit hvalue))
      (Bool.eq_false_iff.mp hnot)

/-- A plain numeral is how its number is written. -/
theorem plainNumeral_eq {index : String} (h : IsHexNumeral index) :
    plainNumeral index = (Nat.digits 16 (hexValue index)).reverse.map Nat.digitChar := by
  rw [digits_hexValue h, ← List.map_reverse, List.reverse_reverse, List.map_map]
  refine ((List.map_congr_left fun c hc ↦ ?_).trans (List.map_id _)).symm
  obtain ⟨d, hd, rfl⟩ := mem_plainNumeral h hc
  exact digitChar_hexDigitValue hd

/-- Two spellings of an index denote the same number when they differ in the case of letters and in
zeros in front alone. -/
theorem hexValue_eq_iff {i j : String} (hi : IsHexNumeral i) (hj : IsHexNumeral j) :
    hexValue i = hexValue j ↔ plainNumeral i = plainNumeral j := by
  constructor
  · intro heq
    rw [plainNumeral_eq hi, plainNumeral_eq hj, heq]
  · intro heq
    rw [hexValue_eq_ofDigits hi, hexValue_eq_ofDigits hj, heq]

/-! ### The waveforms of a setup -/

/-- All waveforms have indices of hexadecimal digits. -/
def HasHexIndices (v : BlockView) : Prop :=
  ∀ name blocks, v.blocks name = some blocks → ∀ b ∈ blocks, ∀ w ∈ b.waveforms.items,
    IsHexNumeral w.index

namespace HasHexIndices

variable {v v' : BlockView} {line name : String} {blocks front : List WaveformBlock}
  {b b' : WaveformBlock}

theorem update (h : HasHexIndices v) {table : Option String} {inStatemap : Bool}
    (hblocks : ∀ b ∈ blocks, ∀ w ∈ b.waveforms.items, IsHexNumeral w.index) :
    HasHexIndices ⟨Function.update v.blocks name (some blocks), table, inStatemap⟩ := by
  intro other found hfound
  by_cases hother : other = name
  · subst hother
    have hself : Function.update v.blocks other (some blocks) other = some blocks :=
      Function.update_self ..
    cases hself.symm.trans hfound
    exact hblocks
  · have hold : Function.update v.blocks name (some blocks) other = v.blocks other :=
      Function.update_of_ne hother ..
    exact h other found (hold.symm.trans hfound)

theorem setOpen (h : HasHexIndices v) (hopen : v.Open name front b)
    (hb : ∀ w ∈ b'.waveforms.items, IsHexNumeral w.index) :
    HasHexIndices (v.setOpen name front b') := by
  refine h.update fun c hc ↦ ?_
  rw [List.mem_append, List.mem_singleton] at hc
  rcases hc with hc | rfl
  · exact h name _ hopen.blocks c (List.mem_append_left _ hc)
  · exact hb

/-- The indices of the block that is open. -/
theorem ofOpen (h : HasHexIndices v) (hopen : v.Open name front b) :
    ∀ w ∈ b.waveforms.items, IsHexNumeral w.index :=
  h name _ hopen.blocks b (List.mem_append_right _ (List.mem_singleton_self b))

theorem step (hstep : BlockStep v line v') (h : HasHexIndices v) : HasHexIndices v' := by
  cases hstep with
  | pass => exact h
  | statemap => exact h
  | stored _ _ _ hopen =>
    have hold := h.ofOpen hopen
    exact h.setOpen hopen hold
  | waveform _ _ hopen hindex hadd =>
    refine h.setOpen hopen fun w hw ↦ ?_
    rw [Container.items_add hadd, List.mem_append, List.mem_singleton] at hw
    rcases hw with hw | rfl
    · exact h.ofOpen hopen w hw
    · exact hindex
  | brk _ _ hopen =>
    have hold := h.ofOpen hopen
    exact h.setOpen hopen hold
  | block _ _ hblocks =>
    refine h.update fun c hc ↦ ?_
    rw [List.mem_append, List.mem_singleton] at hc
    rcases hc with hc | rfl
    · exact h _ _ hblocks c hc
    · exact nofun
  | table => exact h.update nofun
  | marker => exact h

end HasHexIndices

namespace TimingReader

variable {origin : String} {r r' : TimingReader} {lines : List Line} {line : Line}
  {index edges cycle name : String} {front : List WaveformBlock} {b : WaveformBlock}

theorem hasHexIndices_of_run (hrun : readLines origin read .start lines = .ok r) :
    HasHexIndices r.blockView := by
  have hboth : r.Consistent ∧ HasHexIndices r.blockView :=
    readLines_induction (P := fun s ↦ s.Consistent ∧ HasHexIndices s.blockView) hrun
      ⟨⟨nofun, nofun⟩, nofun⟩ fun s t line _ hs hline ↦
        ⟨consistent_read hline hs.1, hs.2.step (blockStep_read hs.1 hline)⟩
  exact hboth.2

/-! ### A further waveform -/

theorem frontWord_of_waveform? {s : List Char}
    (h : Form.waveform? s = some (index, edges, cycle)) : Form.frontWord s = index.toList := by
  obtain ⟨hindex, c, rest, hc, rfl⟩ := WaveTableLine.exists_of_waveform? h
  have hwords : index.toList.all isWord = true :=
    List.all_eq_true.mpr fun d hd ↦ isWord_of_isHexDigit (hindex.digits d hd)
  rw [Form.frontWord_append hwords, Form.frontWord_of_isBlank hc, List.append_nil]

/-- A line with an index of hexadecimal digits in front does not start with a word that has another
character. -/
theorem startsWith_eq_false_of_hex {text word : String}
    (hfront : ∀ c ∈ Form.frontWord text.toList, Form.isHexDigit c = true)
    (hword : word.toList.all isWord = true) (hother : word.toList.all Form.isHexDigit = false) :
    Form.startsWith text word = false := by
  rw [← Bool.not_eq_true, Form.startsWith, Form.isSome_strip?_iff hword]
  intro hstarts
  rw [← Bool.not_eq_true, List.all_eq_true] at hother
  exact hother fun c hc ↦ hfront c (hstarts.subset hc)

/-- A waveform line belongs to a block: the block is open, in the wave table section and outside
state maps. -/
structure TakesWaveforms (r : TimingReader) (b : WaveformBlock) : Prop where
  part : r.place.part = .wavetables
  inStatemap : r.place.inStatemap = false
  isOpen : ∃ name front, r.blockView.Open name front b

/-- A waveform line outside a state map is placed in the block that is open. -/
theorem read_waveform (htakes : r.TakesWaveforms b)
    (hform : WaveTableLine.ofText line.text = .waveform index edges cycle) :
    r.read line = r.placeWaveTableRest line.text (.waveform index edges cycle) := by
  obtain ⟨hpart, hout, -⟩ := htakes
  have hfound := WaveTableLine.found_of_ofText hform
  have hword : Form.frontWord line.text.toList = index.toList :=
    frontWord_of_waveform? hfound.waveform?_eq
  have hfront : ∀ c ∈ Form.frontWord line.text.toList, Form.isHexDigit c = true := by
    rw [hword]
    exact hfound.isHexNumeral.digits
  have hnone : ∀ word : String, word.toList.all isWord = true →
      word.toList.all Form.isHexDigit = false → Form.startsWith line.text word = false :=
    fun word ↦ startsWith_eq_false_of_hex hfront
  have hconstructs :
      unsupportedConstructs.find? (fun c ↦ Form.startsWith line.text c.1) = none := by
    have hwords : ∀ c ∈ unsupportedConstructs,
        c.1.toList.all isWord = true ∧ c.1.toList.all Form.isHexDigit = false := by
      decide
    refine List.find?_eq_none.mpr fun c hc ↦ Bool.eq_false_iff.mp ?_
    exact hnone c.1 (hwords c hc).1 (hwords c hc).2
  have hskipped : isSkipped line.text = false := by
    have hcommands : ∀ command ∈ firmwareCommands,
        command.toList.all Form.isHexDigit = false := by
      decide
    refine isSkipped_of_frontWord (hword ▸ hfound.isHexNumeral.ne_nil) fun command hcommand heq ↦ ?_
    have hall := List.all_eq_true.mpr (heq ▸ hfront)
    rw [hcommands command hcommand] at hall
    cases hall
  unfold read
  dsimp only
  rw [hconstructs, hnone "NOOP" (by decide) (by decide), hout]
  rw [if_neg Bool.false_ne_true, if_neg Bool.false_ne_true]
  unfold placeLine
  rw [hnone "EQSP" (by decide) (by decide), if_neg Bool.false_ne_true, hskipped,
    if_neg Bool.false_ne_true, hpart, hform]
  rfl

/-- Adds a waveform to a block. -/
def addWaveform (w : Waveform) (b : WaveformBlock) : LineResult WaveformBlock := do
  let waveforms ← ofModel (b.waveforms.add w)
  return { b with waveforms }

/-- A waveform line is taken exactly when no waveform of the open block has its index as a text. -/
theorem isOk_read_waveform_iff (htakes : r.TakesWaveforms b)
    (hform : WaveTableLine.ofText line.text = .waveform index edges cycle)
    (hedges : (readWaveEdges line.text edges).isOk = true) :
    (r.read line).isOk = true ↔ index ∉ b.waveforms.keys := by
  obtain ⟨waveEdges, hedges⟩ := exists_eq_ok_of_isOk hedges
  have hread : r.read line =
      r.inWaveformBlock line.text (addWaveform ⟨index, waveEdges, cycle⟩) := by
    rw [read_waveform htakes hform, placeWaveTableRest, hedges]
    rfl
  rw [hread]
  obtain ⟨-, -, name, front, hopen⟩ := htakes
  constructor
  · intro hok
    obtain ⟨r', hr'⟩ := exists_eq_ok_of_isOk hok
    obtain ⟨name', front', b', _, hb, hopen', -⟩ := blockView_inWaveformBlock hr'
    obtain rfl : b' = b := hopen'.unique hopen
    obtain ⟨waveforms, hadd, -⟩ := except_bind_eq_ok_iff.mp hb
    exact Container.key_notMem_of_add (except_mapError_eq_ok_iff.mp hadd)
  · intro hfree
    have hnew : Keyed.key (Waveform.mk index waveEdges cycle) ∉
        b.waveforms.items.map Keyed.key := hfree
    obtain ⟨waveforms, hadd, -⟩ := Container.exists_add_eq_ok hnew
    have hblock : addWaveform ⟨index, waveEdges, cycle⟩ b = .ok { b with waveforms } := by
      rw [addWaveform, hadd]
      rfl
    obtain ⟨r', hr'⟩ := exists_inWaveformBlock_eq_ok hopen hblock
    rw [hr']
    rfl

/-- A waveform line leaves no specification open. -/
theorem block_read_waveform (hr : r.Consistent) (htakes : r.TakesWaveforms b)
    (hform : WaveTableLine.ofText line.text = .waveform index edges cycle)
    (hread : r.read line = .ok r') : r'.place.block = none := by
  rw [read_waveform htakes hform] at hread
  rw [(of_placeWaveTableRest hread).block_eq, ← Option.not_isSome_iff_eq_none]
  intro hblock
  have hpart := (hr.block hblock).symm.trans htakes.part
  cases hpart

end TimingReader

namespace Timing

/-- A text with the header of an accepted text is accepted when its lines are read and end outside
specifications. -/
theorem isOk_parse_iff {text longer origin : String} {timing : Timing} {header : Line}
    {lines lines' : List Line} (hparse : parse text origin = .ok timing)
    (hlines : significantLines text = header :: lines)
    (hlonger : significantLines longer = header :: lines') :
    (parse longer origin).isOk = true ↔ ∃ r, readLines origin TimingReader.read .start lines' =
      .ok r ∧ r.place.block = none := by
  obtain ⟨found, hheader, -⟩ := except_bind_eq_ok_iff.mp hparse
  obtain ⟨first, hfirst, haccept⟩ := afterHeader_eq_ok_iff.mp hheader
  rw [hlines] at hfirst
  cases hfirst
  have hafter : afterHeader origin Timing.header (isHeader · language) (significantLines longer) =
      .ok lines' := afterHeader_eq_ok_iff.mpr ⟨header, hlonger, haccept⟩
  constructor
  · intro hok
    obtain ⟨timing', hparse'⟩ := exists_eq_ok_of_isOk hok
    obtain ⟨r, hr, hblock, -⟩ := run_of_parse hparse' hlonger
    exact ⟨r, hr, hblock⟩
  · rintro ⟨r, hr, hblock⟩
    have hfinish : r.finish origin (lines'.getLast?.getD default) = .ok r.timing := by
      rw [TimingReader.finish, hblock]
    have hparse' : parse longer origin = .ok r.timing :=
      except_bind_eq_ok_iff.mpr ⟨lines', hafter, except_bind_eq_ok_iff.mpr ⟨r, hr, hfinish⟩⟩
    rw [hparse']
    rfl

/-- In an accepted timing text the waveforms of a block have hexadecimal indices that are spelled in
different ways. Two of them denote the same number when the spellings differ in the case of letters
and in zeros in front alone. Nothing but the spellings matters: when the text ends in a block, it is
accepted with a further waveform line exactly when no waveform of the block has an index of that
spelling. -/
theorem waveform_indices (text origin : String) (timing : Timing) (header : Line)
    (lines : List Line) (hparse : parse text origin = .ok timing)
    (hlines : significantLines text = header :: lines) :
    (∀ t ∈ timing.wavetables.items, ∀ b ∈ t.blocks,
      (∀ w ∈ b.waveforms.items, IsHexNumeral w.index) ∧
      b.waveforms.items.Pairwise fun w w' ↦ w.index ≠ w'.index ∧
        (hexValue w.index = hexValue w'.index ↔
          plainNumeral w.index = plainNumeral w'.index)) ∧
    ∀ r b, readLines origin TimingReader.read .start lines = .ok r → r.TakesWaveforms b →
      ∀ longer line index edges cycle, significantLines longer = header :: (lines ++ [line]) →
        WaveTableLine.ofText line.text = .waveform index edges cycle →
        (readWaveEdges line.text edges).isOk = true →
        ((parse longer origin).isOk = true ↔ ∀ w ∈ b.waveforms.items, w.index ≠ index) := by
  constructor
  · obtain ⟨r, hrun, -, rfl⟩ := run_of_parse hparse hlines
    intro t ht b hb
    have hblocks : r.timing.blocksOf t.name = some t.blocks :=
      congrArg (Option.map WaveTable.blocks) (Container.get?_eq_some_iff.mpr ⟨ht, rfl⟩)
    have hindices := TimingReader.hasHexIndices_of_run hrun t.name t.blocks hblocks b hb
    have hdistinct : b.waveforms.items.Pairwise fun w w' ↦ w.index ≠ w'.index :=
      List.pairwise_map.mp b.waveforms.nodup
    refine ⟨hindices, hdistinct.imp_of_mem fun hw hw' hne ↦ ⟨hne, ?_⟩⟩
    exact hexValue_eq_iff (hindices _ hw) (hindices _ hw')
  · intro r b hrun htakes longer line index edges cycle hlonger hform hedges
    have hfree : index ∉ b.waveforms.keys ↔ ∀ w ∈ b.waveforms.items, w.index ≠ index := by
      rw [Container.keys, List.mem_map]
      exact not_exists.trans (forall_congr' fun w ↦ not_and)
    rw [isOk_parse_iff hparse hlines hlonger, ← hfree,
      ← TimingReader.isOk_read_waveform_iff htakes hform hedges]
    constructor
    · rintro ⟨last, hlast, -⟩
      obtain ⟨m, hm, hlast⟩ := readLines_append_eq_ok_iff.mp hlast
      cases hrun.symm.trans hm
      obtain ⟨r', hread, -⟩ := readLines_cons_eq_ok_iff.mp hlast
      rw [hread]
      rfl
    · intro hok
      obtain ⟨r', hread⟩ := exists_eq_ok_of_isOk hok
      have hlast : readLines origin TimingReader.read .start (lines ++ [line]) = .ok r' :=
        readLines_append_eq_ok_iff.mpr ⟨r, hrun, readLines_cons_eq_ok_iff.mpr ⟨r', hread, rfl⟩⟩
      exact ⟨r', hlast,
        TimingReader.block_read_waveform (TimingReader.consistent_readLines hrun) htakes hform
          hread⟩

/-- The lines of a text with one waveform, behind its header. -/
def waveformLines : List Line :=
  [⟨2, "EQSP TIM,WVT,#1"⟩, ⟨3, "WAVETBL w"⟩, ⟨4, "PINS A"⟩, ⟨5, "a \"d1:F00\" 0"⟩]

/-- A text with one waveform. -/
def waveformText : String :=
  "hp93000,timing,0.1\nEQSP TIM,WVT,#1\nWAVETBL w\nPINS A\na \"d1:F00\" 0\n"

/-- The text with a waveform under another spelling of the index. -/
def respelledText : String :=
  waveformText ++ "A \"d1:F10\" 0\n"

theorem takesWaveforms_waveformLines :
    ∃ r b, readLines "a" TimingReader.read .start waveformLines = .ok r ∧ r.TakesWaveforms b ∧
      b.waveforms.items.map Waveform.index = ["a"] :=
  ⟨_, _, rfl, ⟨rfl, rfl, "w", [], rfl, rfl⟩, rfl⟩

/-- A waveform is taken under another spelling of the index that a block has. -/
theorem waveform_indices_respelled :
    (parse respelledText "a").isOk = true ∧ hexValue "a" = hexValue "A" := by
  obtain ⟨timing, hparse⟩ : ∃ timing, parse waveformText "a" = .ok timing :=
    exists_eq_ok_of_isOk (by decide +kernel)
  have hlines : significantLines waveformText = ⟨1, "hp93000,timing,0.1"⟩ :: waveformLines := by
    decide +kernel
  have hlonger : significantLines respelledText =
      ⟨1, "hp93000,timing,0.1"⟩ :: (waveformLines ++ [⟨6, "A \"d1:F10\" 0"⟩]) := by
    decide +kernel
  obtain ⟨r, b, hrun, htakes, hkeys⟩ := takesWaveforms_waveformLines
  have hfurther := (waveform_indices _ _ _ _ _ hparse hlines).2 r b hrun htakes _ _ "A" "d1:F10" "0"
    hlonger (by decide +kernel) (by decide +kernel)
  refine ⟨hfurther.mpr fun w hw ↦ ?_, by decide +kernel⟩
  have hindex : w.index ∈ b.waveforms.items.map Waveform.index := List.mem_map_of_mem hw
  rw [hkeys, List.mem_singleton] at hindex
  rw [hindex]
  decide

/-- The waveforms of a block need not have distinct numbers. -/
theorem not_forall_hexValue_ne :
    ¬∀ (text origin : String) (timing : Timing), parse text origin = .ok timing →
      ∀ t ∈ timing.wavetables.items, ∀ b ∈ t.blocks,
        b.waveforms.items.Pairwise fun w w' ↦ hexValue w.index ≠ hexValue w'.index := by
  obtain ⟨timing, hparse, hindices⟩ : ∃ timing, parse respelledText "a" = .ok timing ∧
      (timing.wavetables.items.map fun t ↦ t.blocks.map fun b ↦
        b.waveforms.items.map Waveform.index) == [[["a", "A"]]] :=
    exists_eq_ok_of_any (by decide +kernel)
  intro hall
  obtain ⟨t, ht, hblocks⟩ := List.mem_map.mp
    (show [["a", "A"]] ∈ _ by rw [eq_of_beq hindices]; exact List.mem_singleton_self _)
  obtain ⟨b, hb, hpair⟩ := List.mem_map.mp
    (show ["a", "A"] ∈ _ by rw [hblocks]; exact List.mem_singleton_self _)
  have hdistinct : (b.waveforms.items.map Waveform.index).Pairwise fun i j ↦
      hexValue i ≠ hexValue j := List.pairwise_map.mpr (hall _ _ timing hparse t ht b hb)
  rw [hpair] at hdistinct
  exact absurd hdistinct (by decide +kernel)

end Timing

end TesterSetup
