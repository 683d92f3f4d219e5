import TesterSetup.Proofs.ExactNumeral
import TesterSetup.Proofs.LineForms
import TesterSetup.Text.Lines

/-!
# Written lines

What a text that was put together from lines is read as. Lines that carry something on both ends
(`IsLine`) are read back from the text that `joinLines` makes of them, and what follows the last of
them is read on its own (`lines_joinLines`). A line that is put together from a keyword, numerals and
fields is taken apart at the same places: a keyword ends at its blank (`afterKeyword?_written`), a
number at its last digit (`readNat?_digitsOf`).
-/

set_option autoImplicit false

namespace TesterSetup

namespace Text

/-! ### Trimmed texts -/

/-- A text that neither starts nor ends with a blank. -/
structure HasBareEnds (s : List Char) : Prop where
  first : ∀ c, s.head? = some c → isBlank c = false
  last : ∀ c, s.getLast? = some c → isBlank c = false

theorem dropWhile_eq_self {p : Char → Bool} {s : List Char}
    (h : ∀ c, s.head? = some c → p c = false) : s.dropWhile p = s := by
  cases s with
  | nil => rfl
  | cons c s => exact List.dropWhile_cons_of_neg (by simp [h c rfl])

theorem dropBlanks_eq_self {s : List Char} (h : ∀ c, s.head? = some c → isBlank c = false) :
    dropBlanks s = s :=
  dropWhile_eq_self h

theorem dropBlanksRight_eq_self {s : List Char}
    (h : ∀ c, s.getLast? = some c → isBlank c = false) : dropBlanksRight s = s := by
  have hreverse : dropBlanks s.reverse = s.reverse :=
    dropBlanks_eq_self fun c hc ↦ h c (by rwa [List.head?_reverse] at hc)
  unfold dropBlanksRight
  rw [← dropBlanks, hreverse, List.reverse_reverse]

/-- The blanks at the end of a text stand behind each character that is not blank. -/
theorem dropBlanksRight_append_cons {c : Char} (h : isBlank c = false) (s t : List Char) :
    dropBlanksRight (s ++ c :: t) = s ++ c :: dropBlanksRight t := by
  have hrest : (c :: s.reverse).dropWhile isBlank = c :: s.reverse :=
    List.dropWhile_cons_of_neg (Bool.eq_false_iff.mp h)
  have hdrop : (t.reverse ++ c :: s.reverse).dropWhile isBlank =
      t.reverse.dropWhile isBlank ++ c :: s.reverse := by
    rw [List.dropWhile_append, hrest]
    split
    · rename_i hnil
      rw [List.isEmpty_iff.mp hnil, List.nil_append]
    · rfl
  rw [dropBlanksRight, List.reverse_append, List.reverse_cons, List.append_assoc,
    List.singleton_append, hdrop, List.reverse_append, List.reverse_cons, List.reverse_reverse,
    List.append_assoc]
  rfl

theorem mem_of_mem_dropBlanksRight {c : Char} {s : List Char} (h : c ∈ dropBlanksRight s) : c ∈ s :=
  List.mem_reverse.mp ((List.dropWhile_sublist isBlank).mem (List.mem_reverse.mp h))

theorem trim_eq_self {s : List Char} (h : HasBareEnds s) : trim s = s := by
  rw [trim, dropBlanks_eq_self h.first, dropBlanksRight_eq_self h.last]

theorem trimmed_eq_self {s : String} (h : HasBareEnds s.toList) : trimmed s = s := by
  rw [trimmed, trim_eq_self h, String.ofList_toList]

theorem hasBareEnds_concat {first last : Char} {middle : List Char} (hfirst : isBlank first = false)
    (hlast : isBlank last = false) : HasBareEnds (first :: middle ++ [last]) where
  first c hc := by
    cases hc
    exact hfirst
  last c hc := by
    cases List.getLast?_concat.symm.trans hc
    exact hlast

theorem trim_eq_nil {s : List Char} (h : ∀ c ∈ s, isBlank c = true) : trim s = [] := by
  have hdrop : dropBlanks s = [] := List.dropWhile_eq_nil_iff.mpr h
  rw [trim, hdrop]
  rfl

theorem head?_dropBlanks {s : List Char} {c : Char} (h : (dropBlanks s).head? = some c) :
    isBlank c = false := by
  have hstop := List.head?_dropWhile_not isBlank s
  rw [← dropBlanks, h] at hstop
  simpa using hstop

theorem trim_prefix (s : List Char) : trim s <+: dropBlanks s := by
  rw [trim, dropBlanksRight, ← List.reverse_suffix, List.reverse_reverse]
  exact List.dropWhile_suffix _

/-- What is left of a text without the blanks on both sides. -/
theorem hasBareEnds_trim (s : List Char) : HasBareEnds (trim s) where
  first c hc := by
    obtain ⟨more, hmore⟩ := trim_prefix s
    refine head?_dropBlanks (s := s) ?_
    rw [← hmore, List.head?_append, hc, Option.some_or]
  last c hc := by
    rw [trim, dropBlanksRight, List.getLast?_reverse] at hc
    exact head?_dropBlanks hc

/-- A text is what is left of it, with blanks on both sides. -/
theorem exists_eq_trim_append (s : List Char) :
    ∃ lead trail, s = lead ++ (trim s ++ trail) ∧ (∀ c ∈ lead, isBlank c = true) ∧
      ∀ c ∈ trail, isBlank c = true := by
  have htrail : trim s ++ ((dropBlanks s).reverse.takeWhile isBlank).reverse = dropBlanks s := by
    rw [trim, dropBlanksRight, ← List.reverse_append, List.takeWhile_append_dropWhile,
      List.reverse_reverse]
  refine ⟨s.takeWhile isBlank, ((dropBlanks s).reverse.takeWhile isBlank).reverse, ?_,
    fun c hc ↦ List.mem_takeWhile_imp hc,
    fun c hc ↦ List.mem_takeWhile_imp (List.mem_reverse.mp hc)⟩
  rw [htrail]
  exact List.takeWhile_append_dropWhile.symm

/-- The lines of a text that carry something are trimmed. -/
theorem hasBareEnds_of_mem_significantLines {text : String} {line : Line}
    (h : line ∈ significantLines text) : HasBareEnds line.text.toList := by
  obtain ⟨⟨s, number⟩, -, rfl⟩ := List.mem_map.mp (List.mem_filter.mp h).1
  rw [String.toList_ofList]
  exact hasBareEnds_trim s

theorem hasBareEnds_of_trim_eq_self {s : List Char} (h : trim s = s) : HasBareEnds s :=
  h ▸ hasBareEnds_trim s

instance (s : List Char) : Decidable (HasBareEnds s) :=
  decidable_of_iff (trim s = s) ⟨hasBareEnds_of_trim_eq_self, trim_eq_self⟩

/-! ### Texts of lines -/

/-- A line that carries something on both ends and has no line end within. -/
structure IsLine (l : List Char) : Prop extends HasBareEnds l where
  ne_nil : l ≠ []
  noBreak : '\n' ∉ l

/-- The text of some lines, with a line end between any two. -/
def joinLines (ls : List (List Char)) : List Char :=
  ['\n'].intercalate ls

/-- A line, up to its end. -/
theorem lines_append {l : List Char} (hbreak : '\n' ∉ l) (hreturn : l.getLast? ≠ some '\r')
    (rest : List Char) : lines (l ++ '\n' :: rest) = l :: lines rest := by
  induction l with
  | nil => simp [lines]
  | cons c l ih =>
    rw [List.mem_cons, not_or] at hbreak
    have hrest : lines (l ++ '\n' :: rest) = l :: lines rest := by
      refine ih hbreak.2 fun hlast ↦ hreturn ?_
      rw [List.getLast?_cons, hlast, Option.getD_some]
    -- a carriage return that is followed by a line feed would be the last character of the line
    have hpair : ∀ more, c = '\r' → l ++ '\n' :: rest = '\n' :: more → False := by
      intro more hc hmore
      cases l with
      | nil => exact hreturn (by rw [hc]; rfl)
      | cons d l =>
        cases hmore
        exact hbreak.2 List.mem_cons_self
    rw [List.cons_append, lines.eq_4 c _ (Ne.symm hbreak.1) hpair, hrest]

/-- There is no line end within a line. -/
theorem noBreak_of_mem_lines {s l : List Char} (h : l ∈ lines s) : '\n' ∉ l := by
  fun_induction lines s generalizing l with
  | case1 => cases h
  | case2 rest ih =>
    rcases List.mem_cons.mp h with rfl | h
    · exact List.not_mem_nil
    · exact ih h
  | case3 rest ih =>
    rcases List.mem_cons.mp h with rfl | h
    · exact List.not_mem_nil
    · exact ih h
  | case4 c rest hbreak hpair hrest ih =>
    rw [List.mem_singleton.mp h, List.mem_singleton]
    exact fun hc ↦ hbreak hc.symm
  | case5 c rest hbreak hpair line more hrest ih =>
    rw [hrest] at ih
    rcases List.mem_cons.mp h with rfl | h
    · rw [List.mem_cons, not_or]
      exact ⟨fun hc ↦ hbreak hc.symm, ih List.mem_cons_self⟩
    · exact ih (List.mem_cons_of_mem _ h)

theorem lines_last {l : List Char} (hne : l ≠ []) (hbreak : '\n' ∉ l) : lines l = [l] := by
  induction l with
  | nil => exact absurd rfl hne
  | cons c l ih =>
    rw [List.mem_cons, not_or] at hbreak
    have hpair : ∀ more, c = '\r' → l = '\n' :: more → False := by
      rintro more - rfl
      exact hbreak.2 List.mem_cons_self
    rw [lines.eq_4 c _ (Ne.symm hbreak.1) hpair]
    by_cases hl : l = []
    · rw [hl]
      rfl
    · rw [ih hl hbreak.2]

/-- The lines of a text are those it was made of, and those of what follows the end of the last. -/
theorem lines_joinLines {ls : List (List Char)} {tail : List Char} (hls : ∀ l ∈ ls, IsLine l)
    (hne : ls ≠ []) (htail : tail = [] ∨ ∃ more, tail = '\n' :: more) :
    lines (joinLines ls ++ tail) = ls ++ lines tail.tail := by
  have hreturn : ∀ {l : List Char}, IsLine l → l.getLast? ≠ some '\r' := by
    intro l hl hlast
    exact absurd (hl.last _ hlast) (by decide)
  unfold joinLines
  induction ls with
  | nil => exact absurd rfl hne
  | cons l ls ih =>
    have hl : IsLine l := hls l List.mem_cons_self
    cases ls with
    | nil =>
      rw [List.intercalate_singleton]
      rcases htail with rfl | ⟨more, rfl⟩
      · rw [List.append_nil, lines_last hl.ne_nil hl.noBreak]
        rfl
      · exact lines_append hl.noBreak (hreturn hl) more
    | cons l' ls =>
      rw [List.intercalate_cons_cons, List.append_assoc, List.append_assoc, List.singleton_append,
        lines_append hl.noBreak (hreturn hl),
        ih (fun m hm ↦ hls m (List.mem_cons_of_mem _ hm)) (List.cons_ne_nil _ _)]
      rfl

/-- The first line of a text holds nothing but the blanks that stand before the first line end. -/
theorem isBlank_of_mem_firstLine {blanks rest : List Char} (hblanks : ∀ c ∈ blanks, isBlank c = true)
    (hrest : rest = [] ∨ ∃ more, rest = '\n' :: more) {line : List Char}
    (hline : (lines (blanks ++ rest)).head? = some line) : ∀ c ∈ line, isBlank c = true := by
  induction blanks generalizing line with
  | nil =>
    rcases hrest with rfl | ⟨more, rfl⟩
    · cases hline
    · rw [List.nil_append, lines] at hline
      cases hline
      simp
  | cons d blanks ih =>
    rw [List.forall_mem_cons] at hblanks
    have htail := @ih hblanks.2
    rw [List.cons_append] at hline
    generalize blanks ++ rest = more at hline htail
    unfold lines at hline
    split at hline
    · cases hline
    · cases hline
      simp
    · cases hline
      simp
    · rename_i heq
      cases heq
      split at hline
      · cases hline
        simpa using hblanks.1
      · rename_i first others hfirst
        cases hline
        rw [List.forall_mem_cons]
        exact ⟨hblanks.1, htail (by rw [hfirst]; rfl)⟩

theorem texts_numberedLines (text : String) :
    (numberedLines text).map Line.text =
      (lines text.toList).map fun l ↦ String.ofList (trim l) := by
  unfold numberedLines
  rw [List.map_map]
  calc ((lines text.toList).zipIdx 1).map
        (Line.text ∘ fun p ↦ ⟨p.2, String.ofList (trim p.1)⟩)
      = (((lines text.toList).zipIdx 1).map Prod.fst).map fun l ↦ String.ofList (trim l) := by
        rw [List.map_map]
        rfl
    _ = (lines text.toList).map fun l ↦ String.ofList (trim l) := by
        rw [List.zipIdx_map_fst]

/-- The numbered lines of a text carry the lines it was made of. -/
theorem texts_numberedLines_joinLines {ls : List (List Char)} {tail : List Char}
    (hls : ∀ l ∈ ls, IsLine l) (hne : ls ≠ []) (htail : tail = [] ∨ ∃ more, tail = '\n' :: more) :
    (numberedLines (String.ofList (joinLines ls ++ tail))).map Line.text =
      ls.map String.ofList ++ (lines tail.tail).map fun l ↦ String.ofList (trim l) := by
  have hlines : ls.map (fun l ↦ String.ofList (trim l)) = ls.map String.ofList :=
    List.map_congr_left fun l hl ↦ by rw [trim_eq_self (hls l hl).toHasBareEnds]
  rw [texts_numberedLines, String.toList_ofList, lines_joinLines hls hne htail, List.map_append,
    hlines]

/-- The significant lines of a text are those it was made of when each of them carries something. -/
theorem texts_significantLines_joinLines {ls : List (List Char)} {tail : List Char}
    (hls : ∀ l ∈ ls, IsLine l) (hsignificant : ∀ l ∈ ls, isSignificant (String.ofList l) = true)
    (hne : ls ≠ []) (htail : tail = [] ∨ tail = ['\n']) :
    (significantLines (String.ofList (joinLines ls ++ tail))).map Line.text =
      ls.map String.ofList := by
  have hbreak : tail = [] ∨ ∃ more, tail = '\n' :: more := htail.imp id fun h ↦ ⟨[], h⟩
  have htexts := texts_numberedLines_joinLines hls hne hbreak
  have hnone : lines tail.tail = [] := by
    rcases htail with rfl | rfl <;> rfl
  rw [hnone, List.map_nil, List.append_nil] at htexts
  have hfilter : ∀ ms : List Line, (ms.filter fun m ↦ isSignificant m.text).map Line.text =
      (ms.map Line.text).filter isSignificant := by
    intro ms
    rw [List.filter_map]
    rfl
  rw [significantLines, hfilter, htexts, List.filter_eq_self, List.forall_mem_map]
  exact hsignificant

/-! ### Parts of a line -/

section UpTo

variable {p : Char → Bool} {s : List Char} {stop : Char}

/-- The characters of a kind up to one that is not. -/
theorem takeWhile_upTo (hs : ∀ c ∈ s, p c = true) (hstop : p stop = false) (rest : List Char) :
    (s ++ stop :: rest).takeWhile p = s := by
  rw [List.takeWhile_append_of_pos hs, List.takeWhile_cons_of_neg (by simp [hstop]),
    List.append_nil]

theorem dropWhile_upTo (hs : ∀ c ∈ s, p c = true) (hstop : p stop = false) (rest : List Char) :
    (s ++ stop :: rest).dropWhile p = stop :: rest := by
  rw [List.dropWhile_append_of_pos hs, List.dropWhile_cons_of_neg (by simp [hstop])]

theorem takeWhile_append_of_head? {rest : List Char} (hs : ∀ c ∈ s, p c = true)
    (hrest : ∀ c, rest.head? = some c → p c = false) :
    (s ++ rest).takeWhile p = s := by
  cases rest with
  | nil => rw [List.append_nil, List.takeWhile_eq_self_iff.mpr hs]
  | cons c rest => exact takeWhile_upTo hs (hrest c rfl) rest

theorem dropWhile_append_of_head? {rest : List Char} (hs : ∀ c ∈ s, p c = true)
    (hrest : ∀ c, rest.head? = some c → p c = false) :
    (s ++ rest).dropWhile p = rest := by
  rw [List.dropWhile_append_of_pos hs, dropWhile_eq_self hrest]

/-- The first place of a character is found by passing over all others. -/
theorem upTo_of_notMem (h : stop ∉ s) (rest : List Char) :
    (s ++ stop :: rest).takeWhile (· != stop) = s ∧
      (s ++ stop :: rest).dropWhile (· != stop) = stop :: rest := by
  have hall : ∀ c ∈ s, (c != stop) = true := by
    intro c hc
    rw [bne_iff_ne]
    exact ne_of_mem_of_not_mem hc h
  exact ⟨takeWhile_upTo hall (by simp) rest, dropWhile_upTo hall (by simp) rest⟩

end UpTo

theorem isBlank_eq_false_of_isWord {c : Char} (h : isWord c = true) : isBlank c = false := by
  by_contra hblank
  rw [Bool.not_eq_false] at hblank
  rw [isWord_eq_false_of_isBlank hblank] at h
  cases h

/-- A text that starts with a word does not start with a blank. -/
theorem isBlank_head?_append {s : List Char} (hne : s ≠ []) (hs : s.all isWord = true)
    (rest : List Char) : ∀ c, (s ++ rest).head? = some c → isBlank c = false := by
  intro c hc
  cases s with
  | nil => exact absurd rfl hne
  | cons d s =>
    obtain rfl : d = c := Option.some.inj hc
    exact isBlank_eq_false_of_isWord (List.all_eq_true.mp hs d List.mem_cons_self)

/-! ### Numerals -/

theorem isAsciiDigit_of_mem_digitsOf {n : Nat} {c : Char} (h : c ∈ Decimal.digitsOf n) :
    isAsciiDigit c = true :=
  Nat.isDigit_of_mem_toDigits (by decide) (by decide) h

theorem isWord_of_isAsciiDigit {c : Char} (h : isAsciiDigit c = true) : isWord c = true := by
  have hlt : c.toNat < 0x80 := by
    simp only [isAsciiDigit, Bool.and_eq_true, decide_eq_true_eq, Char.le_def] at h
    exact Nat.lt_of_le_of_lt (UInt32.le_iff_toNat_le.mp h.2) (by decide)
  simp [isWord, hlt, isAsciiWord, h]

theorem digitsOf_ne_nil (n : Nat) : Decimal.digitsOf n ≠ [] :=
  Nat.toDigits_ne_nil

/-- A number is read back from its digits. -/
theorem readNat?_digitsOf {bound n : Nat} (h : n < bound) :
    readNat? bound (String.ofList (Decimal.digitsOf n)) = some n := by
  have hdigits : ∀ c ∈ Decimal.digitsOf n, isAsciiDigit c = true :=
    fun c hc ↦ isAsciiDigit_of_mem_digitsOf hc
  have hread : readDigits? (Decimal.digitsOf n) = some n := by
    rw [readDigits?, if_pos ⟨digitsOf_ne_nil n, List.all_eq_true.mpr hdigits⟩,
      Decimal.digitsValue_digitsOf]
  unfold readNat?
  rw [String.toList_ofList]
  dsimp only
  split
  · rename_i rest heq
    exact absurd (hdigits '+' (heq ▸ List.mem_cons_self)) (by decide)
  · rw [hread]
    simp [Option.filter, h]

end Text

open TesterSetup.Text

/-! ### Keywords and fields -/

namespace Form

theorem strip?_append (key s : List Char) : strip? key (key ++ s) = some s :=
  strip?_eq_some_iff.mpr rfl

/-- A keyword, a space, and what follows. -/
theorem afterKeyword?_written (keyword : String) {s : List Char}
    (h : ∀ c, s.head? = some c → isBlank c = false) :
    afterKeyword? keyword (keyword.toList ++ ' ' :: s) = some s := by
  have hspace : isBlank ' ' = true := by decide
  unfold afterKeyword?
  rw [strip?_append]
  dsimp only
  rw [if_pos hspace, dropBlanks_eq_self h]

theorem quoted?_append {s : List Char} (h : '"' ∉ s) (rest : List Char) :
    quoted? ('"' :: (s ++ '"' :: rest)) = some (s, rest) := by
  obtain ⟨htake, hdrop⟩ := upTo_of_notMem h rest
  simp [quoted?, htake, hdrop]

end Form

end TesterSetup
