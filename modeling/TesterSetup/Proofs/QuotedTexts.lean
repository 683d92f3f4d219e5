import TesterSetup.Toml.Quoted

/-!
# Texts that stand in quotes as they are

Which texts a document can hold in double quotes without escapes. A character stands for itself
there if it is plain and neither a quote nor a backslash (`Toml.IsItself`). A text of such
characters is read back (`Toml.quoted?_append`). Conversely what stands in the quotes spells its
text piece by piece, a character for itself or an escape of several characters for one
(`Toml.Spells`, `Toml.spells_of_basic?`), so it is never shorter than the text, and if it is not
longer, the two are the same (`Toml.Spells.eq_of_length_le`). A text that is pasted in front of a
quote at the end of a line, with no three quotes to follow, is therefore only read back if its
characters stand for themselves (`Toml.isItself_of_quoted?`): a longer piece would run over the end
of the line, and a text in three quotes would have no end.
-/

set_option autoImplicit false

namespace TesterSetup.Toml

/-- A character stands in double quotes for itself. -/
def IsItself (c : Char) : Prop :=
  isPlain c = true ∧ c ≠ '"' ∧ c ≠ '\\'

instance (c : Char) : Decidable (IsItself c) :=
  inferInstanceAs (Decidable (_ ∧ _))

/-- What stands in double quotes on one line, and the text that it spells. -/
inductive Spells : List Char → List Char → Prop
  | nil : Spells [] []
  | itself {c : Char} {raw content : List Char} (hc : IsItself c) (h : Spells raw content) :
      Spells (c :: raw) (c :: content)
  | escape {sign : List Char} {c : Char} {raw content : List Char} (hlong : 2 ≤ sign.length)
      (hline : '\n' ∉ sign) (h : Spells raw content) : Spells (sign ++ raw) (c :: content)

namespace Spells

variable {raw content : List Char}

theorem length_le (h : Spells raw content) : content.length ≤ raw.length := by
  induction h with
  | nil => exact Nat.le_refl 0
  | itself _ _ ih => exact Nat.succ_le_succ ih
  | escape hlong _ _ ih =>
    rw [List.length_cons, List.length_append]
    omega

/-- What is not longer than the text it spells has no escapes. -/
theorem eq_of_length_le (h : Spells raw content) (hle : raw.length ≤ content.length) :
    raw = content ∧ ∀ c ∈ content, IsItself c := by
  induction h with
  | nil => exact ⟨rfl, List.forall_mem_nil _⟩
  | itself hc _ ih =>
    obtain ⟨rfl, hall⟩ := ih (Nat.le_of_succ_le_succ hle)
    exact ⟨rfl, List.forall_mem_cons.mpr ⟨hc, hall⟩⟩
  | escape hlong _ h _ =>
    have := h.length_le
    rw [List.length_cons, List.length_append] at hle
    omega

theorem newline_notMem (h : Spells raw content) : '\n' ∉ raw := by
  induction h with
  | nil => exact List.not_mem_nil
  | itself hc _ ih =>
    rintro (_ | ⟨_, hmem⟩)
    · exact absurd hc (by decide)
    · exact ih hmem
  | escape _ hline _ ih => exact fun hmem ↦ (List.mem_append.mp hmem).elim hline ih

end Spells

variable {c : Char} {s content rest : List Char}

/-! ### Readers of quoted texts -/

theorem after_eq_some_iff {r : Scanned} :
    r.after c = some (content, rest) ↔ ∃ more, content = c :: more ∧ r = some (more, rest) := by
  unfold Scanned.after
  rw [Option.map_eq_some_iff]
  constructor
  · rintro ⟨⟨more, rest'⟩, hr, heq⟩
    cases heq
    exact ⟨more, rfl, hr⟩
  · rintro ⟨more, rfl, hr⟩
    exact ⟨(more, rest), hr, rfl⟩

theorem bind_after_eq_some_iff {sign : Option Char} {r : Scanned} :
    sign.bind r.after = some (content, rest) ↔
      ∃ c more, sign = some c ∧ content = c :: more ∧ r = some (more, rest) := by
  simp only [Option.bind_eq_some_iff, after_eq_some_iff, exists_and_left]

theorem newline_notMem_of_codePoint? {digits : List Char} (h : codePoint? digits = some c) :
    '\n' ∉ digits := by
  obtain ⟨n, hn, -⟩ := Option.bind_eq_some_iff.mp h
  clear h
  generalize 0 = start at hn
  induction digits generalizing start with
  | nil => exact List.not_mem_nil
  | cons d digits ih =>
    rw [List.foldlM_cons] at hn
    obtain ⟨next, hd, hn⟩ := Option.bind_eq_some_iff.mp hn
    rintro (_ | ⟨_, hmem⟩)
    · cases hd
    · exact ih next hn hmem

/-- What is read in double quotes was spelled there. -/
theorem spells_of_basic? (h : basic? s = some (content, rest)) :
    ∃ raw, s = raw ++ '"' :: rest ∧ Spells raw content := by
  fun_induction basic? s generalizing content rest with
  | case1 => cases h
  | case2 =>
    cases h
    exact ⟨[], rfl, .nil⟩
  | case3 a b c d s ih =>
    obtain ⟨e, more, hsign, rfl, hs⟩ := bind_after_eq_some_iff.mp h
    obtain ⟨raw, rfl, hraw⟩ := ih hs
    have hline := newline_notMem_of_codePoint? hsign
    exact ⟨['\\', 'u', a, b, c, d] ++ raw, rfl, .escape (by simp) (by simpa using hline) hraw⟩
  | case4 a b c d e f g i s ih =>
    obtain ⟨e, more, hsign, rfl, hs⟩ := bind_after_eq_some_iff.mp h
    obtain ⟨raw, rfl, hraw⟩ := ih hs
    have hline := newline_notMem_of_codePoint? hsign
    exact ⟨['\\', 'U', a, b, c, d, _, f, g, i] ++ raw, rfl,
      .escape (by simp) (by simpa using hline) hraw⟩
  | case5 c s _ _ ih =>
    obtain ⟨e, more, hsign, rfl, hs⟩ := bind_after_eq_some_iff.mp h
    obtain ⟨raw, rfl, hraw⟩ := ih hs
    have hline : '\n' ≠ c := by
      rintro rfl
      cases hsign
    exact ⟨['\\', c] ++ raw, rfl, .escape (by simp) (by simpa using hline) hraw⟩
  | case6 c s hquote _ _ _ hplain ih =>
    obtain ⟨more, rfl, hs⟩ := after_eq_some_iff.mp h
    obtain ⟨raw, rfl, hraw⟩ := ih hs
    rw [Bool.and_eq_true, bne_iff_ne] at hplain
    exact ⟨c :: raw, rfl, .itself ⟨hplain.1, hquote, hplain.2⟩ hraw⟩
  | case7 => cases h

theorem basic?_append (rest : List Char) (h : ∀ c ∈ content, IsItself c) :
    basic? (content ++ '"' :: rest) = some (content, rest) := by
  induction content with
  | nil => rfl
  | cons c content ih =>
    obtain ⟨⟨hplain, hquote, hslash⟩, hcontent⟩ := List.forall_mem_cons.mp h
    have hkept : (isPlain c && c != '\\') = true := by simp [hplain, hslash]
    rw [List.cons_append, basic?, if_pos hkept, ih hcontent]
    · rfl
    · exact hquote
    · exact fun _ _ _ _ _ h ↦ absurd h hslash
    · exact fun _ _ _ _ _ _ _ _ _ h ↦ absurd h hslash
    · exact fun _ _ h ↦ absurd h hslash

/-! ### Texts in three quotes -/

/-- Three double quotes end a text behind at least as many characters as it has. -/
def Closes (s content rest : List Char) : Prop :=
  ∃ raw, s = raw ++ '"' :: '"' :: '"' :: rest ∧ content.length ≤ raw.length

theorem Closes.skip (h : Closes s content rest) (piece : List Char) :
    Closes (piece ++ s) content rest := by
  obtain ⟨raw, rfl, hle⟩ := h
  exact ⟨piece ++ raw, (List.append_assoc _ _ _).symm,
    Nat.le_trans hle (List.length_append ▸ Nat.le_add_left _ _)⟩

theorem Closes.after {piece : List Char} (h : Closes s content rest) (hpiece : piece ≠ []) :
    Closes (piece ++ s) (c :: content) rest := by
  obtain ⟨raw, rfl, hle⟩ := h
  refine ⟨piece ++ raw, (List.append_assoc _ _ _).symm, ?_⟩
  have := List.length_pos_iff.mpr hpiece
  rw [List.length_append, List.length_cons]
  omega

theorem closes_closing (h : closing '"' s = (content, rest)) :
    Closes ('"' :: '"' :: '"' :: s) content rest := by
  obtain ⟨hcontent, hrest⟩ := Prod.mk.inj h
  have htake := List.take_prefix 2 (s.takeWhile (· == '"'))
  have hfront := htake.trans <| List.takeWhile_prefix _
  have hquotes : (s.takeWhile (· == '"')).take 2 = content := by
    rw [← hcontent]
    refine List.eq_replicate_of_mem fun c hc ↦ ?_
    exact eq_of_beq (List.all_eq_true.mp List.all_takeWhile c (List.mem_of_mem_take hc))
  have hs : s = content ++ rest := by
    rw [hquotes] at hfront hrest
    rw [← hrest, List.prefix_iff_eq_append.mp hfront]
  -- All of it is quotes: those that belong to the text may as well stand in front.
  have hswap : List.replicate 3 '"' ++ content = content ++ List.replicate 3 '"' := by
    rw [← hcontent, List.replicate_append_replicate, List.replicate_append_replicate,
      Nat.add_comm]
  refine ⟨content, ?_, Nat.le_refl _⟩
  calc '"' :: '"' :: '"' :: s = (List.replicate 3 '"' ++ content) ++ rest := by rw [hs]; rfl
    _ = content ++ '"' :: '"' :: '"' :: rest := by rw [hswap, List.append_assoc]; rfl

/-- What is read in three double quotes stands in front of three double quotes and is not shorter
than the text. -/
theorem closes_of_longBasic? {passing : Bool} (h : longBasic? passing s = some (content, rest)) :
    Closes s content rest := by
  fun_induction longBasic? passing s generalizing content rest with
  | case1 => cases h
  | case2 => exact closes_closing (Option.some.inj h)
  | case3 _ a b c d s ih =>
    obtain ⟨_, _, -, rfl, hs⟩ := bind_after_eq_some_iff.mp h
    exact (ih hs).after (List.cons_ne_nil '\\' ['u', a, b, c, d])
  | case4 _ a b c d e f g i s ih =>
    obtain ⟨_, _, -, rfl, hs⟩ := bind_after_eq_some_iff.mp h
    exact (ih hs).after (List.cons_ne_nil '\\' ['U', a, b, c, d, e, f, g, i])
  | case5 _ c _ d s _ _ _ ih => exact (ih h).skip ['\\', c, d]
  | case6 => cases h
  | case7 _ c s _ _ _ _ ih => exact (ih h).skip ['\\', c]
  | case8 _ c s _ _ _ ih =>
    obtain ⟨_, _, -, rfl, hs⟩ := bind_after_eq_some_iff.mp h
    exact (ih hs).after (List.cons_ne_nil '\\' [c])
  | case9 s ih => exact (ih h).skip ['\r', '\n']
  | case10 _ s _ ih =>
    obtain ⟨_, rfl, hs⟩ := after_eq_some_iff.mp h
    exact (ih hs).after (List.cons_ne_nil '\r' ['\n'])
  | case11 _ c s _ _ _ _ _ _ ih => exact (ih h).skip [c]
  | case12 _ c s _ _ _ _ _ _ _ ih =>
    obtain ⟨_, rfl, hs⟩ := after_eq_some_iff.mp h
    exact (ih hs).after (List.cons_ne_nil c [])
  | case13 => cases h

/-! ### Texts in front of a quote -/

theorem exists_dropFirstLineEnd (s : List Char) : ∃ first, s = first ++ dropFirstLineEnd s := by
  unfold dropFirstLineEnd
  split
  · exact ⟨['\n'], rfl⟩
  · exact ⟨['\r', '\n'], rfl⟩
  · exact ⟨[], rfl⟩

/-- A text of characters that stand for themselves is read back. -/
theorem quoted?_append (h : ∀ c ∈ content, IsItself c) (hrest : rest.head? ≠ some '"') :
    quoted? ('"' :: (content ++ '"' :: rest)) = some (content, rest) := by
  have hshort : short? ('"' :: (content ++ '"' :: rest)) = some (content, rest) :=
    basic?_append rest h
  unfold quoted?
  split
  · rename_i s heq
    obtain ⟨-, hthree⟩ := List.cons.inj heq
    cases content with
    | nil =>
      cases hthree
      exact absurd rfl hrest
    | cons c content => exact absurd (List.cons.inj hthree).1 (h c List.mem_cons_self).2.1
  · rename_i heq
    cases heq
  · exact hshort

theorem exists_append_of_le {first first' second second' : List Char}
    (hle : first.length ≤ first'.length) (h : first ++ second = first' ++ second') :
    ∃ more, first' = first ++ more ∧ second = more ++ second' := by
  obtain ⟨more, rfl⟩ := List.prefix_of_prefix_length_le (List.prefix_append first second)
    (h ▸ List.prefix_append first' second') hle
  exact ⟨more, rfl, List.append_cancel_left (h.trans (List.append_assoc _ _ _))⟩

/-- A text that is read back from in front of a quote at the end of a line, with no three quotes
from there on, is a text of characters that stand for themselves. -/
theorem isItself_of_quoted? {tail : List Char}
    (hquotes : ¬['"', '"', '"'] <:+: '"' :: '\n' :: tail)
    (h : quoted? ('"' :: (content ++ '"' :: '\n' :: tail)) = some (content, rest)) :
    ∀ c ∈ content, IsItself c := by
  unfold quoted? at h
  split at h
  · rename_i s heq
    obtain ⟨raw, hraw, hle⟩ := closes_of_longBasic? h
    obtain ⟨first, hfirst⟩ := exists_dropFirstLineEnd s
    have hsplit : content ++ '"' :: '\n' :: tail =
        ('"' :: '"' :: (first ++ raw)) ++ (['"', '"', '"'] ++ rest) := by
      rw [(List.cons.inj heq).2, hfirst, hraw]
      simp
    have hlong : content.length ≤ ('"' :: '"' :: (first ++ raw)).length := by
      simp only [List.length_cons, List.length_append]
      omega
    obtain ⟨more, -, htail⟩ := exists_append_of_le hlong hsplit
    exact absurd ⟨more, rest, by rw [htail, List.append_assoc]⟩ hquotes
  · rename_i heq
    cases heq
  · obtain ⟨raw, hraw, hspells⟩ := spells_of_basic? h
    obtain ⟨more, hmore, htail⟩ := exists_append_of_le hspells.length_le hraw
    cases more with
    | nil =>
      rw [List.append_nil] at hmore
      exact (hspells.eq_of_length_le (Nat.le_of_eq (congrArg List.length hmore))).2
    | cons c more =>
      -- The text goes on behind the quote, and there the line ends.
      refine absurd ?_ hspells.newline_notMem
      cases more with
      | nil => cases htail
      | cons d more =>
        cases htail
        simp [hmore]

end TesterSetup.Toml
