import TesterSetup.Proofs.WrittenExpr
import TesterSetup.Proofs.WrittenLines

/-!
# Names as tokens

How a text of word characters is read as an expression (`tokensFrom_word`). Its numerals are digits
with at most an exponent, since neither points nor signs are word characters, so reading them never
fails; the only character that stops the reader is one that is no ASCII word character. Hence such a
text is a single name exactly when it is an identifier in ASCII (`tokenize_eq_name_iff`), and any
other is cut into a number and more, or is not read at all (`startsAsNumber_or_isUnreadable`).
-/

set_option autoImplicit false

namespace TesterSetup

open TesterSetup.Text

/-! ### Numerals among word characters -/

namespace Lexeme

variable {c : Char} {s : List Char}

theorem isSign_eq_false_of_isWord (h : isWord c = true) : isSign c = false := by
  by_contra hsign
  rw [Bool.not_eq_false, isSign_iff] at hsign
  rcases hsign with rfl | rfl <;> exact absurd h (by decide)

theorem isMantissa_eq_isAsciiDigit (h : isWord c = true) : isMantissa c = isAsciiDigit c := by
  have hpoint : c ≠ '.' := by
    rintro rfl
    exact absurd h (by decide)
  rw [isMantissa, beq_eq_false_iff_ne.mpr hpoint, Bool.or_false]

theorem takeWhile_isMantissa (hs : ∀ c ∈ s, isWord c = true) :
    s.takeWhile isMantissa = s.takeWhile isAsciiDigit := by
  induction s with
  | nil => rfl
  | cons c s ih =>
    rw [List.forall_mem_cons] at hs
    rw [List.takeWhile_cons, List.takeWhile_cons, isMantissa_eq_isAsciiDigit hs.1, ih hs.2]

theorem dropWhile_isMantissa (hs : ∀ c ∈ s, isWord c = true) :
    s.dropWhile isMantissa = s.dropWhile isAsciiDigit := by
  induction s with
  | nil => rfl
  | cons c s ih =>
    rw [List.forall_mem_cons] at hs
    rw [List.dropWhile_cons, List.dropWhile_cons, isMantissa_eq_isAsciiDigit hs.1, ih hs.2]

/-- An exponent without a sign. -/
def IsPlainExponent (s : List Char) : Prop :=
  ∃ e digits, s = e :: digits ∧ (e = 'e' ∨ e = 'E') ∧ digits ≠ [] ∧
    ∀ d ∈ digits, isAsciiDigit d = true

theorem splitExponent_of_word (hs : ∀ c ∈ s, isWord c = true) :
    (splitExponent s).1 = [] ∨ IsPlainExponent (splitExponent s).1 := by
  cases s with
  | nil => exact .inl rfl
  | cons e s =>
    rw [List.forall_mem_cons] at hs
    have hsign : s.takeWhile isSign = [] := by
      cases s with
      | nil => rfl
      | cons d s =>
        refine List.takeWhile_cons_of_neg ?_
        rw [isSign_eq_false_of_isWord (hs.2 d List.mem_cons_self)]
        exact Bool.false_ne_true
    unfold splitExponent
    dsimp only
    split
    · rename_i hexponent
      rw [hsign]
      exact .inr ⟨e, _, rfl, hexponent.1, hexponent.2.2,
        fun d hd ↦ List.mem_takeWhile_imp hd⟩
    · exact .inl rfl

end Lexeme

theorem Decimal.exists_readUnsigned?_eq {digits exponent : List Char} (hne : digits ≠ [])
    (hdigits : ∀ d ∈ digits, isAsciiDigit d = true)
    (hexponent : exponent = [] ∨ Lexeme.IsPlainExponent exponent) :
    ∃ x, readUnsigned? (digits ++ exponent) = some x := by
  have hspan : (digits ++ exponent).takeWhile isAsciiDigit = digits ∧
      (digits ++ exponent).dropWhile isAsciiDigit = exponent := by
    rcases hexponent with rfl | ⟨e, more, rfl, he, -⟩
    · rw [List.append_nil]
      exact ⟨List.takeWhile_eq_self_iff.mpr hdigits, List.dropWhile_eq_nil_iff.mpr hdigits⟩
    · have hstop : isAsciiDigit e = false := by
        rcases he with rfl | rfl <;> decide
      exact ⟨takeWhile_upTo hdigits hstop more, dropWhile_upTo hdigits hstop more⟩
  unfold readUnsigned?
  dsimp only
  rw [hspan.1, hspan.2]
  rcases hexponent with rfl | ⟨e, more, rfl, he, hmore, hmoreDigits⟩
  · dsimp only
    rw [List.append_nil, if_neg hne]
    exact ⟨_, rfl⟩
  · have hread : ∃ value, readExponent? more = some value := by
      have hdigitsRead : readDigits? more = some (digitsValue more) :=
        if_pos ⟨hmore, List.all_eq_true.mpr hmoreDigits⟩
      unfold readExponent?
      split
      · exact absurd (hmoreDigits '-' List.mem_cons_self) (by decide)
      · exact absurd (hmoreDigits '+' List.mem_cons_self) (by decide)
      · exact ⟨_, by rw [hdigitsRead]; rfl⟩
    obtain ⟨value, hvalue⟩ := hread
    have hpoint : e ≠ '.' := by rcases he with rfl | rfl <;> decide
    split
    · rename_i hcons
      cases hcons
      exact absurd rfl hpoint
    · dsimp only
      rw [List.append_nil, if_neg hne, if_pos he, hvalue]
      exact ⟨_, rfl⟩

/-! ### The first token -/

section FirstToken

variable {c : Char} {s : List Char}

theorem isAsciiBlank_eq_false_of_isWord (h : isWord c = true) : isAsciiBlank c = false := by
  by_contra hblank
  rw [Bool.not_eq_false] at hblank
  rw [isWord_eq_false_of_isBlank (isBlank_of_isAsciiBlank hblank)] at h
  cases h

theorem isAsciiWord_of_isAsciiDigit (h : isAsciiDigit c = true) : isAsciiWord c = true := by
  rw [isAsciiWord, h, Bool.or_true, Bool.true_or]

theorem isAsciiWord_of_isNameStart (h : (isAsciiLetter c || c == '_') = true) :
    isAsciiWord c = true := by
  rw [isAsciiWord, Bool.or_eq_true, Bool.or_eq_true]
  exact ((Bool.or_eq_true _ _).mp h).imp .inl id

/-- A digit in front starts a number, which ends before the first character that is no ASCII word
character. -/
theorem Lexeme.read_of_isAsciiDigit (hs : ∀ d ∈ c :: s, isWord d = true)
    (hc : isAsciiDigit c = true) :
    ∃ l x, read c s = .ok l ∧ l.token = .number x ∧ ∀ d ∈ l.spelling, isAsciiWord d = true := by
  have hdigits : ∀ d ∈ (c :: s).takeWhile isAsciiDigit, isAsciiDigit d = true :=
    fun d hd ↦ List.mem_takeWhile_imp hd
  have hne : (c :: s).takeWhile isAsciiDigit ≠ [] := by
    rw [List.takeWhile_cons_of_pos hc]
    exact List.cons_ne_nil _ _
  have hexponent := splitExponent_of_word (s := (c :: s).dropWhile isAsciiDigit)
    fun d hd ↦ hs d ((List.dropWhile_sublist _).subset hd)
  obtain ⟨x, hx⟩ := Decimal.exists_readUnsigned?_eq hne hdigits hexponent
  have hnumber : (splitNumber (c :: s)).1 = (c :: s).takeWhile isAsciiDigit ++
      (splitExponent ((c :: s).dropWhile isAsciiDigit)).1 := by
    rw [splitNumber, takeWhile_isMantissa hs, dropWhile_isMantissa hs]
  refine ⟨⟨.number x, (splitNumber (c :: s)).1, (splitNumber (c :: s)).2⟩, x, ?_, rfl, ?_⟩
  · rw [read_of_isMantissa (isMantissa_of_isAsciiDigit hc), hnumber, hx]
  · intro d hd
    dsimp only at hd
    rw [hnumber, List.mem_append] at hd
    rcases hd with hd | hd
    · exact isAsciiWord_of_isAsciiDigit (hdigits d hd)
    · rcases hexponent with hnil | ⟨e, more, heq, he, -, hmore⟩
      · rw [hnil] at hd
        cases hd
      · rw [heq, List.mem_cons] at hd
        rcases hd with rfl | hd
        · rcases he with rfl | rfl <;> decide
        · exact isAsciiWord_of_isAsciiDigit (hmore d hd)

theorem Lexeme.read_of_not_isAsciiWord (hc : isWord c = true) (hascii : isAsciiWord c = false) :
    read c s = .error (.unexpectedCharacter c) := by
  have hdigit : isAsciiDigit c = false := by
    by_contra h
    rw [Bool.not_eq_false] at h
    rw [isAsciiWord_of_isAsciiDigit h] at hascii
    cases hascii
  have hletter : ¬(isAsciiLetter c || c == '_') = true := by
    intro h
    rw [isAsciiWord_of_isNameStart h] at hascii
    cases hascii
  have hmantissa : ¬isMantissa c = true := by
    rw [isMantissa_eq_isAsciiDigit hc, hdigit]
    exact Bool.false_ne_true
  unfold read
  split
  case h_15 => rw [if_neg hmantissa, if_neg hletter]
  all_goals exact absurd hc (by decide)

/-- A word starts with a token in ASCII or with a character that starts none. -/
theorem Lexeme.read_of_word (hs : ∀ d ∈ c :: s, isWord d = true) :
    (∃ l, read c s = .ok l ∧ ∀ d ∈ l.spelling, isAsciiWord d = true) ∨
      isAsciiWord c = false ∧ read c s = .error (.unexpectedCharacter c) := by
  by_cases hdigit : isAsciiDigit c = true
  · obtain ⟨l, _, hread, -, hascii⟩ := read_of_isAsciiDigit hs hdigit
    exact .inl ⟨l, hread, hascii⟩
  by_cases hletter : (isAsciiLetter c || c == '_') = true
  · refine .inl ⟨_, read_of_isAsciiLetter hletter, fun d hd ↦ ?_⟩
    rcases List.mem_cons.mp hd with rfl | hd
    · exact isAsciiWord_of_isNameStart hletter
    · exact List.mem_takeWhile_imp hd
  · have hascii : isAsciiWord c = false := by
      rw [Bool.or_eq_true, not_or, Bool.not_eq_true, Bool.not_eq_true] at hletter
      rw [isAsciiWord, hletter.1, hletter.2, Bool.eq_false_iff.mpr hdigit]
      rfl
    exact .inr ⟨hascii, read_of_not_isAsciiWord (hs c List.mem_cons_self) hascii⟩

end FirstToken

/-! ### All tokens -/

theorem tokensFrom_of_fault {c : Char} {s : List Char} {fault : Fault}
    (h : isAsciiBlank c = false) (hread : Lexeme.read c s = .error fault) (expression : String)
    (offset : Nat) :
    tokensFrom expression offset (c :: s) = .error (.malformed expression offset fault) := by
  rw [tokensFrom, h, if_neg Bool.false_ne_true]
  split
  · rename_i hfault
    rw [hread] at hfault
    cases hfault
    rfl
  · rename_i hlexeme
    rw [hread] at hlexeme
    cases hlexeme

/-- Words in ASCII have tokens; any other word is unreadable at a character that is not ASCII. -/
theorem tokensFrom_word (expression : String) {s : List Char} (hs : ∀ c ∈ s, isWord c = true)
    (offset : Nat) :
    (∃ tokens, tokensFrom expression offset s = .ok tokens ∧ ∀ c ∈ s, isAsciiWord c = true) ∨
      ∃ place c, c ∈ s ∧ isAsciiWord c = false ∧
        tokensFrom expression offset s =
          .error (.malformed expression place (.unexpectedCharacter c)) := by
  induction hn : s.length using Nat.strong_induction_on generalizing s offset with
  | _ n ih =>
    cases s with
    | nil => exact .inl ⟨[], by rw [tokensFrom], fun c hc ↦ absurd hc List.not_mem_nil⟩
    | cons c s =>
      have hblank := isAsciiBlank_eq_false_of_isWord (hs c List.mem_cons_self)
      rcases Lexeme.read_of_word hs with ⟨l, hread, hspelling⟩ | ⟨hascii, hfault⟩
      · have happend := Lexeme.append_eq hread
        have hrest : ∀ d ∈ l.rest, d ∈ c :: s := by
          rw [← happend]
          exact fun d hd ↦ List.mem_append_right _ hd
        have hlength : l.rest.length < n := hn ▸ Lexeme.length_lt hread
        rw [tokensFrom_lexeme hblank hread]
        rcases ih _ hlength (fun d hd ↦ hs d (hrest d hd))
            (offset + byteLength l.spelling) rfl with
          ⟨tokens, htokens, hascii⟩ | ⟨place, d, hd, hascii, herror⟩
        · refine .inl ⟨_, by rw [htokens]; rfl, fun d hd ↦ ?_⟩
          rw [← happend, List.mem_append] at hd
          exact hd.elim (hspelling d) (hascii d)
        · exact .inr ⟨place, d, hrest d hd, hascii, by rw [herror]; rfl⟩
      · exact .inr ⟨offset, c, List.mem_cons_self, hascii,
          tokensFrom_of_fault hblank hfault expression offset⟩

/-! ### Names -/

/-- How a word reads as an expression: as its own name when it is an identifier in ASCII and only
then, as a number with more behind it when it is in ASCII and starts with a digit, and not at all
when it is not in ASCII. -/
structure WordReading (n : String) : Prop where
  name : tokenize n = .ok [⟨.name n, 0⟩] ↔ isIdentifier n = true
  number : (∀ c ∈ n.toList, isAsciiWord c = true) → n.toList.head?.any isAsciiDigit = true →
    ∃ x more, tokenize n = .ok (⟨.number x, 0⟩ :: more)
  unreadable : (∃ c ∈ n.toList, isAsciiWord c = false) →
    ∃ place c, c ∈ n.toList ∧ isAsciiWord c = false ∧
      tokenize n = .error (.malformed n place (.unexpectedCharacter c))

theorem tokenize_of_isIdentifier {n : String} (h : isIdentifier n = true) :
    tokenize n = .ok [⟨.name n, 0⟩] := by
  unfold isIdentifier at h
  split at h
  · cases h
  · rename_i c s hn
    obtain ⟨hc, hs⟩ := (Bool.and_eq_true _ _).mp h
    have hall := List.all_eq_true.mp hs
    have hblank := isAsciiBlank_eq_false (.inl (isAsciiWord_of_isNameStart hc))
    rw [tokenize, hn, tokensFrom_lexeme hblank (read_of_isAsciiLetter hc),
      List.takeWhile_eq_self_iff.mpr hall, List.dropWhile_eq_nil_iff.mpr hall, tokensFrom, ← hn,
      String.ofList_toList]
    rfl

/-- In ASCII a word that is no identifier starts with a digit. -/
theorem head?_of_not_isIdentifier {n : String} (hne : n.toList ≠ [])
    (hascii : ∀ c ∈ n.toList, isAsciiWord c = true) (h : ¬isIdentifier n = true) :
    n.toList.head?.any isAsciiDigit = true := by
  unfold isIdentifier at h
  cases hn : n.toList with
  | nil => exact absurd hn hne
  | cons c s =>
    rw [hn, List.forall_mem_cons] at hascii
    rw [hn] at h
    dsimp only at h
    rw [List.all_eq_true.mpr hascii.2, Bool.and_true, Bool.or_eq_true, not_or, Bool.not_eq_true,
      Bool.not_eq_true] at h
    have hc := hascii.1
    rw [isAsciiWord, h.1, h.2, Bool.or_false, Bool.false_or] at hc
    rw [List.head?_cons, Option.any_some, hc]

theorem tokenize_of_head? {n : String} (hword : ∀ c ∈ n.toList, isWord c = true)
    (hascii : ∀ c ∈ n.toList, isAsciiWord c = true)
    (hdigit : n.toList.head?.any isAsciiDigit = true) :
    ∃ x more, tokenize n = .ok (⟨.number x, 0⟩ :: more) := by
  have hreadable : ∃ tokens, tokenize n = .ok tokens := by
    rcases tokensFrom_word n hword 0 with ⟨tokens, htokens, -⟩ | ⟨_, c, hc, hnot, -⟩
    · exact ⟨tokens, htokens⟩
    · rw [hascii c hc] at hnot
      cases hnot
  obtain ⟨tokens, htokens⟩ := hreadable
  unfold tokenize at htokens ⊢
  cases hn : n.toList with
  | nil =>
    rw [hn] at hdigit
    cases hdigit
  | cons c s =>
    rw [hn] at hword hdigit htokens
    have hblank := isAsciiBlank_eq_false_of_isWord (hword c List.mem_cons_self)
    obtain ⟨l, x, hread, htoken, -⟩ := Lexeme.read_of_isAsciiDigit hword hdigit
    rw [tokensFrom_lexeme hblank hread, except_map_eq_ok_iff] at htokens
    obtain ⟨more, hmore, -⟩ := htokens
    refine ⟨x, more, ?_⟩
    rw [tokensFrom_lexeme hblank hread, hmore, htoken]
    rfl

theorem wordReading {n : String} (hne : n.toList ≠ []) (hword : ∀ c ∈ n.toList, isWord c = true) :
    WordReading n := by
  have hunreadable : (∃ c ∈ n.toList, isAsciiWord c = false) →
      ∃ place c, c ∈ n.toList ∧ isAsciiWord c = false ∧
        tokenize n = .error (.malformed n place (.unexpectedCharacter c)) := by
    rintro ⟨c, hc, hnot⟩
    rcases tokensFrom_word n hword 0 with ⟨_, -, hascii⟩ | hfault
    · rw [hascii c hc] at hnot
      cases hnot
    · exact hfault
  refine ⟨⟨fun hname ↦ ?_, tokenize_of_isIdentifier⟩, tokenize_of_head? hword, hunreadable⟩
  have hascii : ∀ c ∈ n.toList, isAsciiWord c = true := by
    intro c hc
    by_contra hnot
    obtain ⟨_, _, -, -, herror⟩ := hunreadable ⟨c, hc, Bool.eq_false_iff.mpr hnot⟩
    rw [herror] at hname
    cases hname
  by_contra hnot
  obtain ⟨_, _, hnumber⟩ :=
    tokenize_of_head? hword hascii (head?_of_not_isIdentifier hne hascii hnot)
  rw [hnumber] at hname
  cases hname

end TesterSetup
