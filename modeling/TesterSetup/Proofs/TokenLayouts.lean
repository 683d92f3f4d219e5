import TesterSetup.Proofs.NameTokens

/-!
# Layouts of tokens

What the tokens of a text are spelled with and where they stand. `Token.SpelledBy` says how a token
can be spelled, without the reader: operators have one spelling, names are identifiers in ASCII, and
a number is spelled by any numeral of its value (`Decimal.IsNumeralOf`). A `Piece` is a spelled
token with the blanks in front of it; a list of pieces fixes a text and the offset of every token in
it (`spansFrom`).

A text has tokens only if it is such a layout (`exists_layout`), since every lexeme that is read is
a spelling of its token (`spelledBy_of_read`) and nothing but blanks is passed over. Conversely a
blank ends every lexeme: what stands behind it has no say in how the text in front of it is read
(`Lexeme.read_upTo`), so the tokens of a text are those in front of a blank and those behind it
(`tokensFrom_append`). Hence a layout with a blank between any two tokens has just these tokens
(`tokensFrom_layout`).
-/

set_option autoImplicit false

namespace TesterSetup

open TesterSetup.Text

/-! ### Numerals -/

namespace Decimal

/-- One or more ASCII digits. -/
def IsDigits (ds : List Char) : Prop :=
  ds ≠ [] ∧ ∀ d ∈ ds, isAsciiDigit d = true

/-- An exponent and its value: nothing for zero, or a letter, at most one sign, and digits. -/
inductive IsExponentOf : List Char → Int → Prop where
  | absent : IsExponentOf [] 0
  | plain {mark : Char} {ds : List Char} (hmark : mark = 'e' ∨ mark = 'E') (hds : IsDigits ds) :
    IsExponentOf (mark :: ds) (digitsValue ds)
  | plus {mark : Char} {ds : List Char} (hmark : mark = 'e' ∨ mark = 'E') (hds : IsDigits ds) :
    IsExponentOf (mark :: '+' :: ds) (digitsValue ds)
  | minus {mark : Char} {ds : List Char} (hmark : mark = 'e' ∨ mark = 'E') (hds : IsDigits ds) :
    IsExponentOf (mark :: '-' :: ds) (-(digitsValue ds : Int))

/-- A numeral and its value: digits with at most one point among them and at least one digit, an
exponent behind them, and the double nearest to the decimal that they write. -/
inductive IsNumeralOf : List Char → Float → Prop where
  | whole {ds expo : List Char} {k : Int} (hds : IsDigits ds) (hexpo : IsExponentOf expo k) :
    IsNumeralOf (ds ++ expo) (nearestDouble (digitsValue ds) k)
  | point {ds fraction expo : List Char} {k : Int} (hds : IsDigits (ds ++ fraction))
    (hexpo : IsExponentOf expo k) :
    IsNumeralOf (ds ++ '.' :: (fraction ++ expo))
      (nearestDouble (digitsValue (ds ++ fraction)) (k - fraction.length))

section Numerals

variable {s ds after : List Char} {n mantissa places : Nat} {e : Int} {x : Float}

theorem readDigits?_eq_some_iff : readDigits? ds = some n ↔ IsDigits ds ∧ digitsValue ds = n := by
  rw [readDigits?, Option.ite_none_right_eq_some, List.all_eq_true]
  exact and_congr_right' Option.some_inj

theorem map_readDigits?_eq_some_iff {f : Int → Int} :
    (readDigits? ds >>= fun n ↦ pure (n : Int)).map f = some e ↔
      IsDigits ds ∧ f (digitsValue ds) = e := by
  rw [Option.map_eq_some_iff]
  constructor
  · rintro ⟨_, hread, rfl⟩
    obtain ⟨n, hn, hvalue⟩ := Option.bind_eq_some_iff.mp hread
    cases hvalue
    obtain ⟨hds, rfl⟩ := readDigits?_eq_some_iff.mp hn
    exact ⟨hds, rfl⟩
  · rintro ⟨hds, rfl⟩
    refine ⟨_, Option.bind_eq_some_iff.mpr ⟨_, readDigits?_eq_some_iff.mpr ⟨hds, rfl⟩, rfl⟩, rfl⟩

theorem IsDigits.head_ne {c stop : Char} (hds : IsDigits (c :: ds))
    (hstop : isAsciiDigit stop = false) : c ≠ stop := by
  rintro rfl
  rw [hds.2 c List.mem_cons_self] at hstop
  cases hstop

theorem isExponentOf_of_readExponent? {mark : Char} (hmark : mark = 'e' ∨ mark = 'E')
    (h : readExponent? s = some e) : IsExponentOf (mark :: s) e := by
  unfold readExponent? at h
  split at h <;> obtain ⟨hds, rfl⟩ := map_readDigits?_eq_some_iff.mp h
  · exact .minus hmark hds
  · exact .plus hmark hds
  · exact .plain hmark hds

theorem readExponent?_of_isDigits (hds : IsDigits ds) :
    readExponent? ds = some (digitsValue ds : Int) := by
  unfold readExponent?
  split
  · exact absurd rfl (hds.head_ne (rfl : isAsciiDigit '-' = false))
  · exact absurd rfl (hds.head_ne (rfl : isAsciiDigit '+' = false))
  · exact map_readDigits?_eq_some_iff.mpr ⟨hds, rfl⟩

/-- What stands behind the digits of a numeral is an exponent, and it scales their value. -/
theorem scaled_eq_some_iff :
    (match after with
      | [] => some (nearestDouble mantissa (-(places : Int)))
      | c :: exponent =>
        if c = 'e' ∨ c = 'E' then
          (readExponent? exponent).map fun e => nearestDouble mantissa (e - places)
        else none) = some x ↔
      ∃ k, IsExponentOf after k ∧ nearestDouble mantissa (k - places) = x := by
  constructor
  · intro h
    cases after with
    | nil =>
      obtain rfl := Option.some.inj h
      exact ⟨0, .absent, by rw [zero_sub]⟩
    | cons c exponent =>
      obtain ⟨hmark, hread⟩ := Option.ite_none_right_eq_some.mp h
      obtain ⟨e, he, rfl⟩ := Option.map_eq_some_iff.mp hread
      exact ⟨e, isExponentOf_of_readExponent? hmark he, rfl⟩
  · rintro ⟨k, hexpo, rfl⟩
    cases hexpo with
    | absent => rw [zero_sub]
    | plain hmark hds =>
      dsimp only
      rw [if_pos hmark, readExponent?_of_isDigits hds]
      rfl
    | plus hmark hds =>
      dsimp only
      rw [if_pos hmark, readExponent?, map_readDigits?_eq_some_iff.mpr ⟨hds, rfl⟩]
      rfl
    | minus hmark hds =>
      dsimp only
      rw [if_pos hmark, readExponent?, map_readDigits?_eq_some_iff.mpr ⟨hds, rfl⟩]
      rfl

theorem IsExponentOf.not_isAsciiDigit {c : Char} {k : Int} (h : IsExponentOf after k)
    (hc : after.head? = some c) : isAsciiDigit c = false ∧ c ≠ '.' := by
  have hmark : c = 'e' ∨ c = 'E' := by
    cases h <;> cases hc <;> assumption
  rcases hmark with rfl | rfl <;> decide

/-- Digits in front of something else are found again. -/
theorem span_isAsciiDigit (hds : ∀ d ∈ ds, isAsciiDigit d = true)
    (hafter : ∀ c, after.head? = some c → isAsciiDigit c = false) :
    (ds ++ after).takeWhile isAsciiDigit = ds ∧ (ds ++ after).dropWhile isAsciiDigit = after := by
  cases after with
  | nil =>
    rw [List.append_nil]
    exact ⟨List.takeWhile_eq_self_iff.mpr hds, List.dropWhile_eq_nil_iff.mpr hds⟩
  | cons c after =>
    exact ⟨takeWhile_upTo hds (hafter c rfl) after, dropWhile_upTo hds (hafter c rfl) after⟩

/-- The numerals that are read, and what they are read as. -/
theorem readUnsigned?_eq_some_iff : readUnsigned? s = some x ↔ IsNumeralOf s x := by
  constructor
  · intro h
    have hs : s.takeWhile isAsciiDigit ++ s.dropWhile isAsciiDigit = s :=
      List.takeWhile_append_dropWhile
    have hdigits (l : List Char) : ∀ c ∈ l.takeWhile isAsciiDigit, isAsciiDigit c = true :=
      fun _ hc ↦ List.mem_takeWhile_imp hc
    have hwhole := hdigits s
    unfold readUnsigned? at h
    dsimp only at h
    generalize s.dropWhile isAsciiDigit = after at h hs
    generalize s.takeWhile isAsciiDigit = whole at h hs hwhole
    subst hs
    split at h
    · rename_i rest
      obtain ⟨hne, hvalue⟩ := Option.ite_none_left_eq_some.mp h
      obtain ⟨k, hexpo, rfl⟩ := scaled_eq_some_iff.mp hvalue
      have hds : IsDigits (whole ++ rest.takeWhile isAsciiDigit) :=
        ⟨hne, List.forall_mem_append.mpr ⟨hwhole, hdigits rest⟩⟩
      have hpoint := IsNumeralOf.point hds hexpo
      rwa [List.takeWhile_append_dropWhile] at hpoint
    · obtain ⟨hne, hvalue⟩ := Option.ite_none_left_eq_some.mp h
      obtain ⟨k, hexpo, rfl⟩ := scaled_eq_some_iff.mp hvalue
      rw [List.append_nil] at hne ⊢
      rw [List.length_nil, Nat.cast_zero, sub_zero]
      exact .whole ⟨hne, hwhole⟩ hexpo
  · intro h
    cases h with
    | @whole ds expo k hds hexpo =>
      obtain ⟨htake, hdrop⟩ := span_isAsciiDigit hds.2 fun c hc ↦ (hexpo.not_isAsciiDigit hc).1
      unfold readUnsigned?
      dsimp only
      rw [htake, hdrop]
      split
      · exact absurd rfl (hexpo.not_isAsciiDigit rfl).2
      · dsimp only
        rw [List.append_nil, if_neg hds.1]
        exact scaled_eq_some_iff.mpr ⟨k, hexpo, by rw [List.length_nil, Nat.cast_zero, sub_zero]⟩
    | @point ds fraction expo k hds hexpo =>
      have hdigits := List.forall_mem_append.mp hds.2
      have hwhole : ∀ c, ('.' :: (fraction ++ expo)).head? = some c → isAsciiDigit c = false := by
        rintro c ⟨⟩
        rfl
      obtain ⟨htake, hdrop⟩ := span_isAsciiDigit hdigits.1 hwhole
      obtain ⟨htake', hdrop'⟩ :=
        span_isAsciiDigit hdigits.2 fun c hc ↦ (hexpo.not_isAsciiDigit hc).1
      unfold readUnsigned?
      dsimp only
      rw [htake, hdrop]
      split
      · rename_i hcons
        cases hcons
        dsimp only
        rw [htake', hdrop', if_neg hds.1]
        exact scaled_eq_some_iff.mpr ⟨k, hexpo, rfl⟩
      · rename_i hpoint
        exact absurd rfl (hpoint _)

end Numerals

end Decimal

/-! ### Spellings of tokens -/

/-- The text of a symbol. -/
def Token.symbolText (t : Token) : List Char :=
  t.text fun _ ↦ []

/-- How a token can be spelled. -/
inductive Token.SpelledBy : Token → List Char → Prop where
  | number {x : Float} {s : List Char} (h : Decimal.IsNumeralOf s x) : SpelledBy (.number x) s
  | name {n : String} (h : isIdentifier n = true) : SpelledBy (.name n) n.toList
  | symbol {t : Token} (h : t.isSymbol = true) : SpelledBy t t.symbolText

/-! ### What a text starts with -/

/-- The symbol that a text starts with, given its first character and whether an equals sign
follows. -/
def symbolAt? (c : Char) (equals : Bool) : Option Token :=
  match c with
  | '+' => some .plus
  | '-' => some .minus
  | '*' => some .star
  | '/' => some .slash
  | '(' => some .leftParen
  | ')' => some .rightParen
  | '?' => some .question
  | ':' => some .colon
  | '<' => some (if equals then .lessEqual else .less)
  | '>' => some (if equals then .greaterEqual else .greater)
  | '=' => if equals then some .equal else none
  | '!' => if equals then some .notEqual else none
  | _ => none

/-- Whether a text starts with an equals sign. -/
def startsWithEquals (s : List Char) : Bool :=
  s.head? == some '='

theorem startsWithEquals_eq_true_iff {s : List Char} :
    startsWithEquals s = true ↔ ∃ rest, s = '=' :: rest := by
  rw [startsWithEquals, beq_iff_eq, List.head?_eq_some_iff]

theorem startsWithEquals_eq_false {s : List Char} (h : ∀ rest, s = '=' :: rest → False) :
    startsWithEquals s = false := by
  by_contra hequals
  obtain ⟨rest, hs⟩ := startsWithEquals_eq_true_iff.mp (Bool.not_eq_false _ ▸ hequals)
  exact h rest hs

/-- A text starts with a symbol, a number or a name, which is decided by its first two characters,
or with a character that starts nothing. -/
theorem Lexeme.read_eq (c : Char) (s : List Char) :
    read c s =
      match symbolAt? c (startsWithEquals s) with
      | some t => .ok ⟨t, t.symbolText, (c :: s).drop t.symbolText.length⟩
      | none =>
        if isMantissa c then
          match Decimal.readUnsigned? (splitNumber (c :: s)).1 with
          | some value => .ok ⟨.number value, (splitNumber (c :: s)).1, (splitNumber (c :: s)).2⟩
          | none => .error (.malformedNumber (String.ofList (splitNumber (c :: s)).1))
        else if isAsciiLetter c || c == '_' then
          .ok ⟨.name (String.ofList (c :: s.takeWhile isAsciiWord)), c :: s.takeWhile isAsciiWord,
            s.dropWhile isAsciiWord⟩
        else .error (.unexpectedCharacter c) := by
  unfold read
  split
  case h_10 hne | h_12 hne =>
    rw [startsWithEquals_eq_false hne]
    rfl
  case h_15 hequal hnot =>
    have hnone : symbolAt? c (startsWithEquals s) = none := by
      unfold symbolAt?
      split
      case h_11 =>
        rw [startsWithEquals_eq_false fun rest ↦ hequal rest rfl]
        rfl
      case h_12 =>
        rw [startsWithEquals_eq_false fun rest ↦ hnot rest rfl]
        rfl
      case h_13 => rfl
      all_goals contradiction
    generalize symbolAt? c (startsWithEquals s) = symbol at hnone ⊢
    subst hnone
    rfl
  all_goals rfl

section Spellings

variable {c : Char} {s spelling : List Char} {t : Token} {l : Lexeme}

theorem isSymbol_of_symbolAt? {equals : Bool} (h : symbolAt? c equals = some t) :
    t.isSymbol = true := by
  unfold symbolAt? at h
  split at h
  case h_11 | h_12 =>
    obtain ⟨-, hsome⟩ := Option.ite_none_right_eq_some.mp h
    cases hsome
    rfl
  case h_13 => cases h
  all_goals
    cases h
    cases equals <;> rfl

/-- Every lexeme that is read is a spelling of its token. -/
theorem spelledBy_of_read (h : Lexeme.read c s = .ok l) : l.token.SpelledBy l.spelling := by
  rw [Lexeme.read_eq] at h
  split at h
  · rename_i hsymbol
    cases h
    exact .symbol (isSymbol_of_symbolAt? hsymbol)
  split at h
  · split at h
    · rename_i hvalue
      cases h
      exact .number (Decimal.readUnsigned?_eq_some_iff.mp hvalue)
    · cases h
  split at h
  · rename_i hletter
    cases h
    have hidentifier : isIdentifier (String.ofList (c :: s.takeWhile isAsciiWord)) = true := by
      rw [isIdentifier, String.toList_ofList]
      dsimp only
      rw [hletter, List.all_takeWhile]
      rfl
    have hname := Token.SpelledBy.name hidentifier
    rwa [String.toList_ofList] at hname
  · cases h

end Spellings

/-! ### Blanks between lexemes -/

section Blanks

variable {p : Char → Bool} {stop c : Char} {s rest : List Char}

theorem takeWhile_append_stop (hstop : p stop = false) (s rest : List Char) :
    (s ++ stop :: rest).takeWhile p = s.takeWhile p := by
  induction s with
  | nil => exact List.takeWhile_cons_of_neg (ne_true_of_eq_false hstop)
  | cons c s ih => rw [List.cons_append, List.takeWhile_cons, List.takeWhile_cons, ih]

theorem dropWhile_append_stop (hstop : p stop = false) (s rest : List Char) :
    (s ++ stop :: rest).dropWhile p = s.dropWhile p ++ stop :: rest := by
  induction s with
  | nil => exact List.dropWhile_cons_of_neg (ne_true_of_eq_false hstop)
  | cons c s ih =>
    rw [List.cons_append, List.dropWhile_cons, List.dropWhile_cons, ih]
    split <;> rfl

/-- A blank is in no lexeme. -/
structure EndsLexeme (stop : Char) : Prop where
  isMantissa : Lexeme.isMantissa stop = false
  isSign : Lexeme.isSign stop = false
  isAsciiDigit : isAsciiDigit stop = false
  isAsciiWord : isAsciiWord stop = false
  not_mark : ¬(stop = 'e' ∨ stop = 'E')
  ne_equals : stop ≠ '='

theorem endsLexeme_of_isAsciiBlank (h : isAsciiBlank stop = true) : EndsLexeme stop := by
  simp only [isAsciiBlank, Bool.or_eq_true, beq_iff_eq] at h
  rcases h with (((rfl | rfl) | rfl) | rfl) | rfl <;> constructor <;> decide

namespace Lexeme

/-- A lexeme with more text behind it. -/
def followedBy (l : Lexeme) (more : List Char) : Lexeme :=
  { l with rest := l.rest ++ more }

theorem splitExponent_upTo (hstop : EndsLexeme stop) (s rest : List Char) :
    splitExponent (s ++ stop :: rest) =
      ((splitExponent s).1, (splitExponent s).2 ++ stop :: rest) := by
  cases s with
  | nil =>
    rw [List.nil_append, splitExponent]
    exact if_neg fun h ↦ hstop.not_mark h.1
  | cons e s =>
    rw [List.cons_append, splitExponent, splitExponent, takeWhile_append_stop hstop.isSign,
      dropWhile_append_stop hstop.isSign, takeWhile_append_stop hstop.isAsciiDigit,
      dropWhile_append_stop hstop.isAsciiDigit]
    split <;> rfl

theorem splitNumber_upTo (hstop : EndsLexeme stop) (s rest : List Char) :
    splitNumber (s ++ stop :: rest) = ((splitNumber s).1, (splitNumber s).2 ++ stop :: rest) := by
  rw [splitNumber, takeWhile_append_stop hstop.isMantissa, dropWhile_append_stop hstop.isMantissa,
    splitExponent_upTo hstop]
  rfl

/-- What stands behind the end of a lexeme has no say in how it is read. -/
theorem read_upTo (hstop : EndsLexeme stop) (c : Char) (s rest : List Char) :
    read c (s ++ stop :: rest) = (read c s).map (followedBy · (stop :: rest)) := by
  have hequals : startsWithEquals (s ++ stop :: rest) = startsWithEquals s := by
    cases s with
    | nil => exact beq_eq_false_iff_ne.mpr fun h ↦ hstop.ne_equals (Option.some.inj h)
    | cons a s => rfl
  rw [read_eq, hequals]
  cases hsymbol : symbolAt? c (startsWithEquals s) with
  | some t =>
    have hread : read c s = .ok ⟨t, t.symbolText, (c :: s).drop t.symbolText.length⟩ := by
      rw [read_eq, hsymbol]
    have hlength : t.symbolText.length ≤ (c :: s).length := by
      rw [← append_eq hread, List.length_append]
      exact Nat.le_add_right _ _
    rw [hread, ← List.cons_append]
    dsimp only
    rw [List.drop_append_of_le_length hlength]
    rfl
  | none =>
    rw [read_eq, hsymbol]
    dsimp only
    by_cases hmantissa : isMantissa c = true
    · rw [if_pos hmantissa, if_pos hmantissa, ← List.cons_append, splitNumber_upTo hstop]
      dsimp only
      cases Decimal.readUnsigned? (splitNumber (c :: s)).1 <;> rfl
    by_cases hletter : (isAsciiLetter c || c == '_') = true
    · rw [if_neg hmantissa, if_neg hmantissa, if_pos hletter, if_pos hletter,
        takeWhile_append_stop hstop.isAsciiWord, dropWhile_append_stop hstop.isAsciiWord]
      rfl
    · rw [if_neg hmantissa, if_neg hmantissa, if_neg hletter, if_neg hletter]
      rfl

end Lexeme

theorem byteLength_append (s s' : List Char) :
    byteLength (s ++ s') = byteLength s + byteLength s' := by
  induction s with
  | nil => exact (Nat.zero_add _).symm
  | cons c s ih => exact (congrArg (c.utf8Size + ·) ih).trans (Nat.add_assoc ..).symm

theorem tokensFrom_append_blank (hstop : isAsciiBlank stop = true) (expression : String)
    (offset : Nat) (s rest : List Char) :
    tokensFrom expression offset (s ++ stop :: rest) = do
      let front ← tokensFrom expression offset s
      let back ← tokensFrom expression (offset + byteLength s) (stop :: rest)
      return front ++ back := by
  induction hn : s.length using Nat.strong_induction_on generalizing s offset with
  | _ n ih =>
    cases s with
    | nil =>
      rw [List.nil_append, tokensFrom]
      exact (bind_pure _).symm
    | cons c s =>
      cases hblank : isAsciiBlank c with
      | true =>
        have hlength : s.length < n := hn ▸ Nat.lt_succ_self _
        have hoffset : offset + c.utf8Size + byteLength s = offset + byteLength (c :: s) :=
          Nat.add_assoc ..
        rw [List.cons_append, tokensFrom_blank hblank, tokensFrom_blank hblank,
          ih _ hlength (offset + c.utf8Size) s rfl, hoffset]
      | false =>
        have hread := Lexeme.read_upTo (endsLexeme_of_isAsciiBlank hstop) c s rest
        cases hfront : Lexeme.read c s with
        | error fault =>
          rw [hfront] at hread
          rw [List.cons_append, tokensFrom_of_fault hblank hread, tokensFrom_of_fault hblank hfront]
          rfl
        | ok l =>
          have hlength : l.rest.length < n := hn ▸ Lexeme.length_lt hfront
          have hoffset : offset + byteLength l.spelling + byteLength l.rest =
              offset + byteLength (c :: s) := by
            rw [← Lexeme.append_eq hfront, byteLength_append, Nat.add_assoc]
          rw [hfront] at hread
          rw [List.cons_append, tokensFrom_lexeme hblank hread, tokensFrom_lexeme hblank hfront]
          show (tokensFrom expression (offset + byteLength l.spelling)
            (l.rest ++ stop :: rest)).map _ = _
          rw [ih _ hlength (offset + byteLength l.spelling) l.rest rfl, hoffset]
          cases tokensFrom expression (offset + byteLength l.spelling) l.rest with
          | error e => rfl
          | ok front =>
            cases tokensFrom expression (offset + byteLength (c :: s)) (stop :: rest) <;> rfl

/-- The tokens of a text are those in front of a blank and those from there on. -/
theorem tokensFrom_append (hrest : ∀ c, rest.head? = some c → isAsciiBlank c = true)
    (expression : String) (offset : Nat) (s : List Char) :
    tokensFrom expression offset (s ++ rest) = do
      let front ← tokensFrom expression offset s
      let back ← tokensFrom expression (offset + byteLength s) rest
      return front ++ back := by
  cases rest with
  | nil =>
    rw [List.append_nil, tokensFrom.eq_def _ _ []]
    cases tokensFrom expression offset s with
    | error e => rfl
    | ok front => exact congrArg Except.ok (List.append_nil front).symm
  | cons stop rest => exact tokensFrom_append_blank (hrest stop rfl) expression offset s rest

end Blanks

/-! ### Layouts -/

/-- A token as it stands in a text: the blanks in front of it and its spelling. -/
structure Piece where
  gap : List Char
  token : Token
  spelling : List Char

namespace Piece

/-- The characters of a piece. -/
def chars (p : Piece) : List Char :=
  p.gap ++ p.spelling

/-- The gap is ASCII white space, and the token can be spelled like this. -/
structure IsWritten (p : Piece) : Prop where
  gap : ∀ c ∈ p.gap, isAsciiBlank c = true
  spelling : p.token.SpelledBy p.spelling

end Piece

/-- A token with its spelling and the byte offset at which it starts. -/
structure Span where
  token : Token
  start : Nat
  spelling : List Char

namespace Span

/-- The byte offset at which a token ends. -/
def stop (s : Span) : Nat :=
  s.start + byteLength s.spelling

/-- A token with its offset alone. -/
def placed (s : Span) : PlacedToken :=
  ⟨s.token, s.start⟩

end Span

/-- The tokens of pieces that stand one after the other from an offset on. -/
def spansFrom (offset : Nat) : List Piece → List Span
  | [] => []
  | p :: rest =>
    ⟨p.token, offset + byteLength p.gap, p.spelling⟩ :: spansFrom (offset + byteLength p.chars) rest

section Layouts

variable {expression : String} {offset : Nat} {c : Char} {s trailing : List Char} {t : Token}
  {tokens : List PlacedToken} {pieces : List Piece} {p : Piece}

/-- A text that has tokens is a layout of them. -/
theorem exists_layout (h : tokensFrom expression offset s = .ok tokens) :
    ∃ pieces trailing, s = pieces.flatMap Piece.chars ++ trailing ∧
      (∀ p ∈ pieces, p.IsWritten) ∧ (∀ c ∈ trailing, isAsciiBlank c = true) ∧
      tokens = (spansFrom offset pieces).map Span.placed := by
  induction hn : s.length using Nat.strong_induction_on generalizing s offset tokens with
  | _ n ih =>
    cases s with
    | nil =>
      rw [tokensFrom] at h
      cases h
      exact ⟨[], [], rfl, List.forall_mem_nil _, List.forall_mem_nil _, rfl⟩
    | cons c s =>
      cases hblank : isAsciiBlank c with
      | true =>
        -- the blank belongs to the gap of the next piece, or to the end when there is none
        rw [tokensFrom_blank hblank] at h
        obtain ⟨pieces, trailing, rfl, hwritten, htrailing, rfl⟩ :=
          ih _ (hn ▸ Nat.lt_succ_self _) h rfl
        cases pieces with
        | nil =>
          exact ⟨[], c :: trailing, rfl, hwritten,
            List.forall_mem_cons.mpr ⟨hblank, htrailing⟩, rfl⟩
        | cons p rest =>
          obtain ⟨hp, hrest⟩ := List.forall_mem_cons.mp hwritten
          refine ⟨{ p with gap := c :: p.gap } :: rest, trailing, rfl,
            List.forall_mem_cons.mpr ⟨⟨List.forall_mem_cons.mpr ⟨hblank, hp.gap⟩, hp.spelling⟩,
              hrest⟩, htrailing, ?_⟩
          rw [spansFrom, spansFrom, Nat.add_assoc, Nat.add_assoc]
          rfl
      | false =>
        cases hread : Lexeme.read c s with
        | error fault =>
          rw [tokensFrom_of_fault hblank hread] at h
          cases h
        | ok l =>
          rw [tokensFrom_lexeme hblank hread, except_map_eq_ok_iff] at h
          obtain ⟨more, hmore, rfl⟩ := h
          obtain ⟨pieces, trailing, hrest, hwritten, htrailing, rfl⟩ :=
            ih _ (hn ▸ Lexeme.length_lt hread) hmore rfl
          refine ⟨⟨[], l.token, l.spelling⟩ :: pieces, trailing, ?_,
            List.forall_mem_cons.mpr ⟨⟨List.forall_mem_nil _, spelledBy_of_read hread⟩, hwritten⟩,
            htrailing, rfl⟩
          rw [← Lexeme.append_eq hread, hrest, List.flatMap_cons, List.append_assoc]
          rfl

theorem tokensFrom_gap {gap : List Char} (h : ∀ c ∈ gap, isAsciiBlank c = true)
    (expression : String) (offset : Nat) (s : List Char) :
    tokensFrom expression offset (gap ++ s) =
      tokensFrom expression (offset + byteLength gap) s := by
  induction gap generalizing offset with
  | nil => rfl
  | cons c gap ih =>
    rw [List.forall_mem_cons] at h
    rw [List.cons_append, tokensFrom_blank h.1, ih h.2, Nat.add_assoc]
    rfl

/-- A spelling of a token is read as that token when nothing follows. -/
theorem Token.SpelledBy.exists_read (h : t.SpelledBy s) :
    ∃ c more, s = c :: more ∧ isAsciiBlank c = false ∧ Lexeme.read c more = .ok ⟨t, s, []⟩ := by
  have hspelling : t.IsSpelling s := by
    cases h with
    | number h => exact isSpelling_number (Decimal.readUnsigned?_eq_some_iff.mpr h)
    | name h => exact isSpelling_name h
    | symbol h => exact isSpelling_symbol h
  obtain ⟨c, more, rfl, hblank, hread⟩ := hspelling
  refine ⟨c, more, rfl, hblank, ?_⟩
  have hspace := hread []
  rw [Lexeme.read_upTo (endsLexeme_of_isAsciiBlank rfl), except_map_eq_ok_iff] at hspace
  obtain ⟨⟨token, spelling, rest⟩, hlexeme, heq⟩ := hspace
  obtain ⟨rfl, rfl, hrest⟩ := Lexeme.mk.inj heq
  have hnil : rest = [] := List.append_left_eq_self.mp hrest
  rw [hlexeme, hnil]

theorem Piece.IsWritten.tokensFrom_chars (h : p.IsWritten) (expression : String) (offset : Nat) :
    tokensFrom expression offset p.chars = .ok [⟨p.token, offset + byteLength p.gap⟩] := by
  obtain ⟨c, more, hspelling, hblank, hread⟩ := h.spelling.exists_read
  rw [Piece.chars, tokensFrom_gap h.gap, hspelling, tokensFrom_lexeme hblank hread, tokensFrom]
  rfl

theorem isAsciiBlank_of_head?_layout (hwritten : ∀ p ∈ pieces, p.IsWritten)
    (hgaps : ∀ p ∈ pieces, p.gap ≠ []) (htrailing : ∀ c ∈ trailing, isAsciiBlank c = true)
    (hc : (pieces.flatMap Piece.chars ++ trailing).head? = some c) : isAsciiBlank c = true := by
  cases pieces with
  | nil => exact htrailing c (List.mem_of_mem_head? hc)
  | cons p rest =>
    obtain ⟨b, gap, hgap⟩ := List.exists_cons_of_ne_nil (hgaps p List.mem_cons_self)
    rw [List.flatMap_cons, Piece.chars, hgap] at hc
    cases hc
    exact (hwritten p List.mem_cons_self).gap c (hgap ▸ List.mem_cons_self)

/-- A layout with a gap between any two tokens has just these tokens. -/
theorem tokensFrom_layout (hwritten : ∀ p ∈ pieces, p.IsWritten)
    (hgaps : ∀ p ∈ pieces.tail, p.gap ≠ []) (htrailing : ∀ c ∈ trailing, isAsciiBlank c = true)
    (expression : String) (offset : Nat) :
    tokensFrom expression offset (pieces.flatMap Piece.chars ++ trailing) =
      .ok ((spansFrom offset pieces).map Span.placed) := by
  induction pieces generalizing offset with
  | nil =>
    have hnone := tokensFrom_gap htrailing expression offset []
    rwa [List.append_nil, tokensFrom] at hnone
  | cons p rest ih =>
    rw [List.forall_mem_cons] at hwritten
    have hrest := ih hwritten.2 (fun q hq ↦ hgaps q (List.mem_of_mem_tail hq))
      (offset + byteLength p.chars)
    rw [List.flatMap_cons, List.append_assoc,
      tokensFrom_append fun c ↦ isAsciiBlank_of_head?_layout hwritten.2 hgaps htrailing,
      hwritten.1.tokensFrom_chars, hrest]
    rfl

/-! ### Where spans lie -/

/-- A span holds the spelling of its token, at its offset in the text. -/
theorem of_mem_spansFrom {span : Span} (hwritten : ∀ p ∈ pieces, p.IsWritten)
    (h : span ∈ spansFrom offset pieces) :
    span.token.SpelledBy span.spelling ∧ ∃ front back,
      pieces.flatMap Piece.chars = front ++ (span.spelling ++ back) ∧
      span.start = offset + byteLength front := by
  induction pieces generalizing offset with
  | nil => cases h
  | cons p rest ih =>
    rw [List.forall_mem_cons] at hwritten
    rw [List.flatMap_cons]
    rcases List.mem_cons.mp h with rfl | h
    · exact ⟨hwritten.1.spelling, p.gap, rest.flatMap Piece.chars, List.append_assoc .., rfl⟩
    · obtain ⟨hspelled, front, back, hrest, hstart⟩ := ih hwritten.2 h
      refine ⟨hspelled, p.chars ++ front, back, by rw [hrest, List.append_assoc], ?_⟩
      rw [hstart, byteLength_append, Nat.add_assoc]

theorem le_start_of_mem_spansFrom {span : Span} (h : span ∈ spansFrom offset pieces) :
    offset ≤ span.start := by
  induction pieces generalizing offset with
  | nil => cases h
  | cons p rest ih =>
    rcases List.mem_cons.mp h with rfl | h
    · exact Nat.le_add_right _ _
    · exact (Nat.le_add_right _ _).trans (ih h)

/-- Spans are in order and do not overlap. -/
theorem pairwise_spansFrom (offset : Nat) (pieces : List Piece) :
    (spansFrom offset pieces).Pairwise fun a b ↦ a.stop ≤ b.start := by
  induction pieces generalizing offset with
  | nil => exact .nil
  | cons p rest ih =>
    refine List.pairwise_cons.mpr ⟨fun b hb ↦ ?_, ih _⟩
    have hstop : offset + byteLength p.gap + byteLength p.spelling =
        offset + byteLength p.chars := by
      rw [Piece.chars, byteLength_append, Nat.add_assoc]
    exact hstop.trans_le (le_start_of_mem_spansFrom hb)

/-- Where the first of two parts of a text is, a character is in one of them. -/
theorem split_at_char {front back first second : List Char}
    (h : first ++ second = front ++ c :: back) :
    (∃ more, first = front ++ c :: more) ∨
      ∃ between, front = first ++ between ∧ second = between ++ c :: back := by
  rcases List.append_eq_append_iff.mp h with ⟨between, hfront, hsecond⟩ | ⟨more, hfirst, hback⟩
  · exact .inr ⟨between, hfront, hsecond⟩
  · cases more with
    | nil =>
      refine .inr ⟨[], ?_, hback.symm⟩
      rw [hfirst, List.append_nil, List.append_nil]
    | cons d more =>
      obtain ⟨rfl, -⟩ := List.cons.inj hback
      exact .inl ⟨more, hfirst⟩

theorem byteLength_pos (c : Char) (s : List Char) : 0 < byteLength (c :: s) :=
  Nat.add_pos_left c.utf8Size_pos _

/-- Every character of a layout is a blank or in the span of a token. -/
theorem isAsciiBlank_or_mem_span {front back : List Char} (hwritten : ∀ p ∈ pieces, p.IsWritten)
    (htrailing : ∀ c ∈ trailing, isAsciiBlank c = true)
    (h : pieces.flatMap Piece.chars ++ trailing = front ++ c :: back) :
    isAsciiBlank c = true ∨ ∃ span ∈ spansFrom offset pieces,
      span.start ≤ offset + byteLength front ∧ offset + byteLength front < span.stop := by
  induction pieces generalizing offset front with
  | nil =>
    have hc : c ∈ trailing := by
      rw [show trailing = front ++ c :: back from h]
      exact List.mem_append_right _ List.mem_cons_self
    exact .inl (htrailing c hc)
  | cons p rest ih =>
    rw [List.forall_mem_cons] at hwritten
    rw [List.flatMap_cons, List.append_assoc] at h
    rcases split_at_char h with ⟨more, hchars⟩ | ⟨between, rfl, hrest⟩
    · rcases split_at_char hchars with ⟨more, hgap⟩ | ⟨between, rfl, hspelling⟩
      · refine .inl (hwritten.1.gap c ?_)
        rw [hgap]
        exact List.mem_append_right _ List.mem_cons_self
      · refine .inr ⟨_, List.mem_cons_self, ?_, ?_⟩
        · dsimp only
          rw [byteLength_append]
          omega
        · have hpos := byteLength_pos c more
          dsimp only [Span.stop]
          rw [hspelling, byteLength_append, byteLength_append]
          omega
    · have hlater : isAsciiBlank c = true ∨ ∃ span ∈ spansFrom (offset + byteLength p.chars) rest,
          span.start ≤ offset + byteLength p.chars + byteLength between ∧
            offset + byteLength p.chars + byteLength between < span.stop :=
        ih hwritten.2 hrest
      rw [Nat.add_assoc, ← byteLength_append] at hlater
      exact hlater.imp_right fun ⟨span, hspan, hplace⟩ ↦
        ⟨span, List.mem_cons_of_mem _ hspan, hplace⟩

end Layouts

end TesterSetup
