import TesterSetup.Proofs.EvaluatedTexts
import TesterSetup.Proofs.NameTokens

/-!
# Periods written as fractions

A period `fract(n, d, s)` is rewritten to the text `(n/d)*(s)`, which is then an expression like any
other. The rewriting has an idea of its own of what an argument is, word characters and points; what
the expression makes of it is decided by the reader of tokens. `IsArgument` is the reader's idea: a
name with a value or a literal, read as a single token.

On a token without a sign the two agree. The rewriting finds it with any blanks around
(`Fract.arguments?_of_unsigned`), and the reader finds it again in front of a slash or a parenthesis
(`IsToken.read_append`), so that the text has the tree it should have (`parseExpr_expand`). On a
literal with a signed exponent they do not: the rewriting stops at the sign
(`Fract.arguments?_of_signed`). `TimingSet.resolve_fract` states both, and
`not_forall_fract_resolves` that the second kind of literal has no period.
-/

set_option autoImplicit false

namespace TesterSetup

open TesterSetup.Text

/-! ### Single tokens -/

/-- A text that is read as one token and has nothing around it. -/
structure IsToken (a : String) (t : Token) : Prop where
  tokenize_eq : tokenize a = .ok [⟨t, 0⟩]
  trimmed_eq : trimmed a = a

/-- A token that stands for an operand. -/
def Token.IsOperand (t : Token) : Prop :=
  (∃ x, t = .number x) ∨ ∃ n, t = .name n

theorem isAsciiBlank_of_tokensFrom_eq_nil {expression : String} {offset : Nat} {s : List Char}
    (h : tokensFrom expression offset s = .ok []) : ∀ c ∈ s, isAsciiBlank c = true := by
  induction s generalizing offset with
  | nil => exact List.forall_mem_nil _
  | cons c s ih =>
    cases hblank : isAsciiBlank c with
    | true =>
      rw [tokensFrom_blank hblank] at h
      exact List.forall_mem_cons.mpr ⟨hblank, ih h⟩
    | false =>
      rw [tokensFrom, hblank, if_neg Bool.false_ne_true] at h
      split at h
      · cases h
      · obtain ⟨more, -, hmore⟩ := except_bind_eq_ok_iff.mp h
        cases hmore

section Tokens

variable {a : String} {t : Token} {c : Char} {s : List Char}

theorem IsToken.hasBareEnds (h : IsToken a t) : HasBareEnds a.toList := by
  refine hasBareEnds_of_trim_eq_self ?_
  rw [← String.toList_ofList (l := trim a.toList)]
  exact congrArg String.toList h.trimmed_eq

/-- A text that is a single token is spelled by it as a whole. -/
theorem IsToken.exists_read (h : IsToken a t) :
    ∃ c s, a.toList = c :: s ∧ isAsciiBlank c = false ∧
      Lexeme.read c s = .ok ⟨t, c :: s, []⟩ := by
  have htokens := h.tokenize_eq
  have hends := h.hasBareEnds
  unfold tokenize at htokens
  cases hs : a.toList with
  | nil =>
    rw [hs, tokensFrom] at htokens
    cases htokens
  | cons c s =>
    rw [hs] at htokens hends
    have hblank : isAsciiBlank c = false := by
      by_contra hblank
      have hfirst := hends.first c rfl
      rw [isBlank_of_isAsciiBlank (Bool.not_eq_false _ ▸ hblank)] at hfirst
      cases hfirst
    cases hread : Lexeme.read c s with
    | error fault =>
      rw [tokensFrom_of_fault hblank hread] at htokens
      cases htokens
    | ok l =>
      obtain ⟨token, spelling, rest⟩ := l
      rw [tokensFrom_lexeme hblank hread, except_map_eq_ok_iff] at htokens
      obtain ⟨more, hmore, hcons⟩ := htokens
      cases hcons
      have happend := Lexeme.append_eq hread
      have hrest : rest = [] := by
        by_contra hne
        have hlast : (c :: s).getLast? = rest.getLast? := by
          rw [← happend, List.getLast?_append, List.getLast?_eq_some_getLast hne, Option.some_or]
        have hblanks := isAsciiBlank_of_tokensFrom_eq_nil hmore _ (List.getLast_mem hne)
        have hbare := hends.last _ (hlast.trans (List.getLast?_eq_some_getLast hne))
        rw [isBlank_of_isAsciiBlank hblanks] at hbare
        cases hbare
      subst hrest
      rw [List.append_nil] at happend
      dsimp only at happend
      subst happend
      exact ⟨c, s, rfl, hblank, hread⟩

theorem Lexeme.of_read_number {x : Float} {spelling rest : List Char}
    (h : read c s = .ok ⟨.number x, spelling, rest⟩) :
    isMantissa c = true ∧ spelling = (splitNumber (c :: s)).1 ∧
      Decimal.readUnsigned? spelling = some x := by
  unfold read at h
  split at h
  case h_15 =>
    split at h
    · rename_i hmantissa
      dsimp only at h
      split at h
      · rename_i hvalue
        cases h
        exact ⟨hmantissa, rfl, hvalue⟩
      · cases h
    · split at h <;> cases h
  all_goals cases h

theorem Lexeme.of_read_name {n : String} {spelling rest : List Char}
    (h : read c s = .ok ⟨.name n, spelling, rest⟩) :
    (isAsciiLetter c || c == '_') = true ∧ spelling = c :: s.takeWhile isAsciiWord ∧
      n = String.ofList spelling := by
  unfold read at h
  split at h
  case h_15 =>
    split at h
    · dsimp only at h
      split at h <;> cases h
    · split at h
      · rename_i hletter
        cases h
        exact ⟨hletter, rfl, rfl⟩
      · cases h
  all_goals cases h

theorem endsLiteral_of_not_isAsciiWord {stop : Char} (hword : isAsciiWord stop = false)
    (hpoint : stop ≠ '.') : EndsLiteral stop where
  not_isMantissa := by
    rw [isAsciiWord, Bool.or_eq_false_iff, Bool.or_eq_false_iff] at hword
    rw [Lexeme.isMantissa, hword.1.2, beq_eq_false_iff_ne.mpr hpoint]
    rfl
  not_exponent := by
    rintro (rfl | rfl) <;> exact absurd hword (by decide)

/-- An operand is read again in front of a character that belongs to no operand. -/
theorem IsToken.read_append (h : IsToken a t) (ht : t.IsOperand) {stop : Char}
    (hword : isAsciiWord stop = false) (hpoint : stop ≠ '.') (rest : List Char) :
    ∃ c s, a.toList = c :: s ∧ isAsciiBlank c = false ∧
      Lexeme.read c (s ++ stop :: rest) = .ok ⟨t, c :: s, stop :: rest⟩ := by
  obtain ⟨c, s, hs, hblank, hread⟩ := h.exists_read
  refine ⟨c, s, hs, hblank, ?_⟩
  rcases ht with ⟨x, rfl⟩ | ⟨n, rfl⟩
  · obtain ⟨hmantissa, -, hvalue⟩ := Lexeme.of_read_number hread
    rw [read_of_isMantissa hmantissa, ← List.cons_append,
      splitNumber_append_stop (endsLiteral_of_not_isAsciiWord hword hpoint) hvalue]
    dsimp only
    rw [hvalue]
  · obtain ⟨hletter, hspelling, rfl⟩ := Lexeme.of_read_name hread
    have hall : ∀ d ∈ s, isAsciiWord d = true :=
      List.takeWhile_eq_self_iff.mp (List.cons.inj hspelling).2.symm
    rw [read_of_isAsciiLetter hletter, takeWhile_upTo hall hword, dropWhile_upTo hall hword]

/-! ### The characters of an operand -/

/-- The characters that the rewriting of periods takes for an argument. -/
def Fract.isPart (c : Char) : Bool :=
  isWord c || c == '.'

theorem isWord_of_isAsciiWord (h : isAsciiWord c = true) : isWord c = true := by
  cases hdigit : isAsciiDigit c with
  | true => exact isWord_of_isAsciiDigit hdigit
  | false =>
    rw [isAsciiWord, hdigit, Bool.or_false] at h
    exact isWord_of_isNameStart h

theorem Fract.isPart_of_isMantissa (h : Lexeme.isMantissa c = true) : isPart c = true := by
  rw [Lexeme.isMantissa, Bool.or_eq_true] at h
  rw [isPart, Bool.or_eq_true]
  exact h.imp_left isWord_of_isAsciiDigit

theorem Fract.isPart_eq_false_of_isBlank (h : isBlank c = true) : isPart c = false := by
  have hpoint : c ≠ '.' := by
    rintro rfl
    exact absurd h (by decide)
  rw [isPart, isWord_eq_false_of_isBlank h, beq_eq_false_iff_ne.mpr hpoint]
  rfl

theorem Fract.isPart_eq_false_of_isSign (h : Lexeme.isSign c = true) : isPart c = false := by
  rcases Lexeme.isSign_iff.mp h with rfl | rfl <;> decide

/-- An operand starts with a part of an argument, and has parts and signs only. -/
theorem IsToken.isPart_or_isSign (h : IsToken a t) (ht : t.IsOperand) :
    (∃ c s, a.toList = c :: s ∧ Fract.isPart c = true) ∧
      ∀ c ∈ a.toList, Fract.isPart c = true ∨ Lexeme.isSign c = true := by
  obtain ⟨c, s, hs, -, hread⟩ := h.exists_read
  rw [hs]
  rcases ht with ⟨x, rfl⟩ | ⟨n, rfl⟩
  · obtain ⟨hmantissa, -, hvalue⟩ := Lexeme.of_read_number hread
    refine ⟨⟨c, s, rfl, Fract.isPart_of_isMantissa hmantissa⟩, ?_⟩
    obtain ⟨mantissa, exponent, heq, -, hall, hexponent⟩ := exists_mantissa_of_readUnsigned? hvalue
    rw [heq, List.forall_mem_append]
    refine ⟨fun d hd ↦ .inl (Fract.isPart_of_isMantissa (hall d hd)), ?_⟩
    rcases hexponent with rfl | ⟨e, sign, digits, rfl, he, hsign, -, -, hdigits⟩
    · exact List.forall_mem_nil _
    · rw [List.cons_append, List.forall_mem_cons, List.forall_mem_append]
      refine ⟨.inl ?_, fun d hd ↦ .inr (hsign d hd), fun d hd ↦ .inl ?_⟩
      · rcases he with rfl | rfl <;> decide
      · exact Fract.isPart_of_isMantissa (isMantissa_of_isAsciiDigit (hdigits d hd))
  · obtain ⟨hletter, hspelling, -⟩ := Lexeme.of_read_name hread
    have hall : ∀ d ∈ s, isAsciiWord d = true :=
      List.takeWhile_eq_self_iff.mp (List.cons.inj hspelling).2.symm
    have hpart {d : Char} (hd : isAsciiWord d = true) : Fract.isPart d = true := by
      rw [Fract.isPart, isWord_of_isAsciiWord hd, Bool.true_or]
    have hc := hpart (isAsciiWord_of_isNameStart hletter)
    exact ⟨⟨c, s, rfl, hc⟩, List.forall_mem_cons.mpr ⟨.inl hc, fun d hd ↦ .inl (hpart (hall d hd))⟩⟩

end Tokens

/-! ### Finding the arguments -/

/-- A text with spaces and tabs around it. -/
def IsSpaced (a : String) (s : List Char) : Prop :=
  ∃ before after, s = before ++ (a.toList ++ after) ∧ ∀ c ∈ before ++ after, c = ' ' ∨ c = '\t'

/-- A period `fract(n, d, s)` with any spaces and tabs around its arguments. -/
def IsFract (n d s period : String) : Prop :=
  ∃ n' d' s', IsSpaced n n' ∧ IsSpaced d d' ∧ IsSpaced s s' ∧
    period.toList = "fract(".toList ++ n' ++ [','] ++ d' ++ [','] ++ s' ++ [')']

/-- No character of a text is a sign. -/
def IsUnsigned (a : String) : Prop :=
  ∀ c ∈ a.toList, Lexeme.isSign c = false

instance (a : String) : Decidable (IsUnsigned a) :=
  decidable_of_iff (a.toList.all fun c ↦ !Lexeme.isSign c) (by simp [IsUnsigned])

namespace Fract

variable {a n d s period : String} {t tn td ts : Token} {spaced before after rest : List Char}
  {stop : Char}

theorem isBlank_of_space {c : Char} (h : c = ' ' ∨ c = '\t') : isBlank c = true := by
  rcases h with rfl | rfl <;> decide

theorem argument?_eq (text : List Char) :
    argument? text =
      match (dropBlanks text).takeWhile isPart with
      | [] => none
      | argument => some (argument, dropBlanks ((dropBlanks text).dropWhile isPart)) :=
  rfl

/-- An argument reaches up to the first character that is none of its parts. -/
theorem argument?_upTo {text : List Char} (hbefore : ∀ c ∈ before, isBlank c = true)
    (hne : text ≠ []) (htext : ∀ c ∈ text, isPart c = true)
    (hafter : ∀ c ∈ after, isBlank c = true) (hpart : isPart stop = false)
    (hblank : isBlank stop = false) (rest : List Char) :
    argument? (before ++ (text ++ (after ++ stop :: rest))) = some (text, stop :: rest) := by
  obtain ⟨c, more, rfl⟩ := List.exists_cons_of_ne_nil hne
  have hc : isBlank c = false := by
    by_contra hblank
    have hpart := isPart_eq_false_of_isBlank (Bool.not_eq_false _ ▸ hblank)
    rw [htext c List.mem_cons_self] at hpart
    cases hpart
  have hstart : dropBlanks (before ++ (c :: more ++ (after ++ stop :: rest))) =
      c :: more ++ (after ++ stop :: rest) :=
    dropWhile_upTo hbefore hc _
  -- behind the parts stands a blank or the character that ends the argument
  obtain ⟨next, tail, htail, hnext⟩ :
      ∃ next tail, after ++ stop :: rest = next :: tail ∧ isPart next = false := by
    cases after with
    | nil => exact ⟨stop, rest, rfl, hpart⟩
    | cons b after =>
      exact ⟨b, _, rfl, isPart_eq_false_of_isBlank (hafter b List.mem_cons_self)⟩
  have htake : (c :: more ++ (after ++ stop :: rest)).takeWhile isPart = c :: more := by
    rw [htail]
    exact takeWhile_upTo htext hnext tail
  have hdrop : (c :: more ++ (after ++ stop :: rest)).dropWhile isPart = after ++ stop :: rest := by
    rw [htail]
    exact dropWhile_upTo htext hnext tail
  have hend : dropBlanks (after ++ stop :: rest) = stop :: rest := dropWhile_upTo hafter hblank rest
  rw [argument?_eq, hstart, htake, hdrop, hend]

theorem argument?_of_unsigned (h : IsToken a t) (ht : t.IsOperand) (ha : IsUnsigned a)
    (hspaced : IsSpaced a spaced) (hpart : isPart stop = false) (hblank : isBlank stop = false)
    (rest : List Char) : argument? (spaced ++ stop :: rest) = some (a.toList, stop :: rest) := by
  obtain ⟨before, after, rfl, hspaces⟩ := hspaced
  rw [List.forall_mem_append] at hspaces
  obtain ⟨⟨c, more, hcons, -⟩, hparts⟩ := h.isPart_or_isSign ht
  have hne : a.toList ≠ [] := hcons ▸ List.cons_ne_nil c more
  have hall : ∀ c ∈ a.toList, isPart c = true := fun c hc ↦
    (hparts c hc).resolve_right (Bool.eq_false_iff.mp (ha c hc))
  rw [List.append_assoc, List.append_assoc]
  exact argument?_upTo (fun c hc ↦ isBlank_of_space (hspaces.1 c hc)) hne hall
    (fun c hc ↦ isBlank_of_space (hspaces.2 c hc)) hpart hblank rest

/-- A signed argument is cut off in front of its sign. -/
theorem argument?_of_signed (h : IsToken a t) (ht : t.IsOperand) (ha : ¬IsUnsigned a)
    (hspaced : IsSpaced a spaced) (rest : List Char) :
    ∃ front sign more, argument? (spaced ++ rest) = some (front, sign :: more) ∧
      Lexeme.isSign sign = true := by
  obtain ⟨before, after, rfl, hspaces⟩ := hspaced
  rw [List.forall_mem_append] at hspaces
  obtain ⟨⟨c, more, hcons, hc⟩, hparts⟩ := h.isPart_or_isSign ht
  have hsplit := List.takeWhile_append_dropWhile (p := isPart) (l := a.toList)
  have hfront : ∀ c ∈ a.toList.takeWhile isPart, isPart c = true :=
    fun c hc ↦ List.mem_takeWhile_imp hc
  have hne : a.toList.takeWhile isPart ≠ [] := by
    rw [hcons, List.takeWhile_cons_of_pos hc]
    exact List.cons_ne_nil _ _
  cases hback : a.toList.dropWhile isPart with
  | nil =>
    refine absurd (fun c hc ↦ ?_) ha
    by_contra hsign
    have hpart := isPart_eq_false_of_isSign (Bool.not_eq_false _ ▸ hsign)
    rw [List.dropWhile_eq_nil_iff.mp hback c hc] at hpart
    cases hpart
  | cons sign back =>
    have hnot : isPart sign = false := by
      have hstop := List.head?_dropWhile_not isPart a.toList
      rw [hback] at hstop
      simpa using hstop
    have hmem : sign ∈ a.toList := by
      rw [← hsplit, hback]
      exact List.mem_append_right _ List.mem_cons_self
    have hsign : Lexeme.isSign sign = true :=
      (hparts sign hmem).resolve_left (Bool.eq_false_iff.mp hnot)
    have hblank : isBlank sign = false := by
      rcases Lexeme.isSign_iff.mp hsign with rfl | rfl <;> decide
    refine ⟨a.toList.takeWhile isPart, sign, back ++ (after ++ rest), ?_, hsign⟩
    rw [hback] at hsplit
    have hargument : argument? (before ++ (a.toList.takeWhile isPart ++
          ([] ++ sign :: (back ++ (after ++ rest))))) = _ :=
      argument?_upTo (fun c hc ↦ isBlank_of_space (hspaces.1 c hc)) hne hfront
        (List.forall_mem_nil _) hnot hblank (back ++ (after ++ rest))
    rw [← hsplit, List.append_assoc, List.append_assoc, List.append_assoc, List.cons_append]
    rwa [hsplit]

theorem argumentWithComma?_of_unsigned (h : IsToken a t) (ht : t.IsOperand) (ha : IsUnsigned a)
    (hspaced : IsSpaced a spaced) (rest : List Char) :
    argumentWithComma? (spaced ++ ',' :: rest) = some (a.toList, rest) := by
  unfold argumentWithComma?
  rw [argument?_of_unsigned h ht ha hspaced (by decide) (by decide)]
  rfl

theorem argumentWithComma?_of_signed (h : IsToken a t) (ht : t.IsOperand) (ha : ¬IsUnsigned a)
    (hspaced : IsSpaced a spaced) (rest : List Char) :
    argumentWithComma? (spaced ++ rest) = none := by
  obtain ⟨front, sign, more, hargument, hsign⟩ := argument?_of_signed h ht ha hspaced rest
  unfold argumentWithComma?
  rw [hargument]
  rcases Lexeme.isSign_iff.mp hsign with rfl | rfl <;> rfl

theorem arguments?_fract (rest : List Char) :
    arguments? ("fract(".toList ++ rest) = (do
      let (n, rest) ← argumentWithComma? rest
      let (d, rest) ← argumentWithComma? rest
      match ← argument? rest with
      | (scale, [')']) => some (n, d, scale)
      | _ => none) :=
  rfl

theorem arguments?_append {n' d' s' : List Char} :
    arguments? ("fract(".toList ++ n' ++ [','] ++ d' ++ [','] ++ s' ++ [')']) = (do
      let (n, rest) ← argumentWithComma? (n' ++ ',' :: (d' ++ ',' :: (s' ++ [')'])))
      let (d, rest) ← argumentWithComma? rest
      match ← argument? rest with
      | (scale, [')']) => some (n, d, scale)
      | _ => none) := by
  rw [← arguments?_fract]
  simp only [List.append_assoc, List.cons_append, List.nil_append]

/-- The arguments of a period, when none of them has a sign. -/
theorem arguments?_of_unsigned (hn : IsToken n tn) (htn : tn.IsOperand) (hd : IsToken d td)
    (htd : td.IsOperand) (hs : IsToken s ts) (hts : ts.IsOperand)
    (hsigns : IsUnsigned n ∧ IsUnsigned d ∧ IsUnsigned s) (h : IsFract n d s period) :
    arguments? period.toList = some (n.toList, d.toList, s.toList) := by
  obtain ⟨n', d', s', hn', hd', hs', hperiod⟩ := h
  rw [hperiod, arguments?_append, argumentWithComma?_of_unsigned hn htn hsigns.1 hn']
  simp only [Option.bind_eq_bind, Option.bind_some]
  rw [argumentWithComma?_of_unsigned hd htd hsigns.2.1 hd']
  simp only [Option.bind_some]
  rw [argument?_of_unsigned hs hts hsigns.2.2 hs' (by decide) (by decide)]
  rfl

/-- With a sign in one of its arguments a period has no arguments. -/
theorem arguments?_of_signed (hn : IsToken n tn) (htn : tn.IsOperand) (hd : IsToken d td)
    (htd : td.IsOperand) (hs : IsToken s ts) (hts : ts.IsOperand)
    (hsigns : ¬(IsUnsigned n ∧ IsUnsigned d ∧ IsUnsigned s)) (h : IsFract n d s period) :
    arguments? period.toList = none := by
  obtain ⟨n', d', s', hn', hd', hs', hperiod⟩ := h
  rw [hperiod, arguments?_append]
  by_cases hnsigns : IsUnsigned n
  · rw [argumentWithComma?_of_unsigned hn htn hnsigns hn']
    simp only [Option.bind_eq_bind, Option.bind_some]
    by_cases hdsigns : IsUnsigned d
    · rw [argumentWithComma?_of_unsigned hd htd hdsigns hd']
      simp only [Option.bind_some]
      obtain ⟨front, sign, more, hargument, hsign⟩ := argument?_of_signed hs hts
        (fun hssigns ↦ hsigns ⟨hnsigns, hdsigns, hssigns⟩) hs' [')']
      rw [hargument]
      rcases Lexeme.isSign_iff.mp hsign with rfl | rfl <;> rfl
    · rw [argumentWithComma?_of_signed hd htd hdsigns hd']
      rfl
  · rw [argumentWithComma?_of_signed hn htn hnsigns hn']
    rfl

end Fract

section Periods

variable {n d s period : String}

theorem IsFract.trimmed_eq (h : IsFract n d s period) : trimmed period = period := by
  obtain ⟨n', d', s', -, -, -, hperiod⟩ := h
  have hends : HasBareEnds period.toList := by
    rw [hperiod]
    exact hasBareEnds_concat (by decide) (by decide)
  exact trimmed_eq_self hends

theorem IsFract.contains_eq (h : IsFract n d s period) : contains period "fract(" = true := by
  obtain ⟨n', d', s', -, -, -, hperiod⟩ := h
  rw [contains, occursIn_iff, hperiod]
  simp only [List.append_assoc]
  exact (List.prefix_append _ _).isInfix

end Periods

/-! ### The expression of a period -/

/-- A text that has certain tokens, wherever it stands. -/
def ReadsAs (s : List Char) (tokens : List Token) : Prop :=
  ∀ expression offset, ∃ placed, tokensFrom expression offset s = .ok placed ∧
    placed.map PlacedToken.token = tokens

section Expression

variable {n d s : String} {tn td ts t : Token} {en ed es : Expr} {closure : Variables}
  {x y z : Float}

theorem readsAs_nil : ReadsAs [] [] := by
  intro expression offset
  rw [tokensFrom]
  exact ⟨[], rfl, rfl⟩

theorem ReadsAs.cons {c : Char} {chars : List Char} {l : Lexeme} {tokens : List Token}
    (h : ReadsAs l.rest tokens) (hblank : isAsciiBlank c = false)
    (hread : Lexeme.read c chars = .ok l) : ReadsAs (c :: chars) (l.token :: tokens) := by
  intro expression offset
  obtain ⟨placed, hplaced, htokens⟩ := h expression (offset + byteLength l.spelling)
  rw [tokensFrom_lexeme hblank hread, hplaced]
  exact ⟨_, rfl, congrArg (l.token :: ·) htokens⟩

theorem ReadsAs.symbol {c : Char} {chars : List Char} {tokens : List Token}
    (h : ReadsAs chars tokens) (hblank : isAsciiBlank c = false)
    (hread : Lexeme.read c chars = .ok ⟨t, [c], chars⟩) : ReadsAs (c :: chars) (t :: tokens) :=
  ReadsAs.cons (l := ⟨t, [c], chars⟩) h hblank hread

theorem ReadsAs.operand {a : String} {stop : Char} {rest : List Char} {tokens : List Token}
    (h : ReadsAs (stop :: rest) tokens) (ha : IsToken a t) (ht : t.IsOperand)
    (hword : isAsciiWord stop = false) (hpoint : stop ≠ '.') :
    ReadsAs (a.toList ++ stop :: rest) (t :: tokens) := by
  obtain ⟨c, more, hcons, hblank, hread⟩ := ha.read_append ht hword hpoint rest
  rw [hcons]
  exact ReadsAs.cons (l := ⟨t, c :: more, stop :: rest⟩) h hblank hread

theorem toList_expand (n d s : List Char) :
    (Fract.expand n d s).toList =
      '(' :: (n ++ '/' :: (d ++ ')' :: '*' :: '(' :: (s ++ [')']))) := by
  simp [Fract.expand]

theorem readsAs_expand (hn : IsToken n tn) (htn : tn.IsOperand) (hd : IsToken d td)
    (htd : td.IsOperand) (hs : IsToken s ts) (hts : ts.IsOperand) :
    ReadsAs (Fract.expand n.toList d.toList s.toList).toList
      [.leftParen, tn, .slash, td, .rightParen, .star, .leftParen, ts, .rightParen] := by
  rw [toList_expand]
  have hend : ReadsAs [')'] [.rightParen] := readsAs_nil.symbol rfl rfl
  have hscale : ReadsAs ('(' :: (s.toList ++ [')'])) [.leftParen, ts, .rightParen] :=
    (hend.operand hs hts rfl (by decide)).symbol rfl rfl
  have hstar := (hscale.symbol (c := '*') rfl rfl).symbol (c := ')') rfl rfl
  have hslash := (hstar.operand hd htd rfl (by decide)).symbol (c := '/') rfl rfl
  exact (hslash.operand hn htn rfl (by decide)).symbol rfl rfl

/-- The text has the tree of a product with a quotient. -/
theorem parseExpr_expand (hn : IsToken n tn) (htn : tn.IsOperand) (hd : IsToken d td)
    (htd : td.IsOperand) (hs : IsToken s ts) (hts : ts.IsOperand) (hen : Derives 5 [tn] en)
    (hed : Derives 5 [td] ed) (hes : Derives 5 [ts] es) :
    parseExpr (Fract.expand n.toList d.toList s.toList) =
      .ok (.binary .mul (.binary .div en ed) es) := by
  have hdiv : Token.slash.binaryOp? = some .div := rfl
  have hmul : Token.star.binaryOp? = some .mul := rfl
  have hquotient : Derives 3 ([tn] ++ .slash :: [td]) (.binary .div en ed) :=
    .chain hdiv (hen.mono (by decide)) (hed.mono (by decide))
  have hproduct : Derives 3 ((.leftParen :: ([tn] ++ .slash :: [td]) ++ [.rightParen]) ++
      .star :: (.leftParen :: [ts] ++ [.rightParen])) (.binary .mul (.binary .div en ed) es) :=
    .chain hmul ((hquotient.mono (by decide)).group.mono (by decide))
      ((hes.mono (by decide)).group.mono (by decide))
  obtain ⟨placed, hplaced, htokens⟩ := readsAs_expand hn htn hd htd hs hts _ 0
  refine parseExpr_eq_ok_iff.mpr ⟨placed, hplaced, ?_⟩
  rw [htokens]
  exact hproduct.mono (by decide)

end Expression

/-- What stands for an operand over a closure: a name with a value, or a literal. It is read as a
single token. -/
inductive IsArgument (closure : Variables) (a : String) (x : Float) : Prop where
  | name (token : IsToken a (.name a)) (value : closure.get? a = some x)
  | number (token : IsToken a (.number x))

section Arguments

variable {n d s : String} {closure : Variables} {x y z : Float}

/-- The token and the tree of an argument. -/
theorem IsArgument.exists_operand {a : String} (h : IsArgument closure a x) :
    ∃ t e, IsToken a t ∧ t.IsOperand ∧ Derives 5 [t] e ∧ ∀ text, e.eval closure text = .ok x := by
  cases h with
  | name token value =>
    refine ⟨.name a, .name a, token, .inr ⟨a, rfl⟩, .name a, fun text ↦ ?_⟩
    rw [Expr.eval, value]
  | number token => exact ⟨.number x, .number x, token, .inl ⟨x, rfl⟩, .number x, fun text ↦ rfl⟩

theorem trimmed_expand (n d s : List Char) :
    trimmed (Fract.expand n d s) = Fract.expand n d s := by
  have hends : HasBareEnds (Fract.expand n d s).toList := by
    rw [Fract.expand, String.toList_ofList]
    exact hasBareEnds_concat (by decide) (by decide)
  exact trimmed_eq_self hends

/-- The value of the text, unless it is a name as a whole. -/
theorem compute_expand (hn : IsArgument closure n x) (hd : IsArgument closure d y)
    (hs : IsArgument closure s z)
    (hname : closure.get? (Fract.expand n.toList d.toList s.toList) = none) :
    compute (Fract.expand n.toList d.toList s.toList) closure =
      if y == 0 then .error (.divisionByZero (Fract.expand n.toList d.toList s.toList))
      else .ok (x / y * z) := by
  obtain ⟨tn, en, htokenN, htn, hen, hx⟩ := hn.exists_operand
  obtain ⟨td, ed, htokenD, htd, hed, hy⟩ := hd.exists_operand
  obtain ⟨ts, es, htokenS, hts, hes, hz⟩ := hs.exists_operand
  unfold compute
  simp only [trimmed_expand, hname,
    parseExpr_expand htokenN htn htokenD htd htokenS hts hen hed hes, Expr.eval, hx, hy, hz,
    BinaryOp.apply?, bind, Except.bind]
  by_cases hzero : (y == 0) = true <;> simp [hzero]

theorem periodExpression_of_unsigned {period : String} (hn : IsArgument closure n x)
    (hd : IsArgument closure d y) (hs : IsArgument closure s z) (h : IsFract n d s period)
    (hsigns : IsUnsigned n ∧ IsUnsigned d ∧ IsUnsigned s) :
    periodExpression period = .ok (Fract.expand n.toList d.toList s.toList) := by
  obtain ⟨tn, -, htokenN, htn, -⟩ := hn.exists_operand
  obtain ⟨td, -, htokenD, htd, -⟩ := hd.exists_operand
  obtain ⟨ts, -, htokenS, hts, -⟩ := hs.exists_operand
  simp only [periodExpression, h.trimmed_eq, h.contains_eq, if_true,
    Fract.arguments?_of_unsigned htokenN htn htokenD htd htokenS hts hsigns h]

theorem periodExpression_of_signed {period : String} (hn : IsArgument closure n x)
    (hd : IsArgument closure d y) (hs : IsArgument closure s z) (h : IsFract n d s period)
    (hsigns : ¬(IsUnsigned n ∧ IsUnsigned d ∧ IsUnsigned s)) :
    periodExpression period = .error (.malformedFract period) := by
  obtain ⟨tn, -, htokenN, htn, -⟩ := hn.exists_operand
  obtain ⟨td, -, htokenD, htd, -⟩ := hd.exists_operand
  obtain ⟨ts, -, htokenS, hts, -⟩ := hs.exists_operand
  simp only [periodExpression, h.trimmed_eq, h.contains_eq, if_true,
    Fract.arguments?_of_signed htokenN htn htokenD htd htokenS hts hsigns h]

/-- A timing set with a value for its period has that period, and then its edges. -/
theorem TimingSet.result_resolve_of_ok {t : TimingSet} {eqnset : Nat} {text : String} {v : Float}
    (htext : t.periodText eqnset = .ok text)
    (hv : (Traced.valueOf compute (.period t.num eqnset) text closure).result = .ok v) :
    (t.resolve compute eqnset closure).result =
      (settleEdgeBlocks compute closure t.edgeblocks .empty).result.map (⟨v, ·⟩) := by
  rw [TimingSet.resolve_eq, htext, Traced.lift_ok_bind, Traced.bind_of_ok hv]
  dsimp only
  rw [Traced.result_bind]
  cases (settleEdgeBlocks compute closure t.edgeblocks .empty).result <;> rfl

theorem TimingSet.result_resolve_of_error {t : TimingSet} {eqnset : Nat} {text : String}
    {error : ResolveError} (htext : t.periodText eqnset = .ok text)
    (herror : (Traced.valueOf compute (.period t.num eqnset) text closure).result =
      .error error) : (t.resolve compute eqnset closure).result = .error error := by
  rw [TimingSet.resolve_eq, htext, Traced.lift_ok_bind, Traced.bind_of_error herror]

/-- Periods that are written as fractions. When no argument has a sign, the period is `x / y * z`
for the values of the arguments, or an evaluation error of the period for a division by zero,
exactly when the divisor is zero; only a closure that has the rewritten text for a name gives the
value of that name instead. When an argument has a sign, which a literal may have in its exponent,
the period is malformed. -/
theorem TimingSet.resolve_fract {t : TimingSet} {eqnset : Nat} {period : String}
    (hn : IsArgument closure n x) (hd : IsArgument closure d y) (hs : IsArgument closure s z)
    (hperiod : t.period = some period) (h : IsFract n d s period) :
    (IsUnsigned n ∧ IsUnsigned d ∧ IsUnsigned s →
      (closure.get? (Fract.expand n.toList d.toList s.toList) = none →
        (t.resolve compute eqnset closure).result =
          if y == 0 then
            .error (.eval (.period t.num eqnset)
              (.divisionByZero (Fract.expand n.toList d.toList s.toList)))
          else
            (settleEdgeBlocks compute closure t.edgeblocks .empty).result.map (⟨x / y * z, ·⟩)) ∧
      ∀ v, closure.get? (Fract.expand n.toList d.toList s.toList) = some v →
        (t.resolve compute eqnset closure).result =
          (settleEdgeBlocks compute closure t.edgeblocks .empty).result.map (⟨v, ·⟩)) ∧
    (¬(IsUnsigned n ∧ IsUnsigned d ∧ IsUnsigned s) →
      t.resolve compute eqnset closure = ⟨[], .error (.malformedFract period)⟩) := by
  have hperiodText : t.periodText eqnset = periodExpression period := by
    unfold periodText
    rw [hperiod]
  refine ⟨fun hsigns ↦ ?_, fun hsigns ↦ ?_⟩
  · have htext : t.periodText eqnset = .ok (Fract.expand n.toList d.toList s.toList) :=
      hperiodText.trans (periodExpression_of_unsigned hn hd hs h hsigns)
    refine ⟨fun hname ↦ ?_, fun v hv ↦ ?_⟩
    · have hvalue := compute_expand hn hd hs hname
      rw [← trimmed_expand] at hname
      split
      · rename_i hzero
        rw [if_pos hzero] at hvalue
        refine result_resolve_of_error htext ?_
        rw [Traced.valueOf_of_get?_eq_none hname, hvalue]
        rfl
      · rename_i hzero
        rw [if_neg hzero] at hvalue
        refine result_resolve_of_ok htext ?_
        rw [Traced.valueOf_of_get?_eq_none hname, hvalue]
        rfl
    · rw [← trimmed_expand] at hv
      refine result_resolve_of_ok htext ?_
      rw [Traced.valueOf_of_get? hv]
      rfl
  · rw [resolve_eq, hperiodText, periodExpression_of_signed hn hd hs h hsigns,
      Traced.lift_error_bind]

end Arguments

/-! ### Two periods -/

/-- Whether a text is read as one number. -/
def isNumeral (a : String) (x : Float) : Bool :=
  match tokenize a with
  | .ok [⟨.number y, 0⟩] => y = x
  | _ => false

theorem isArgument_of_isNumeral {closure : Variables} {a : String} {x : Float}
    (h : isNumeral a x = true) (htrimmed : trimmed a = a) : IsArgument closure a x := by
  unfold isNumeral at h
  split at h
  · rename_i y htokens
    obtain rfl := of_decide_eq_true h
    exact .number ⟨htokens, htrimmed⟩
  · cases h

/-- A closure with one name. -/
def oneName : Variables :=
  .ofList [("X", 3)]

/-- A timing set without edges. -/
def fractSet (period : String) : TimingSet :=
  { TimingSet.ofNum 1 "" with period := some period }

theorem resolve_fract_spaced : ∃ edges : PinEdges,
    ((fractSet "fract( 6 ,\tX , 1e3 )").resolve compute 1 oneName).result = .ok edges ∧
      edges.period = 6 / 3 * 1000 := by
  have hn : IsArgument oneName "6" 6 :=
    isArgument_of_isNumeral (by decide +kernel) (by decide +kernel)
  have hd : IsArgument oneName "X" 3 :=
    .name ⟨tokenize_of_isIdentifier (by decide), by decide +kernel⟩ (by decide)
  have hs : IsArgument oneName "1e3" 1000 :=
    isArgument_of_isNumeral (by decide +kernel) (by decide +kernel)
  have hform : IsFract "6" "X" "1e3" "fract( 6 ,\tX , 1e3 )" :=
    ⟨[' ', '6', ' '], ['\t', 'X', ' '], [' ', '1', 'e', '3', ' '],
      ⟨[' '], [' '], rfl, by simp⟩, ⟨['\t'], [' '], rfl, by simp⟩,
      ⟨[' '], [' '], rfl, by simp⟩, rfl⟩
  obtain ⟨hvalue, -⟩ := (@TimingSet.resolve_fract _ _ _ _ _ _ _
    (fractSet "fract( 6 ,\tX , 1e3 )") 1 _ hn hd hs rfl hform).1 (by decide +kernel)
  have hresult := hvalue (by decide +kernel)
  rw [if_neg (by decide +kernel)] at hresult
  exact ⟨_, hresult, rfl⟩

/-- A literal with a signed exponent has a value, but a period with it has none. -/
theorem not_forall_fract_resolves :
    ¬∀ (closure : Variables) (n d s : String) (x y z : Float) (t : TimingSet) (eqnset : Nat)
      (period : String), IsArgument closure n x → IsArgument closure d y →
        IsArgument closure s z → t.period = some period → IsFract n d s period →
          (y == 0) = false → ∀ edges,
            (settleEdgeBlocks compute closure t.edgeblocks .empty).result = .ok edges →
              (t.resolve compute eqnset closure).result = .ok ⟨x / y * z, edges⟩ := by
  intro hall
  have hform : IsFract "1e-9" "2" "3" "fract(1e-9, 2, 3)" :=
    ⟨['1', 'e', '-', '9'], [' ', '2'], [' ', '3'], ⟨[], [], rfl, by simp⟩,
      ⟨[' '], [], rfl, by simp⟩, ⟨[' '], [], rfl, by simp⟩, rfl⟩
  have hresult := hall oneName "1e-9" "2" "3" 1e-9 2 3 (fractSet "fract(1e-9, 2, 3)") 1 _
    (isArgument_of_isNumeral (by decide +kernel) (by decide +kernel))
    (isArgument_of_isNumeral (by decide +kernel) (by decide +kernel))
    (isArgument_of_isNumeral (by decide +kernel) (by decide +kernel)) rfl hform
    (by decide +kernel) .empty rfl
  have hfail : ((fractSet "fract(1e-9, 2, 3)").resolve compute 1 oneName).result.isOk = false := by
    decide +kernel
  rw [hresult] at hfail
  cases hfail

end TesterSetup
