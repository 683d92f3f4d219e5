import TesterSetup.Proofs.ExactNumeral
import TesterSetup.Proofs.ExprGrammar

/-!
# Written expressions

`Expr.written` writes a tree out fully parenthesised: every operator and every conditional stands
in parentheses of its own, and a blank follows each token. The text is read back as the tree
(`parseExpr_written`), for any way of writing numbers that the reader of literals undoes.

A blank ends every token: what `splitExponent` and `splitNumber` take of a literal and a character
that ends it is the literal (`splitNumber_append_stop`), and names and symbols stop at a blank as
well. So the tokens of the text are those it was written with (`tokensFrom_spelled`), and the
grammar derives the tree from them (`derives_parenthesised`). `parseExpr_grammar` states the whole.
-/

set_option autoImplicit false

namespace TesterSetup

open TesterSetup.Text

/-! ### Spellings of numbers -/

/-- An exponent of a literal: a letter, at most one sign, and digits. -/
def IsExponent (s : List Char) : Prop :=
  ∃ e sign digits, s = e :: sign ++ digits ∧ (e = 'e' ∨ e = 'E') ∧
    (∀ c ∈ sign, Lexeme.isSign c = true) ∧ sign.length ≤ 1 ∧ digits ≠ [] ∧
    ∀ c ∈ digits, isAsciiDigit c = true

section Numbers

variable {s rest : List Char} {x : Float}

theorem isMantissa_of_isAsciiDigit {c : Char} (h : isAsciiDigit c = true) :
    Lexeme.isMantissa c = true := by
  rw [Lexeme.isMantissa, h]
  rfl

theorem Lexeme.isSign_iff {c : Char} : isSign c = true ↔ c = '+' ∨ c = '-' := by
  rw [isSign, Bool.or_eq_true, beq_iff_eq, beq_iff_eq]

theorem digits_of_readDigits? {n : Nat} (h : readDigits? s = some n) :
    s ≠ [] ∧ ∀ c ∈ s, isAsciiDigit c = true := by
  unfold readDigits? at h
  split at h
  · rename_i hdigits
    exact ⟨hdigits.1, List.all_eq_true.mp hdigits.2⟩
  · cases h

theorem isExponent_of_readExponent? {e : Char} {value : Int} (he : e = 'e' ∨ e = 'E')
    (h : Decimal.readExponent? s = some value) : IsExponent (e :: s) := by
  unfold Decimal.readExponent? at h
  split at h
  all_goals
    obtain ⟨_, hread, -⟩ := Option.map_eq_some_iff.mp h
    obtain ⟨_, hdigits, -⟩ := Option.bind_eq_some_iff.mp hread
  · exact ⟨e, ['-'], _, rfl, he, List.forall_mem_singleton.mpr rfl, Nat.le_refl 1,
      digits_of_readDigits? hdigits⟩
  · exact ⟨e, ['+'], _, rfl, he, List.forall_mem_singleton.mpr rfl, Nat.le_refl 1,
      digits_of_readDigits? hdigits⟩
  · exact ⟨e, [], _, rfl, he, by simp, Nat.zero_le 1, digits_of_readDigits? hdigits⟩

theorem isExponent_of_map_readExponent? {e : Char} {value : Int → Float}
    (h : (if e = 'e' ∨ e = 'E' then (Decimal.readExponent? s).map value else none) = some x) :
    IsExponent (e :: s) := by
  obtain ⟨hletter, hread⟩ := Option.ite_none_right_eq_some.mp h
  obtain ⟨_, hexponent, -⟩ := Option.map_eq_some_iff.mp hread
  exact isExponent_of_readExponent? hletter hexponent

/-- A literal is digits and points, and possibly an exponent. -/
theorem exists_mantissa_of_readUnsigned? (h : Decimal.readUnsigned? s = some x) :
    ∃ mantissa exponent, s = mantissa ++ exponent ∧ mantissa ≠ [] ∧
      (∀ c ∈ mantissa, Lexeme.isMantissa c = true) ∧ (exponent = [] ∨ IsExponent exponent) := by
  have hdigits (l : List Char) : ∀ c ∈ l.takeWhile isAsciiDigit, Lexeme.isMantissa c = true :=
    fun c hc ↦ isMantissa_of_isAsciiDigit (List.all_eq_true.mp List.all_takeWhile c hc)
  unfold Decimal.readUnsigned? at h
  dsimp only at h
  split at h
  · rename_i after hafter
    dsimp only at h
    split at h
    · cases h
    · refine ⟨s.takeWhile isAsciiDigit ++ '.' :: after.takeWhile isAsciiDigit,
        after.dropWhile isAsciiDigit, ?_, by simp, ?_, ?_⟩
      · rw [List.append_assoc, List.cons_append, List.takeWhile_append_dropWhile, ← hafter,
          List.takeWhile_append_dropWhile]
      · rw [List.forall_mem_append, List.forall_mem_cons]
        exact ⟨hdigits s, rfl, hdigits after⟩
      · cases hrest : after.dropWhile isAsciiDigit with
        | nil => exact Or.inl rfl
        | cons e rest =>
          rw [hrest] at h
          exact Or.inr (isExponent_of_map_readExponent? h)
  · rename_i hafter
    dsimp only at h
    split at h
    · cases h
    · rename_i hne
      rw [List.append_nil] at hne
      refine ⟨_, _, List.takeWhile_append_dropWhile.symm, hne, hdigits s, ?_⟩
      cases hrest : s.dropWhile isAsciiDigit with
      | nil => exact Or.inl rfl
      | cons e rest =>
        rw [hrest] at h
        exact Or.inr (isExponent_of_map_readExponent? h)

/-- A character that ends a literal: no digit, no point and no letter of an exponent. -/
structure EndsLiteral (stop : Char) : Prop where
  not_isMantissa : Lexeme.isMantissa stop = false
  not_exponent : ¬(stop = 'e' ∨ stop = 'E')

theorem EndsLiteral.not_isAsciiDigit {stop : Char} (h : EndsLiteral stop) :
    ¬isAsciiDigit stop = true := by
  intro hdigit
  have hmantissa := isMantissa_of_isAsciiDigit hdigit
  rw [h.not_isMantissa] at hmantissa
  cases hmantissa

theorem splitExponent_append_stop {stop : Char} (hstop : EndsLiteral stop)
    (h : s = [] ∨ IsExponent s) :
    Lexeme.splitExponent (s ++ stop :: rest) = (s, stop :: rest) := by
  rcases h with rfl | ⟨e, sign, digits, rfl, he, hsign, hlength, hne, hdigits⟩
  · rw [List.nil_append, Lexeme.splitExponent]
    exact if_neg fun h ↦ hstop.not_exponent h.1
  · obtain ⟨d, ds, rfl⟩ := List.exists_cons_of_ne_nil hne
    have hd : ¬Lexeme.isSign d = true := by
      intro hd
      have hdigit := hdigits d List.mem_cons_self
      rcases Lexeme.isSign_iff.mp hd with rfl | rfl <;> exact absurd hdigit (by decide)
    have htake : (sign ++ (d :: ds ++ stop :: rest)).takeWhile Lexeme.isSign = sign := by
      rw [List.takeWhile_append_of_pos hsign, List.cons_append, List.takeWhile_cons_of_neg hd,
        List.append_nil]
    have hdrop : (sign ++ (d :: ds ++ stop :: rest)).dropWhile Lexeme.isSign =
        d :: ds ++ stop :: rest := by
      rw [List.dropWhile_append_of_pos hsign, List.cons_append, List.dropWhile_cons_of_neg hd]
    have htakeDigits : (d :: ds ++ stop :: rest).takeWhile isAsciiDigit = d :: ds := by
      rw [List.takeWhile_append_of_pos hdigits, List.takeWhile_cons_of_neg hstop.not_isAsciiDigit,
        List.append_nil]
    have hdropDigits : (d :: ds ++ stop :: rest).dropWhile isAsciiDigit = stop :: rest := by
      rw [List.dropWhile_append_of_pos hdigits,
        List.dropWhile_cons_of_neg hstop.not_isAsciiDigit]
    rw [List.append_assoc, List.cons_append, Lexeme.splitExponent]
    rw [htake, hdrop, htakeDigits, hdropDigits, if_pos ⟨he, hlength, hne⟩]

theorem splitNumber_append_stop {stop : Char} (hstop : EndsLiteral stop)
    (h : Decimal.readUnsigned? s = some x) :
    Lexeme.splitNumber (s ++ stop :: rest) = (s, stop :: rest) := by
  obtain ⟨mantissa, exponent, rfl, -, hmantissa, hexponent⟩ := exists_mantissa_of_readUnsigned? h
  have hhead : ∀ c more, exponent ++ stop :: rest = c :: more → ¬Lexeme.isMantissa c = true := by
    intro c more hcons
    rcases hexponent with rfl | ⟨e, sign, digits, rfl, he, -⟩
    · cases hcons
      exact Bool.eq_false_iff.mp hstop.not_isMantissa
    · cases hcons
      rcases he with rfl | rfl <;> decide
  obtain ⟨c, more, hcons⟩ := List.exists_cons_of_ne_nil
    (List.append_ne_nil_of_right_ne_nil exponent (List.cons_ne_nil stop rest))
  have htake : (exponent ++ stop :: rest).takeWhile Lexeme.isMantissa = [] := by
    rw [hcons, List.takeWhile_cons_of_neg (hhead c more hcons)]
  have hdrop : (exponent ++ stop :: rest).dropWhile Lexeme.isMantissa =
      exponent ++ stop :: rest := by
    rw [hcons, List.dropWhile_cons_of_neg (hhead c more hcons)]
  rw [Lexeme.splitNumber, List.append_assoc, List.dropWhile_append_of_pos hmantissa, hdrop,
    splitExponent_append_stop hstop hexponent, List.takeWhile_append_of_pos hmantissa, htake,
    List.append_nil]

end Numbers

/-! ### Spellings of tokens -/

/-- A name as it can stand in an expression. -/
def isIdentifier (n : String) : Bool :=
  match n.toList with
  | [] => false
  | c :: s => (isAsciiLetter c || c == '_') && s.all isAsciiWord

/-- The text of a token, for a way of writing numbers. -/
def Token.text (numeral : Float → List Char) : Token → List Char
  | .number x => numeral x
  | .name n => n.toList
  | .plus => ['+']
  | .minus => ['-']
  | .star => ['*']
  | .slash => ['/']
  | .leftParen => ['(']
  | .rightParen => [')']
  | .question => ['?']
  | .colon => [':']
  | .less => ['<']
  | .greater => ['>']
  | .lessEqual => ['<', '=']
  | .greaterEqual => ['>', '=']
  | .equal => ['=', '=']
  | .notEqual => ['!', '=']

/-- All tokens but numbers and names have one spelling. -/
def Token.isSymbol : Token → Bool
  | .number _ => false
  | .name _ => false
  | _ => true

/-- A spelling of a token is read as that token when a blank follows. -/
def Token.IsSpelling (t : Token) (s : List Char) : Prop :=
  ∃ c more, s = c :: more ∧ isAsciiBlank c = false ∧
    ∀ rest, Lexeme.read c (more ++ ' ' :: rest) = .ok ⟨t, s, ' ' :: rest⟩

section Spellings

variable {c : Char} {s rest : List Char} {x : Float} {n : String}

theorem isAsciiBlank_eq_false (h : isAsciiWord c = true ∨ c = '.') : isAsciiBlank c = false := by
  cases hblank : isAsciiBlank c with
  | false => rfl
  | true =>
    simp only [isAsciiBlank, Bool.or_eq_true, beq_iff_eq] at hblank
    rcases hblank with (((rfl | rfl) | rfl) | rfl) | rfl <;> exact absurd h (by decide)

theorem isMantissa_eq_false (h : (isAsciiLetter c || c == '_') = true) :
    Lexeme.isMantissa c = false := by
  have hbound : 65 ≤ c.val.toNat := by
    have ha : 'a'.val.toNat = 97 := rfl
    have hA : 'A'.val.toNat = 65 := rfl
    rcases (Bool.or_eq_true _ _).mp h with hletter | hunderscore
    · simp only [isAsciiLetter, Bool.or_eq_true, Bool.and_eq_true, decide_eq_true_eq,
        Char.le_def, UInt32.le_iff_toNat_le] at hletter
      omega
    · rw [beq_iff_eq.mp hunderscore]
      decide
  cases hmantissa : Lexeme.isMantissa c with
  | false => rfl
  | true =>
    rcases (Bool.or_eq_true _ _).mp hmantissa with hdigit | hpoint
    · simp only [isAsciiDigit, Bool.and_eq_true, decide_eq_true_eq, Char.le_def,
        UInt32.le_iff_toNat_le] at hdigit
      have h9 : '9'.val.toNat = 57 := rfl
      omega
    · rw [beq_iff_eq.mp hpoint] at hbound
      exact absurd hbound (by decide)

theorem read_of_isMantissa (h : Lexeme.isMantissa c = true) :
    Lexeme.read c s =
      match Decimal.readUnsigned? (Lexeme.splitNumber (c :: s)).1 with
      | some value => .ok ⟨.number value, (Lexeme.splitNumber (c :: s)).1,
          (Lexeme.splitNumber (c :: s)).2⟩
      | none => .error (.malformedNumber (String.ofList (Lexeme.splitNumber (c :: s)).1)) := by
  unfold Lexeme.read
  split
  case h_15 => exact if_pos h
  all_goals exact absurd h (by decide)

theorem read_of_isAsciiLetter (h : (isAsciiLetter c || c == '_') = true) :
    Lexeme.read c s = .ok ⟨.name (String.ofList (c :: s.takeWhile isAsciiWord)),
      c :: s.takeWhile isAsciiWord, s.dropWhile isAsciiWord⟩ := by
  have hmantissa := isMantissa_eq_false h
  unfold Lexeme.read
  split
  case h_15 => rw [hmantissa, if_neg Bool.false_ne_true, if_pos h]
  all_goals exact absurd h (by decide)

theorem isSpelling_number (h : Decimal.readUnsigned? s = some x) :
    (Token.number x).IsSpelling s := by
  obtain ⟨mantissa, exponent, hs, hne, hmantissa, -⟩ := exists_mantissa_of_readUnsigned? h
  obtain ⟨c, more, rfl⟩ := List.exists_cons_of_ne_nil hne
  have hc := hmantissa c List.mem_cons_self
  have hblank : isAsciiBlank c = false := by
    refine isAsciiBlank_eq_false (((Bool.or_eq_true _ _).mp hc).imp (fun hdigit ↦ ?_) beq_iff_eq.mp)
    rw [isAsciiWord, hdigit, Bool.or_true, Bool.true_or]
  refine ⟨c, more ++ exponent, hs, hblank, fun rest ↦ ?_⟩
  rw [read_of_isMantissa hc, ← List.cons_append, ← List.cons_append, ← hs,
    splitNumber_append_stop ⟨rfl, by decide⟩ h]
  dsimp only
  rw [h]

theorem isSpelling_name (h : isIdentifier n = true) : (Token.name n).IsSpelling n.toList := by
  unfold isIdentifier at h
  split at h
  · cases h
  · rename_i c s hn
    obtain ⟨hc, hs⟩ := (Bool.and_eq_true _ _).mp h
    have hword := List.all_eq_true.mp hs
    have hblank : isAsciiBlank c = false := by
      refine isAsciiBlank_eq_false (Or.inl ?_)
      rcases (Bool.or_eq_true _ _).mp hc with hletter | hunderscore
      · rw [isAsciiWord, hletter, Bool.true_or, Bool.true_or]
      · rw [isAsciiWord, hunderscore, Bool.or_true]
    rw [hn]
    refine ⟨c, s, rfl, hblank, fun rest ↦ ?_⟩
    rw [read_of_isAsciiLetter hc, List.takeWhile_append_of_pos hword,
      List.takeWhile_cons_of_neg (by decide), List.dropWhile_append_of_pos hword,
      List.dropWhile_cons_of_neg (by decide), List.append_nil, ← hn, String.ofList_toList]

theorem isSpelling_symbol {numeral : Float → List Char} {t : Token} (h : t.isSymbol = true) :
    t.IsSpelling (t.text numeral) := by
  cases t with
  | number x => cases h
  | name n => cases h
  | _ => exact ⟨_, _, rfl, rfl, fun rest ↦ rfl⟩

theorem tokensFrom_blank (h : isAsciiBlank c = true) (expression : String) (offset : Nat) :
    tokensFrom expression offset (c :: s) = tokensFrom expression (offset + c.utf8Size) s := by
  rw [tokensFrom, if_pos h]

theorem tokensFrom_lexeme {l : Lexeme} (h : isAsciiBlank c = false)
    (hread : Lexeme.read c s = .ok l) (expression : String) (offset : Nat) :
    tokensFrom expression offset (c :: s) =
      (tokensFrom expression (offset + byteLength l.spelling) l.rest).map
        (⟨l.token, offset⟩ :: ·) := by
  rw [tokensFrom, h, if_neg Bool.false_ne_true]
  split
  · rename_i hfault
    rw [hread] at hfault
    cases hfault
  · rename_i hlexeme
    rw [hread] at hlexeme
    cases hlexeme
    rfl

/-- A text in which a blank follows each token has these tokens. -/
theorem tokensFrom_spelled {ts : List Token} {spell : Token → List Char}
    (h : ∀ t ∈ ts, t.IsSpelling (spell t)) (expression : String) (offset : Nat) :
    ∃ placed, tokensFrom expression offset (ts.flatMap fun t ↦ spell t ++ [' ']) = .ok placed ∧
      placed.map PlacedToken.token = ts := by
  induction ts generalizing offset with
  | nil =>
    refine ⟨[], ?_, rfl⟩
    rw [List.flatMap_nil, tokensFrom]
  | cons t rest ih =>
    rw [List.forall_mem_cons] at h
    obtain ⟨c, more, hspell, hblank, hread⟩ := h.1
    obtain ⟨placed, hplaced, htokens⟩ := ih h.2 (offset + byteLength (spell t) + ' '.utf8Size)
    refine ⟨⟨t, offset⟩ :: placed, ?_, by rw [List.map_cons, htokens]⟩
    have hfirst := tokensFrom_lexeme hblank
      (hread (rest.flatMap fun t ↦ spell t ++ [' '])) expression offset
    rw [← List.cons_append, ← hspell, tokensFrom_blank rfl, hplaced] at hfirst
    rw [List.flatMap_cons, List.append_assoc, List.singleton_append, hfirst]
    rfl

end Spellings

/-! ### Trees written out -/

/-- The token of an operator. -/
def BinaryOp.token : BinaryOp → Token
  | .add => .plus
  | .sub => .minus
  | .mul => .star
  | .div => .slash
  | .lt => .less
  | .gt => .greater
  | .le => .lessEqual
  | .ge => .greaterEqual
  | .eq => .equal
  | .ne => .notEqual

theorem BinaryOp.binaryOp?_token (op : BinaryOp) : op.token.binaryOp? = some op := by
  cases op <;> rfl

/-- The numbers in an expression, from left to right. -/
def Expr.literals : Expr → List Float
  | .number x => [x]
  | .name _ => []
  | .binary _ left right => left.literals ++ right.literals
  | .conditional condition positive negative =>
    condition.literals ++ positive.literals ++ negative.literals

/-- The tokens of a tree with parentheses around every operator and every conditional. -/
def Expr.parenthesised : Expr → List Token
  | .number x => [.number x]
  | .name n => [.name n]
  | .binary op left right =>
    .leftParen :: (left.parenthesised ++ op.token :: right.parenthesised) ++ [.rightParen]
  | .conditional condition positive negative =>
    .leftParen :: (condition.parenthesised ++ .question :: positive.parenthesised ++
      .colon :: negative.parenthesised) ++ [.rightParen]

/-- The text of a tree written out fully parenthesised, with a blank behind each token. -/
def Expr.written (numeral : Float → List Char) (e : Expr) : String :=
  String.ofList (e.parenthesised.flatMap fun t ↦ t.text numeral ++ [' '])

section Written

variable {e : Expr} {numeral : Float → List Char}

theorem derives_parenthesised (e : Expr) : Derives 5 e.parenthesised e := by
  induction e with
  | number x => exact .number x
  | name n => exact .name n
  | binary op left right ihleft ihright =>
    have hchain := Derives.chain op.binaryOp?_token
      (ihleft.mono (Nat.le_trans op.level_le (by decide)))
      (ihright.mono (Nat.le_trans (Nat.succ_le_succ op.level_le) (by decide)))
    exact (hchain.mono (Nat.zero_le _)).group
  | conditional condition positive negative ihcondition ihpositive ihnegative =>
    exact (Derives.conditional (ihcondition.mono (by decide)) (ihpositive.mono (by decide))
      (ihnegative.mono (by decide))).group

theorem isSpelling_parenthesised
    (hnumber : ∀ x ∈ e.literals, Decimal.readUnsigned? (numeral x) = some x)
    (hname : ∀ n ∈ e.names, isIdentifier n = true) :
    ∀ t ∈ e.parenthesised, t.IsSpelling (t.text numeral) := by
  induction e with
  | number x =>
    refine List.forall_mem_singleton.mpr ?_
    exact isSpelling_number (hnumber x (List.mem_singleton_self x))
  | name n =>
    refine List.forall_mem_singleton.mpr ?_
    exact isSpelling_name (hname n (List.mem_singleton_self n))
  | binary op left right ihleft ihright =>
    simp only [Expr.literals, Expr.names, List.forall_mem_append] at hnumber hname
    have hop : op.token.isSymbol = true := by cases op <;> rfl
    simp only [Expr.parenthesised, List.forall_mem_append, List.forall_mem_cons]
    exact ⟨⟨isSpelling_symbol rfl, ihleft hnumber.1 hname.1, isSpelling_symbol hop,
      ihright hnumber.2 hname.2⟩, isSpelling_symbol rfl, List.forall_mem_nil _⟩
  | conditional condition positive negative ihcondition ihpositive ihnegative =>
    simp only [Expr.literals, Expr.names, List.forall_mem_append] at hnumber hname
    simp only [Expr.parenthesised, List.forall_mem_append, List.forall_mem_cons]
    exact ⟨⟨isSpelling_symbol rfl, ⟨ihcondition hnumber.1.1 hname.1.1, isSpelling_symbol rfl,
      ihpositive hnumber.1.2 hname.1.2⟩, isSpelling_symbol rfl, ihnegative hnumber.2 hname.2⟩,
      isSpelling_symbol rfl, List.forall_mem_nil _⟩

theorem parseExpr_written
    (hnumber : ∀ x ∈ e.literals, Decimal.readUnsigned? (numeral x) = some x)
    (hname : ∀ n ∈ e.names, isIdentifier n = true) : parseExpr (e.written numeral) = .ok e := by
  obtain ⟨placed, hplaced, htokens⟩ :=
    tokensFrom_spelled (isSpelling_parenthesised hnumber hname) (e.written numeral) 0
  refine parseExpr_eq_ok_iff.mpr ⟨placed, ?_, ?_⟩
  · rw [tokenize, ← hplaced, Expr.written, String.toList_ofList]
  · rw [htokens]
    exact (derives_parenthesised e).mono (Nat.zero_le 5)

end Written

/-- Reading expressions. A text is read as a tree exactly when it is made of tokens from which the
grammar derives that tree, and the grammar derives one tree from them. A tree whose names are
identifiers, written out fully parenthesised, is read back as itself, whatever numerals stand for
its numbers; and with the exact numerals that is so of every tree whose numbers have no sign. -/
theorem parseExpr_grammar :
    (∀ text e, parseExpr text = .ok e ↔
      ∃ tokens, tokenize text = .ok tokens ∧ Derives 0 (tokens.map PlacedToken.token) e) ∧
    (∀ ts e e', Derives 0 ts e → Derives 0 ts e' → e = e') ∧
    (∀ numeral e, (∀ x ∈ e.literals, Decimal.readUnsigned? (numeral x) = some x) →
      (∀ n ∈ e.names, isIdentifier n = true) → parseExpr (e.written numeral) = .ok e) ∧
    ∀ e, (∀ x ∈ e.literals, Decimal.IsUnsigned x) → (∀ n ∈ e.names, isIdentifier n = true) →
      parseExpr (e.written Decimal.exactNumeral) = .ok e :=
  ⟨fun _ _ ↦ parseExpr_eq_ok_iff, fun _ _ _ ↦ Derives.unique, fun _ _ ↦ parseExpr_written,
    fun _ hnumber ↦ parseExpr_written fun x hx ↦ Decimal.readUnsigned?_exactNumeral (hnumber x hx)⟩

/-- A conditional with a negated branch and a chain of two operators. -/
def branchingExpr : Expr :=
  .conditional (.name "a") (Expr.negate (.name "b"))
    (.binary .sub (.binary .sub (.name "c") (.name "d")) (.number 2.5))

theorem parseExpr_grammar_branching :
    parseExpr "( a ? ( 0 - b ) : ( ( c - d ) - 2.5 ) ) " = .ok branchingExpr ∧
    parseExpr (branchingExpr.written Decimal.exactNumeral) = .ok branchingExpr ∧
    ∃ tokens, tokenize "( a ? ( 0 - b ) : ( ( c - d ) - 2.5 ) ) " = .ok tokens ∧
      ∀ e, Derives 0 (tokens.map PlacedToken.token) e → e = branchingExpr := by
  let numeral (x : Float) : List Char := if x = 0 then ['0'] else ['2', '.', '5']
  have hwritten : branchingExpr.written numeral = "( a ? ( 0 - b ) : ( ( c - d ) - 2.5 ) ) " := by
    decide +kernel
  have hnumber : ∀ x ∈ branchingExpr.literals, Decimal.readUnsigned? (numeral x) = some x := by
    decide +kernel
  have hname : ∀ n ∈ branchingExpr.names, isIdentifier n = true := by decide +kernel
  have hparse := parseExpr_grammar.2.2.1 numeral branchingExpr hnumber hname
  rw [hwritten] at hparse
  obtain ⟨tokens, htokens, hderives⟩ := (parseExpr_grammar.1 _ _).mp hparse
  refine ⟨hparse, parseExpr_grammar.2.2.2 branchingExpr (by decide +kernel) hname, tokens, htokens,
    fun e h ↦ parseExpr_grammar.2.1 _ _ _ h hderives⟩

end TesterSetup
