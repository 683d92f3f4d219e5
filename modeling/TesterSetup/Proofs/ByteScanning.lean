import TesterSetup.Proofs.TokenLayouts

/-!
# Scanning bytes

The tokens of a text can be found by scanning its bytes: a token is decided by one byte and the byte
behind it, a number and a name end in front of the first byte that does not go on with them, and the
characters of a lexeme are cut out of the text between two byte offsets. Such a scanner can go wrong
where the one over characters cannot. It can read a byte behind the last one, and it can cut the
text inside of a character. `scanTokens?` is this scanner with both kinds of failure: it gives
nothing when a byte is missing that it reads, when an offset at which it cuts is not between two
characters (`slice?`), or when it does not get on.

None of this happens, and the scanner finds the tokens, or the fault, of the text
(`scanTokens?_eq`). Bytes from 128 on belong to characters that are in no token, so what the scanner
passes over is always a run of whole characters in ASCII (`skipWhile?_eq`). `tokenize_spans` puts
together what is known of the tokens of a text.
-/

set_option autoImplicit false

namespace TesterSetup

open TesterSetup.Text

/-! ### Bytes of a text -/

/-- The bytes of characters. -/
def bytesOf (s : List Char) : List UInt8 :=
  s.flatMap String.utf8EncodeChar

section Bytes

variable {c : Char} {front s : List Char}

theorem bytesOf_append (s s' : List Char) : bytesOf (s ++ s') = bytesOf s ++ bytesOf s' :=
  List.flatMap_append

theorem length_bytesOf (s : List Char) : (bytesOf s).length = byteLength s := by
  induction s with
  | nil => rfl
  | cons c s ih =>
    rw [bytesOf, List.flatMap_cons, List.length_append, String.length_utf8EncodeChar, ← bytesOf, ih]
    rfl

theorem toList_toUTF8 (text : String) : text.toUTF8.data.toList = bytesOf text.toList := by
  rw [String.toUTF8_eq_toByteArray, ← String.utf8Encode_toList, List.utf8Encode, bytesOf,
    List.toList_data_toByteArray]

theorem toNat_toChar (b : UInt8) : b.toChar.toNat = b.toNat := by
  simp [UInt8.toChar, Char.toNat]

theorem utf8EncodeChar_of_ascii (h : c.toNat < 128) :
    ∃ b, String.utf8EncodeChar c = [b] ∧ b.toChar = c := by
  have hle : c.val.toNat ≤ 127 := Nat.le_of_lt_succ h
  unfold String.utf8EncodeChar
  dsimp only
  rw [if_pos hle]
  refine ⟨_, rfl, Char.ext (UInt32.toNat_inj.mp ?_)⟩
  show (UInt8.ofNat c.val.toNat).toChar.toNat = _
  rw [toNat_toChar, UInt8.toNat_ofNat', Nat.mod_eq_of_lt (by omega)]

/-- The first byte of a character that is not in ASCII is no character in ASCII. -/
theorem utf8EncodeChar_of_not_ascii (h : ¬c.toNat < 128) :
    ∃ b more, String.utf8EncodeChar c = b :: more ∧ ¬b.toChar.toNat < 128 := by
  have hlt : c.val.toNat < 1114112 := by
    have hvalid := c.valid
    simp only [UInt32.isValidChar, Nat.isValidChar] at hvalid
    omega
  have hge : ¬c.val.toNat ≤ 127 := fun hle ↦ h (Nat.lt_succ_of_le hle)
  unfold String.utf8EncodeChar
  dsimp only
  rw [if_neg hge]
  split
  · refine ⟨_, _, rfl, ?_⟩
    rw [toNat_toChar, UInt8.toNat_ofNat']
    omega
  split
  · refine ⟨_, _, rfl, ?_⟩
    rw [toNat_toChar, UInt8.toNat_ofNat']
    omega
  · refine ⟨_, _, rfl, ?_⟩
    rw [toNat_toChar, UInt8.toNat_ofNat']
    omega

theorem byteLength_concat (hc : c.toNat < 128) :
    byteLength (front ++ [c]) = byteLength front + 1 := by
  obtain ⟨b, hbytes, -⟩ := utf8EncodeChar_of_ascii hc
  rw [← length_bytesOf, bytesOf_append, List.length_append, length_bytesOf]
  rw [bytesOf, List.flatMap_cons, hbytes]
  rfl

/-- The byte at which a character starts: the character itself in ASCII, and none in ASCII
otherwise. -/
def StartsChar (b : UInt8) (c : Char) : Prop :=
  b.toChar = c ∨ ¬b.toChar.toNat < 128 ∧ ¬c.toNat < 128

theorem getElem?_bytesOf (front : List Char) (c : Char) (s : List Char) :
    ∃ b, (bytesOf (front ++ c :: s))[byteLength front]? = some b ∧ StartsChar b c := by
  have hskip : (bytesOf (front ++ c :: s))[byteLength front]? = (bytesOf (c :: s))[0]? := by
    rw [bytesOf_append, ← length_bytesOf, List.getElem?_append_right (Nat.le_refl _), Nat.sub_self]
  rw [hskip, bytesOf, List.flatMap_cons]
  by_cases hc : c.toNat < 128
  · obtain ⟨b, hbytes, hchar⟩ := utf8EncodeChar_of_ascii hc
    rw [hbytes]
    exact ⟨b, rfl, .inl hchar⟩
  · obtain ⟨b, more, hbytes, hchar⟩ := utf8EncodeChar_of_not_ascii hc
    rw [hbytes]
    exact ⟨b, rfl, .inr ⟨hchar, hc⟩⟩

theorem byteLength_lt_length (front : List Char) (c : Char) (s : List Char) :
    byteLength front < (bytesOf (front ++ c :: s)).length := by
  have hpos := byteLength_pos c s
  rw [length_bytesOf, byteLength_append]
  omega

theorem not_byteLength_lt_length (front : List Char) :
    ¬byteLength front < (bytesOf (front ++ [])).length := by
  rw [List.append_nil, length_bytesOf]
  exact Nat.lt_irrefl _

end Bytes

/-! ### Tests of ASCII characters -/

/-- A test that only characters in ASCII pass. -/
def IsAsciiTest (p : Char → Bool) : Prop :=
  ∀ c, p c = true → c.toNat < 128

section Tests

variable {p q : Char → Bool} {b : UInt8} {c d low high : Char}

theorem IsAsciiTest.eq_false (hp : IsAsciiTest p) (h : ¬c.toNat < 128) : p c = false :=
  Bool.eq_false_iff.mpr fun hc ↦ h (hp c hc)

/-- What starts a character passes the tests that the character passes. -/
theorem IsAsciiTest.toChar_eq (hp : IsAsciiTest p) (h : StartsChar b c) : p b.toChar = p c := by
  rcases h with rfl | ⟨hb, hc⟩
  · rfl
  · rw [hp.eq_false hb, hp.eq_false hc]

theorem IsAsciiTest.or (hp : IsAsciiTest p) (hq : IsAsciiTest q) :
    IsAsciiTest fun c ↦ p c || q c :=
  fun c hc ↦ ((Bool.or_eq_true _ _).mp hc).elim (hp c) (hq c)

theorem isAsciiTest_beq (hd : d.toNat < 128) : IsAsciiTest (· == d) := by
  intro c hc
  rw [beq_iff_eq.mp hc]
  exact hd

theorem isAsciiTest_range (hhigh : high.toNat < 128) :
    IsAsciiTest fun c ↦ decide (low ≤ c) && decide (c ≤ high) := by
  intro c hc
  have hle : c ≤ high := of_decide_eq_true ((Bool.and_eq_true _ _).mp hc).2
  exact Nat.lt_of_le_of_lt (Char.le_def.mp hle) hhigh

theorem isAsciiTest_isAsciiBlank : IsAsciiTest isAsciiBlank :=
  ((((isAsciiTest_beq (by decide)).or (isAsciiTest_beq (by decide))).or
    (isAsciiTest_beq (by decide))).or (isAsciiTest_beq (by decide))).or
    (isAsciiTest_beq (by decide))

theorem isAsciiTest_isAsciiDigit : IsAsciiTest isAsciiDigit :=
  isAsciiTest_range (by decide)

theorem isAsciiTest_isAsciiLetter : IsAsciiTest isAsciiLetter :=
  (isAsciiTest_range (by decide)).or (isAsciiTest_range (by decide))

theorem isAsciiTest_isAsciiWord : IsAsciiTest isAsciiWord :=
  (isAsciiTest_isAsciiLetter.or isAsciiTest_isAsciiDigit).or (isAsciiTest_beq (by decide))

theorem isAsciiTest_isMantissa : IsAsciiTest Lexeme.isMantissa :=
  isAsciiTest_isAsciiDigit.or (isAsciiTest_beq (by decide))

theorem isAsciiTest_isSign : IsAsciiTest Lexeme.isSign :=
  (isAsciiTest_beq (by decide)).or (isAsciiTest_beq (by decide))

end Tests

/-! ### Cutting a text -/

/-- The part of a text between two byte offsets, which have to lie between characters, the first not
behind the second. -/
def slice? (text : String) (start stop : Nat) : Option String :=
  if h : (⟨start⟩ : String.Pos.Raw).IsValid text ∧ (⟨stop⟩ : String.Pos.Raw).IsValid text then
    if start ≤ stop then some (text.extract (text.pos ⟨start⟩ h.1) (text.pos ⟨stop⟩ h.2)) else none
  else none

section Slices

variable {text : String} {front back : List Char}

theorem utf8ByteSize_ofList (s : List Char) : (String.ofList s).utf8ByteSize = byteLength s := by
  rw [← length_bytesOf, bytesOf, ← String.size_toByteArray, String.toByteArray_ofList,
    List.utf8Encode, List.size_toByteArray]

theorem isValid_byteLength (h : text.toList = front ++ back) :
    (⟨byteLength front⟩ : String.Pos.Raw).IsValid text := by
  refine String.Pos.Raw.isValid_iff_exists_append.mpr
    ⟨String.ofList front, String.ofList back, ?_, ?_⟩
  · rw [← String.ofList_append, ← h, String.ofList_toList]
  · rw [String.Pos.Raw.ext_iff, String.byteIdx_rawEndPos, utf8ByteSize_ofList]

/-- A text is cut between its characters. -/
theorem slice?_of_append (front middle back : List Char)
    (h : text.toList = front ++ (middle ++ back)) :
    slice? text (byteLength front) (byteLength (front ++ middle)) =
      some (String.ofList middle) := by
  have hstart := isValid_byteLength h
  rw [← List.append_assoc] at h
  have hstop := isValid_byteLength h
  have hle : byteLength front ≤ byteLength (front ++ middle) := by
    rw [byteLength_append]
    exact Nat.le_add_right _ _
  rw [slice?, dif_pos ⟨hstart, hstop⟩, if_pos hle]
  refine congrArg some (String.toByteArray_inj.mp (ByteArray.ext (Array.toList_inj.mp ?_)))
  have hbytes : text.toByteArray.data.toList =
      bytesOf front ++ (bytesOf middle ++ bytesOf back) := by
    rw [← String.toUTF8_eq_toByteArray, toList_toUTF8, h, bytesOf_append, bytesOf_append,
      List.append_assoc]
  have hmiddle : (String.ofList middle).toByteArray.data.toList = bytesOf middle := by
    rw [← String.toUTF8_eq_toByteArray, toList_toUTF8, String.toList_ofList]
  rw [String.toByteArray_extract, ByteArray.data_extract, Array.toList_extract, hbytes, hmiddle]
  show (bytesOf front ++ (bytesOf middle ++ bytesOf back)).extract (byteLength front)
    (byteLength (front ++ middle)) = bytesOf middle
  rw [List.extract_eq_take_drop, byteLength_append, Nat.add_sub_cancel_left, ← length_bytesOf,
    ← length_bytesOf, List.drop_left, List.take_left]

end Slices

/-! ### The scanner -/

/-- The offset behind the bytes from an offset on that pass a test. -/
def skipWhile? (p : Char → Bool) (bytes : List UInt8) (i : Nat) : Option Nat :=
  if i < bytes.length then do
    let b ← bytes[i]?
    if p b.toChar then skipWhile? p bytes (i + 1) else some i
  else some i
termination_by bytes.length - i

/-- The offset behind a sign, if there is one. -/
def signEnd? (bytes : List UInt8) (i : Nat) : Option Nat :=
  if i < bytes.length then do
    let b ← bytes[i]?
    some (if Lexeme.isSign b.toChar then i + 1 else i)
  else some i

/-- The offset behind an exponent with at least one digit, if there is one. -/
def exponentEnd? (bytes : List UInt8) (i : Nat) : Option Nat :=
  if i < bytes.length then do
    let b ← bytes[i]?
    if b.toChar = 'e' ∨ b.toChar = 'E' then do
      let digits ← signEnd? bytes (i + 1)
      let stop ← skipWhile? isAsciiDigit bytes digits
      some (if digits < stop then stop else i)
    else some i
  else some i

/-- The offset behind a number. -/
def numberEnd? (bytes : List UInt8) (i : Nat) : Option Nat := do
  let mantissa ← skipWhile? Lexeme.isMantissa bytes i
  exponentEnd? bytes mantissa

/-- The number at an offset of a text, and the offset behind it. -/
def numberAt? (text : String) (bytes : List UInt8) (i : Nat) :
    Option (Except Fault (Token × Nat)) := do
  let stop ← numberEnd? bytes i
  let lexeme ← slice? text i stop
  match Decimal.readUnsigned? lexeme.toList with
  | some value => some (.ok (.number value, stop))
  | none => some (.error (.malformedNumber lexeme))

/-- The name at an offset of a text, and the offset behind it. -/
def nameAt? (text : String) (bytes : List UInt8) (i : Nat) :
    Option (Except Fault (Token × Nat)) := do
  let stop ← skipWhile? isAsciiWord bytes (i + 1)
  let name ← slice? text i stop
  some (.ok (.name name, stop))

/-- The fault of a character that starts no token. -/
def unreadableAt? (text : String) (bytes : List UInt8) (i : Nat) :
    Option (Except Fault (Token × Nat)) := do
  let back ← slice? text i bytes.length
  some (.error (.unexpectedCharacter (back.toList.head?.getD '?')))

/-- The token that starts at an offset of a text, and the offset behind it. -/
def lexemeAt? (text : String) (bytes : List UInt8) (i : Nat) :
    Option (Except Fault (Token × Nat)) := do
  let b ← bytes[i]?
  match symbolAt? b.toChar (bytes[i + 1]?.map UInt8.toChar == some '=') with
  | some t => some (.ok (t, i + t.symbolText.length))
  | none =>
    if Lexeme.isMantissa b.toChar then numberAt? text bytes i
    else if isAsciiLetter b.toChar || b.toChar == '_' then nameAt? text bytes i
    else unreadableAt? text bytes i

/-- The tokens that a text has from an offset on. -/
def tokensAt? (text : String) (bytes : List UInt8) (i : Nat) :
    Option (Except EvalError (List PlacedToken)) :=
  if h : i < bytes.length then
    if isAsciiBlank bytes[i].toChar then tokensAt? text bytes (i + 1)
    else
      match lexemeAt? text bytes i with
      | none => none
      | some (.error fault) => some (.error (.malformed text i fault))
      | some (.ok (token, stop)) =>
        if i < stop then
          (tokensAt? text bytes stop).map fun tokens ↦ tokens.map (⟨token, i⟩ :: ·)
        else none
  else some (.ok [])
termination_by bytes.length - i

/-- The tokens of a text, found by scanning its bytes. -/
def scanTokens? (text : String) : Option (Except EvalError (List PlacedToken)) :=
  tokensAt? text text.toUTF8.data.toList 0

/-! ### What is scanned -/

section Scanning

variable {text : String} {c : Char} {front s : List Char} {p : Char → Bool}

/-- Passing over bytes is passing over characters. -/
theorem skipWhile?_eq (hp : IsAsciiTest p) (front s : List Char) :
    skipWhile? p (bytesOf (front ++ s)) (byteLength front) =
      some (byteLength (front ++ s.takeWhile p)) := by
  induction s generalizing front with
  | nil =>
    rw [skipWhile?, if_neg (not_byteLength_lt_length front), List.takeWhile_nil, List.append_nil]
  | cons c s ih =>
    obtain ⟨b, hb, hstarts⟩ := getElem?_bytesOf front c s
    rw [skipWhile?, if_pos (byteLength_lt_length front c s), hb]
    show (if p b.toChar = true then _ else _) = _
    rw [hp.toChar_eq hstarts]
    cases hc : p c with
    | true =>
      have hnext := ih (front ++ [c])
      rw [byteLength_concat (hp c hc), List.append_assoc, List.append_assoc] at hnext
      rw [if_pos rfl, List.takeWhile_cons_of_pos hc]
      exact hnext
    | false =>
      rw [if_neg Bool.false_ne_true, List.takeWhile_cons_of_neg (ne_true_of_eq_false hc),
        List.append_nil]

theorem signEnd?_eq (front s : List Char) :
    signEnd? (bytesOf (front ++ s)) (byteLength front) =
      some (byteLength (front ++ (s.takeWhile Lexeme.isSign).take 1)) := by
  cases s with
  | nil => rw [signEnd?, if_neg (not_byteLength_lt_length front), List.takeWhile_nil,
      List.take_nil, List.append_nil]
  | cons c s =>
    obtain ⟨b, hb, hstarts⟩ := getElem?_bytesOf front c s
    rw [signEnd?, if_pos (byteLength_lt_length front c s), hb]
    show some (if Lexeme.isSign b.toChar = true then _ else _) = _
    rw [isAsciiTest_isSign.toChar_eq hstarts]
    cases hc : Lexeme.isSign c with
    | true =>
      rw [if_pos rfl, List.takeWhile_cons_of_pos hc, List.take_succ_cons, List.take_zero,
        byteLength_concat (isAsciiTest_isSign c hc)]
    | false =>
      rw [if_neg Bool.false_ne_true, List.takeWhile_cons_of_neg (ne_true_of_eq_false hc),
        List.take_nil, List.append_nil]

/-- An exponent read with at most one sign: where two signs stand there is no exponent, and no
digit behind the first of them. -/
theorem fst_splitExponent_eq (e : Char) (s : List Char) :
    ∃ sign more, s = sign ++ more ∧ sign = (s.takeWhile Lexeme.isSign).take 1 ∧
      (Lexeme.splitExponent (e :: s)).1 =
        if (e = 'e' ∨ e = 'E') ∧ more.takeWhile isAsciiDigit ≠ [] then
          e :: sign ++ more.takeWhile isAsciiDigit
        else [] := by
  have hs : s.takeWhile Lexeme.isSign ++ s.dropWhile Lexeme.isSign = s :=
    List.takeWhile_append_dropWhile
  rw [Lexeme.splitExponent]
  by_cases hsigns : (s.takeWhile Lexeme.isSign).length ≤ 1
  · refine ⟨s.takeWhile Lexeme.isSign, s.dropWhile Lexeme.isSign, hs.symm,
      (List.take_of_length_le hsigns).symm, ?_⟩
    rw [apply_ite Prod.fst]
    exact if_congr (and_congr_right fun _ ↦ and_iff_right hsigns) rfl rfl
  · -- behind the first sign stands another, so there is no digit
    refine ⟨_, (s.takeWhile Lexeme.isSign).drop 1 ++ s.dropWhile Lexeme.isSign, ?_, rfl, ?_⟩
    · rw [← List.append_assoc, List.take_append_drop, hs]
    · obtain ⟨d, signs, hdrop⟩ := List.exists_cons_of_length_pos
        (l := (s.takeWhile Lexeme.isSign).drop 1) (by rw [List.length_drop]; omega)
      have hsign : Lexeme.isSign d = true :=
        List.mem_takeWhile_imp (List.mem_of_mem_drop (hdrop ▸ List.mem_cons_self))
      have hdigit : isAsciiDigit d = false := by
        rcases Lexeme.isSign_iff.mp hsign with rfl | rfl <;> rfl
      rw [if_neg fun h ↦ hsigns h.2.1, hdrop, List.cons_append,
        List.takeWhile_cons_of_neg (ne_true_of_eq_false hdigit), if_neg fun h ↦ h.2 rfl]

theorem exponentEnd?_eq (front s : List Char) :
    exponentEnd? (bytesOf (front ++ s)) (byteLength front) =
      some (byteLength (front ++ (Lexeme.splitExponent s).1)) := by
  cases s with
  | nil =>
    rw [exponentEnd?, if_neg (not_byteLength_lt_length front), Lexeme.splitExponent,
      List.append_nil]
  | cons e s =>
    obtain ⟨b, hb, hstarts⟩ := getElem?_bytesOf front e s
    have hletter {d : Char} (hd : d.toNat < 128) : b.toChar = d ↔ e = d := by
      rw [← beq_iff_eq, (isAsciiTest_beq hd).toChar_eq hstarts, beq_iff_eq]
    have hmark : b.toChar = 'e' ∨ b.toChar = 'E' ↔ e = 'e' ∨ e = 'E' :=
      or_congr (hletter (by decide)) (hletter (by decide))
    obtain ⟨sign, more, rfl, hsign, hexponent⟩ := fst_splitExponent_eq e s
    rw [exponentEnd?, if_pos (byteLength_lt_length front e _), hb, hexponent]
    show (if b.toChar = 'e' ∨ b.toChar = 'E' then _ else _) = _
    by_cases he : e = 'e' ∨ e = 'E'
    · have hascii : e.toNat < 128 := by rcases he with rfl | rfl <;> decide
      have hsignEnd := signEnd?_eq (front ++ [e]) (sign ++ more)
      have hstop := skipWhile?_eq isAsciiTest_isAsciiDigit (front ++ e :: sign) more
      rw [byteLength_concat hascii, ← hsign, List.append_assoc, List.append_assoc,
        List.singleton_append, List.singleton_append] at hsignEnd
      rw [List.append_assoc, List.cons_append] at hstop
      -- the offset moves on behind the sign exactly when there is a digit
      generalize more.takeWhile isAsciiDigit = digits at hstop ⊢
      rw [if_pos (hmark.mpr he)]
      refine (congrArg (· >>= _) hsignEnd).trans ((congrArg (· >>= _) hstop).trans ?_)
      refine congrArg some ?_
      cases digits with
      | nil => rw [List.append_nil, if_neg (Nat.lt_irrefl _), if_neg fun h ↦ h.2 rfl,
          List.append_nil]
      | cons d digits =>
        have hlt : byteLength (front ++ e :: sign) <
            byteLength (front ++ e :: sign ++ d :: digits) := by
          rw [byteLength_append (front ++ e :: sign)]
          exact Nat.lt_add_of_pos_right (byteLength_pos d digits)
        rw [if_pos hlt, if_pos ⟨he, List.cons_ne_nil _ _⟩, List.append_assoc]
    · rw [if_neg fun h ↦ he (hmark.mp h), if_neg fun h ↦ he h.1, List.append_nil]

theorem numberEnd?_eq (front s : List Char) :
    numberEnd? (bytesOf (front ++ s)) (byteLength front) =
      some (byteLength (front ++ (Lexeme.splitNumber s).1)) := by
  have hexponent := exponentEnd?_eq (front ++ s.takeWhile Lexeme.isMantissa)
    (s.dropWhile Lexeme.isMantissa)
  rw [List.append_assoc, List.takeWhile_append_dropWhile, List.append_assoc] at hexponent
  rw [numberEnd?, skipWhile?_eq isAsciiTest_isMantissa]
  exact hexponent

/-- Whether an equals sign follows is seen from its byte. -/
theorem beq_getElem?_bytesOf (front s : List Char) :
    ((bytesOf (front ++ s))[byteLength front]?.map UInt8.toChar == some '=') =
      startsWithEquals s := by
  cases s with
  | nil =>
    rw [List.append_nil, ← length_bytesOf, List.getElem?_eq_none (Nat.le_refl _)]
    rfl
  | cons c s =>
    obtain ⟨b, hb, hstarts⟩ := getElem?_bytesOf front c s
    have hequals := (isAsciiTest_beq (d := '=') (by decide)).toChar_eq hstarts
    rw [hb, startsWithEquals, List.head?_cons, Option.map_some]
    exact hequals

theorem symbolAt?_eq_none (hc : ¬c.toNat < 128) (equals : Bool) : symbolAt? c equals = none := by
  unfold symbolAt?
  split
  case h_13 => rfl
  all_goals exact absurd (by decide) hc

/-- The symbol at an offset is that of the characters there. -/
theorem symbolAt?_bytesOf {b : UInt8} (hstarts : StartsChar b c) :
    symbolAt? b.toChar
        ((bytesOf (front ++ c :: s))[byteLength front + 1]?.map UInt8.toChar == some '=') =
      symbolAt? c (startsWithEquals s) := by
  rcases hstarts with rfl | ⟨hb, hc⟩
  · by_cases hc : b.toChar.toNat < 128
    · have hequals := beq_getElem?_bytesOf (front ++ [b.toChar]) s
      rw [byteLength_concat hc, List.append_assoc, List.singleton_append] at hequals
      rw [hequals]
    · rw [symbolAt?_eq_none hc, symbolAt?_eq_none hc]
  · rw [symbolAt?_eq_none hb, symbolAt?_eq_none hc]

theorem byteLength_symbolText {t : Token} (h : t.isSymbol = true) :
    byteLength t.symbolText = t.symbolText.length := by
  cases t <;> first | rfl | cases h

theorem numberAt?_eq (h : text.toList = front ++ s) :
    numberAt? text (bytesOf (front ++ s)) (byteLength front) =
      some (match Decimal.readUnsigned? (Lexeme.splitNumber s).1 with
        | some value => .ok (.number value, byteLength (front ++ (Lexeme.splitNumber s).1))
        | none => .error (.malformedNumber (String.ofList (Lexeme.splitNumber s).1))) := by
  have hslice : slice? text (byteLength front)
      (byteLength (front ++ (Lexeme.splitNumber s).1)) = _ :=
    slice?_of_append front _ (Lexeme.splitNumber s).2 (by rw [Lexeme.splitNumber_append, h])
  rw [numberAt?, numberEnd?_eq]
  refine (congrArg (· >>= _) hslice).trans ?_
  show (match Decimal.readUnsigned? (String.toList _) with | some value => _ | none => _) = _
  rw [String.toList_ofList]
  cases Decimal.readUnsigned? (Lexeme.splitNumber s).1 <;> rfl

theorem nameAt?_eq (h : text.toList = front ++ c :: s)
    (hc : (isAsciiLetter c || c == '_') = true) :
    nameAt? text (bytesOf (front ++ c :: s)) (byteLength front) =
      some (.ok (.name (String.ofList (c :: s.takeWhile isAsciiWord)),
        byteLength (front ++ c :: s.takeWhile isAsciiWord))) := by
  have hstop := skipWhile?_eq isAsciiTest_isAsciiWord (front ++ [c]) s
  rw [byteLength_concat (isAsciiTest_isAsciiWord c (isAsciiWord_of_isNameStart hc)),
    List.append_assoc, List.append_assoc, List.singleton_append, List.singleton_append] at hstop
  have hslice : slice? text (byteLength front)
      (byteLength (front ++ c :: s.takeWhile isAsciiWord)) = _ :=
    slice?_of_append front _ (s.dropWhile isAsciiWord)
      (by rw [List.cons_append, List.takeWhile_append_dropWhile, h])
  rw [nameAt?, hstop]
  exact congrArg (· >>= _) hslice

theorem unreadableAt?_eq (h : text.toList = front ++ c :: s) :
    unreadableAt? text (bytesOf (front ++ c :: s)) (byteLength front) =
      some (.error (.unexpectedCharacter c)) := by
  have hslice : slice? text (byteLength front) (byteLength (front ++ c :: s)) = _ :=
    slice?_of_append front _ [] (by rw [List.append_nil, h])
  rw [unreadableAt?, length_bytesOf]
  refine (congrArg (· >>= _) hslice).trans ?_
  show some (Except.error (Fault.unexpectedCharacter _)) = _
  rw [String.toList_ofList]
  rfl

/-- The scanner reads a lexeme as it is read from the characters. -/
theorem lexemeAt?_eq (h : text.toList = front ++ c :: s) :
    lexemeAt? text (bytesOf text.toList) (byteLength front) =
      some ((Lexeme.read c s).map fun l ↦ (l.token, byteLength (front ++ l.spelling))) := by
  obtain ⟨b, hb, hstarts⟩ := getElem?_bytesOf front c s
  have hmantissa := isAsciiTest_isMantissa.toChar_eq hstarts
  have hletter := (isAsciiTest_isAsciiLetter.or (isAsciiTest_beq (d := '_') (by decide))).toChar_eq
    hstarts
  rw [lexemeAt?, h, hb]
  show (match symbolAt? b.toChar _ with | some t => _ | none => _) = _
  rw [symbolAt?_bytesOf hstarts, Lexeme.read_eq]
  cases hsymbol : symbolAt? c (startsWithEquals s) with
  | some t =>
    dsimp only
    rw [← byteLength_symbolText (isSymbol_of_symbolAt? hsymbol), ← byteLength_append]
    rfl
  | none =>
    dsimp only
    rw [hmantissa, hletter]
    by_cases hm : Lexeme.isMantissa c = true
    · rw [if_pos hm, if_pos hm, numberAt?_eq h]
      cases Decimal.readUnsigned? (Lexeme.splitNumber (c :: s)).1 <;> rfl
    by_cases hl : (isAsciiLetter c || c == '_') = true
    · rw [if_neg hm, if_neg hm, if_pos hl, if_pos hl, nameAt?_eq h hl]
      rfl
    · rw [if_neg hm, if_neg hm, if_neg hl, if_neg hl, unreadableAt?_eq h]
      rfl

/-- The scanner goes on as the reader of characters does. -/
theorem tokensAt?_eq (front s : List Char) (h : text.toList = front ++ s) :
    tokensAt? text (bytesOf text.toList) (byteLength front) =
      some (tokensFrom text (byteLength front) s) := by
  induction hn : s.length using Nat.strong_induction_on generalizing front s with
  | _ n ih =>
    cases s with
    | nil =>
      rw [tokensAt?, h, dif_neg (not_byteLength_lt_length front), tokensFrom]
    | cons c s =>
      obtain ⟨b, hb, hstarts⟩ := getElem?_bytesOf front c s
      rw [← h] at hb
      obtain ⟨hlt, hb⟩ := List.getElem?_eq_some_iff.mp hb
      rw [tokensAt?, dif_pos hlt, hb, isAsciiTest_isAsciiBlank.toChar_eq hstarts]
      cases hblank : isAsciiBlank c with
      | true =>
        have hascii := isAsciiTest_isAsciiBlank c hblank
        have hnext := ih _ (hn ▸ Nat.lt_succ_self _) (front ++ [c]) s
          (by rw [h, List.append_assoc, List.singleton_append]) rfl
        rw [if_pos rfl, tokensFrom_blank hblank, ← byteLength_concat hascii, hnext,
          byteLength_append]
        rfl
      | false =>
        rw [if_neg Bool.false_ne_true, lexemeAt?_eq h]
        cases hread : Lexeme.read c s with
        | error fault => rw [tokensFrom_of_fault hblank hread]; rfl
        | ok l =>
          have hnext := ih _ (hn ▸ Lexeme.length_lt hread) (front ++ l.spelling)
            l.rest (by rw [h, List.append_assoc, Lexeme.append_eq hread]) rfl
          obtain ⟨d, more, hspelling⟩ := List.exists_cons_of_ne_nil (Lexeme.spelling_ne_nil hread)
          -- a lexeme is not empty, so the scanner gets on
          have hlt' : byteLength front < byteLength (front ++ l.spelling) := by
            rw [byteLength_append, hspelling]
            exact Nat.lt_add_of_pos_right (byteLength_pos d more)
          rw [tokensFrom_lexeme hblank hread]
          show (if byteLength front < byteLength (front ++ l.spelling) then _ else none) = _
          rw [if_pos hlt', hnext, byteLength_append]
          rfl

/-- The scanner over bytes finds the tokens of every text, or its fault: it never reads behind the
end, and cuts the text between its characters only. -/
theorem scanTokens?_eq (text : String) : scanTokens? text = some (tokenize text) := by
  rw [scanTokens?, toList_toUTF8]
  exact tokensAt?_eq [] _ rfl

end Scanning

/-! ### The tokens of a text -/

/-- Spans that tile a text together with blanks: they are in order and do not overlap, each lies
between characters and holds the spelling of its token, and every other character is a blank. -/
structure Tiles (text : String) (spans : List Span) : Prop where
  ordered : spans.Pairwise fun a b ↦ a.stop ≤ b.start
  sliced : ∀ span ∈ spans,
    slice? text span.start span.stop = some (String.ofList span.spelling)
  spelled : ∀ span ∈ spans, span.token.SpelledBy span.spelling
  covered : ∀ front c back, text.toList = front ++ c :: back →
    isAsciiBlank c = true ∨
      ∃ span ∈ spans, span.start ≤ byteLength front ∧ byteLength front < span.stop

theorem tiles_spansFrom {text : String} {pieces : List Piece} {trailing : List Char}
    (hwritten : ∀ p ∈ pieces, p.IsWritten) (htrailing : ∀ c ∈ trailing, isAsciiBlank c = true)
    (h : text.toList = pieces.flatMap Piece.chars ++ trailing) :
    Tiles text (spansFrom 0 pieces) where
  ordered := pairwise_spansFrom 0 pieces
  sliced span hspan := by
    obtain ⟨-, front, back, hchars, hstart⟩ := of_mem_spansFrom hwritten hspan
    rw [hchars, List.append_assoc, List.append_assoc] at h
    rw [Span.stop, hstart, Nat.zero_add, ← byteLength_append]
    exact slice?_of_append front span.spelling _ h
  spelled span hspan := (of_mem_spansFrom hwritten hspan).1
  covered front c back hc := by
    have hcases : isAsciiBlank c = true ∨ ∃ span ∈ spansFrom 0 pieces,
        span.start ≤ 0 + byteLength front ∧ 0 + byteLength front < span.stop :=
      isAsciiBlank_or_mem_span hwritten htrailing (h.symm.trans hc)
    rwa [Nat.zero_add] at hcases

/-- The tokens of a text lie in spans that tile it, lexemes with blanks between them have just their
tokens, and finding tokens by bytes never leaves the text or cuts a character. -/
theorem tokenize_spans :
    (∀ text tokens, tokenize text = .ok tokens →
      ∃ spans, Tiles text spans ∧ tokens = spans.map Span.placed) ∧
    (∀ pieces trailing, (∀ p ∈ pieces, p.IsWritten) → (∀ p ∈ pieces.tail, p.gap ≠ []) →
      (∀ c ∈ trailing, isAsciiBlank c = true) →
      tokenize (String.ofList (pieces.flatMap Piece.chars ++ trailing)) =
        .ok ((spansFrom 0 pieces).map Span.placed)) ∧
    ∀ text, scanTokens? text = some (tokenize text) := by
  refine ⟨fun text tokens h ↦ ?_, fun pieces trailing hwritten hgaps htrailing ↦ ?_, scanTokens?_eq⟩
  · obtain ⟨pieces, trailing, hlayout, hwritten, htrailing, htokens⟩ := exists_layout h
    exact ⟨spansFrom 0 pieces, tiles_spansFrom hwritten htrailing hlayout, htokens⟩
  · rw [tokenize, String.toList_ofList]
    exact tokensFrom_layout hwritten hgaps htrailing _ 0

theorem tokenize_spans_comparison :
    ∃ x, Decimal.IsNumeralOf ['.', '5'] x ∧
      tokenize "v <= .5\n" = .ok [⟨.name "v", 0⟩, ⟨.lessEqual, 2⟩, ⟨.number x, 5⟩] ∧
      (∃ spans, Tiles "v <= .5\n" spans ∧
        [⟨.name "v", 0⟩, ⟨.lessEqual, 2⟩, ⟨.number x, 5⟩] = spans.map Span.placed) ∧
      scanTokens? "v <= µ" = some (tokenize "v <= µ") := by
  have hdigits : Decimal.IsDigits ([] ++ ['5']) := ⟨by decide, List.forall_mem_singleton.mpr rfl⟩
  obtain ⟨x, hnumeral⟩ : ∃ x, Decimal.IsNumeralOf ['.', '5'] x := ⟨_, .point hdigits .absent⟩
  have hwritten : ∀ p ∈ [(⟨[], .name "v", ['v']⟩ : Piece), ⟨[' '], .lessEqual, ['<', '=']⟩,
      ⟨[' '], .number x, ['.', '5']⟩], p.IsWritten := by
    simp only [List.forall_mem_cons]
    exact ⟨⟨List.forall_mem_nil _, .name rfl⟩, ⟨List.forall_mem_singleton.mpr rfl, .symbol rfl⟩,
      ⟨List.forall_mem_singleton.mpr rfl, .number hnumeral⟩, List.forall_mem_nil _⟩
  have htokens := tokenize_spans.2.1 _ ['\n'] hwritten (by simp) (List.forall_mem_singleton.mpr rfl)
  exact ⟨x, hnumeral, htokens, tokenize_spans.1 _ _ htokens, tokenize_spans.2.2 _⟩

end TesterSetup
