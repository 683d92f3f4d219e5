import Mathlib
import TesterSetup.Decimal.Layout
import TesterSetup.Decimal.Literal

/-!
# Exact numerals

Every number that can stand as a literal has a numeral that is read back as that number
(`readUnsigned?_exactNumeral`). A finite double is `m * 2 ^ e` with `-1074 ≤ e`, that is
`m * 2 ^ (e + 1074) * 5 ^ 1074` over `10 ^ 1074`, so it is written with a whole mantissa and the
exponent `-1074`. Reading divides by the power of ten; the division is exact and its quotient
already has the exponent of its format, so rounding leaves it as it is (`div_exact`). The sign of a
double is a bit of its own, so every finite number has a numeral with a sign
(`readSigned?_signedNumeral`).
-/

set_option autoImplicit false

namespace TesterSetup.Decimal

open Float.Model Float.Model.UnpackedFloat TesterSetup.Text

/-! ### Packed doubles -/

section Packed

variable {b : BitVec Format.binary64.numBits}

theorem toBitVec_ofBitVec (b : BitVec 1) : (Sign.ofBitVec b).toBitVec = b := by
  revert b
  decide

theorem packComponents_unpack (b : BitVec Format.binary64.numBits) :
    packComponents .binary64 (Sign.ofBitVec (unpackSign b)) (unpackExponent b)
      (unpackMantissa b) = b := by
  refine BitVec.eq_of_getLsbD_eq fun i hi ↦ ?_
  rw [packComponents, toBitVec_ofBitVec, BitVec.getLsbD_append, BitVec.getLsbD_append]
  simp only [unpackSign, unpackExponent, unpackMantissa, BitVec.getLsbD_cast,
    BitVec.getLsbD_extractLsb]
  simp only [Format.numBits] at hi
  grind

theorem toNat_ne_zero {w : Nat} {v : BitVec w} (h : v ≠ 0#w) : v.toNat ≠ 0 :=
  fun hzero ↦ h (BitVec.eq_of_toNat_eq hzero)

theorem toNat_ne_of_ne_ones {v : BitVec 11} (h : v ≠ -1#11) : v.toNat ≠ 2047 :=
  fun hones ↦ h (BitVec.eq_of_toNat_eq hones)

/-- The mantissa of a normal double has a leading bit. -/
theorem toNat_one_append (v : BitVec 52) : (1#1 ++ v).toNat = 2 ^ 52 + v.toNat := by
  rw [BitVec.toNat_append, ← Nat.shiftLeft_add_eq_or_of_lt v.isLt]
  rfl

theorem log2_leading {n : Nat} (h : n < 2 ^ 52) : (2 ^ 52 + n).log2 = 52 := by
  have hne : 2 ^ 52 + n ≠ 0 := by omega
  have hlow : 52 ≤ (2 ^ 52 + n).log2 := (Nat.le_log2 hne).mpr (by omega)
  have hhigh : (2 ^ 52 + n).log2 < 53 := (Nat.log2_lt hne).mpr (by omega)
  omega

/-- What a double is unpacked to: an infinity or no number, a zero or a subnormal double, or a
normal double. -/
theorem unpack_cases (b : BitVec Format.binary64.numBits) :
    (unpackExponent b = -1#11 ∧ unpackMantissa b = 0#52 ∧
      UnpackedFloat.unpack .binary64 b = .infinity (.ofBitVec (unpackSign b))) ∨
    (unpackExponent b = -1#11 ∧ unpackMantissa b ≠ 0#52 ∧
      UnpackedFloat.unpack .binary64 b = .notANumber) ∨
    (unpackExponent b = 0#11 ∧ unpackMantissa b = 0#52 ∧
      UnpackedFloat.unpack .binary64 b = .zero (.ofBitVec (unpackSign b))) ∨
    (unpackExponent b = 0#11 ∧ ∃ hm, UnpackedFloat.unpack .binary64 b =
      .finite (.ofBitVec (unpackSign b)) (unpackMantissa b).toNat (-1074) hm) ∨
    (unpackExponent b ≠ -1#11 ∧ unpackExponent b ≠ 0#11 ∧
      ∃ hm, UnpackedFloat.unpack .binary64 b = .finite (.ofBitVec (unpackSign b))
        (2 ^ 52 + (unpackMantissa b).toNat) ((unpackExponent b).toNat - 1075) hm) := by
  unfold UnpackedFloat.unpack
  dsimp only
  by_cases hones : unpackExponent b = -1#11
  · rw [if_pos hones]
    by_cases hmantissa : unpackMantissa b = 0#52
    · exact Or.inl ⟨hones, hmantissa, if_pos hmantissa⟩
    · exact Or.inr (Or.inl ⟨hones, hmantissa, if_neg hmantissa⟩)
  · rw [if_neg hones]
    refine Or.inr (Or.inr ?_)
    by_cases hzero : unpackExponent b = 0#11
    · rw [if_pos hzero]
      by_cases hmantissa : unpackMantissa b = 0#52
      · exact Or.inl ⟨hzero, hmantissa, dif_pos hmantissa⟩
      · have hm := Nat.pos_of_ne_zero (toNat_ne_zero hmantissa)
        rw [dif_neg hmantissa, hzero]
        exact Or.inr (Or.inl ⟨rfl, hm, rfl⟩)
    · have hm : 0 < 2 ^ 52 + (unpackMantissa b).toNat := by omega
      rw [if_neg hzero]
      refine Or.inr (Or.inr ⟨hones, hzero, hm, ?_⟩)
      rw [UnpackedFloat.finite.injEq]
      exact ⟨rfl, toNat_one_append _, rfl⟩

/-- Packing undoes unpacking. -/
theorem pack_unpack (hvalid : Format.binary64.Valid b) :
    UnpackedFloat.pack .binary64 (UnpackedFloat.unpack .binary64 b) = b := by
  have hb := packComponents_unpack b
  have hmantissa : (unpackMantissa b).toNat < 2 ^ 52 := (unpackMantissa b).isLt
  rcases unpack_cases b with ⟨hones, hzero, h⟩ | ⟨hones, hne, h⟩ | ⟨hzero, hnone, h⟩ |
    ⟨hzero, hm, h⟩ | ⟨hones, hzero, hm, h⟩
  all_goals rw [h]
  · rw [hones, hzero] at hb
    exact hb
  · exact (hvalid.eq_packedNaN hones hne).symm
  · rw [hzero, hnone] at hb
    exact hb
  · have hlog := (Nat.log2_lt (Nat.ne_of_gt hm)).mpr hmantissa
    rw [hzero] at hb
    rw [UnpackedFloat.pack]
    dsimp only
    rw [if_neg, if_neg, BitVec.ofNat_toNat, BitVec.setWidth_eq]
    · exact hb
    · show ¬_ + 1 = 53
      omega
    · decide
  · have hlt : (unpackExponent b).toNat < 2 ^ 11 := (unpackExponent b).isLt
    have hne := toNat_ne_of_ne_ones hones
    have hbiased : (((unpackExponent b).toNat : Int) - 1075 + (1023 : Nat) + (52 : Nat)).toNat =
        (unpackExponent b).toNat := by
      omega
    have hleading : BitVec.ofNat 52 (2 ^ 52 + (unpackMantissa b).toNat) = unpackMantissa b := by
      refine BitVec.eq_of_toNat_eq ?_
      rw [BitVec.toNat_ofNat, Nat.add_mod_left, Nat.mod_eq_of_lt hmantissa]
    have hbias : Format.binary64.exponentBias = 1023 := rfl
    rw [UnpackedFloat.pack]
    dsimp only
    rw [hbias, hbiased, hleading, if_neg, if_pos, BitVec.ofNat_toNat, BitVec.setWidth_eq]
    · exact hb
    · rw [log2_leading hmantissa]
      rfl
    · show ¬2 ^ 11 ≤ (unpackExponent b).toNat + 1
      omega

theorem ofModel_pack_unpack (x : Float) : Float.ofModel (.pack x.toModel.unpack) = x := by
  obtain ⟨⟨bits, hvalid⟩⟩ := x
  have hbits := congrArg UInt64.ofBitVec (pack_unpack hvalid)
  simp only [Float.Model.pack, Float.Model.unpack, Float.ofModel.injEq, Float.Model.mk.injEq]
  exact hbits

/-- The exponent of an unpacked double is the one of its format. -/
theorem targetExponent_unpack {s : Sign} {m : Nat} {e : Int} {hm : 0 < m}
    (h : UnpackedFloat.unpack .binary64 b = .finite s m e hm) :
    Format.binary64.targetExponent (totalExponent m e) = e := by
  have hmantissa : (unpackMantissa b).toNat < 2 ^ 52 := (unpackMantissa b).isLt
  rcases unpack_cases b with ⟨-, -, hb⟩ | ⟨-, -, hb⟩ | ⟨-, -, hb⟩ | ⟨-, hpos, hb⟩ |
    ⟨-, hzero, hpos, hb⟩
  all_goals rw [hb] at h; cases h
  · have hlog := (Nat.log2_lt (Nat.ne_of_gt hpos)).mpr hmantissa
    show max (((unpackMantissa b).toNat.log2 : Int) + 1 + -1074 - 53) (-1074) = -1074
    omega
  · have hexponent := toNat_ne_zero hzero
    rw [totalExponent, log2_leading hmantissa]
    show max (((52 : Nat) : Int) + 1 + (((unpackExponent b).toNat : Int) - 1075) - 53) (-1074) =
      ((unpackExponent b).toNat : Int) - 1075
    omega

end Packed

/-! ### Exact division -/

section Division

variable {m n k : Nat} {e : Int}

theorem repeat_shiftRightOne (m n : Nat) :
    n.repeat ExtendedMantissa.shiftRightOne ⟨m * 2 ^ n, false, false⟩ = ⟨m, false, false⟩ := by
  induction n generalizing m with
  | zero => rw [Nat.pow_zero, Nat.mul_one, Nat.repeat]
  | succ n ih =>
    rw [Nat.pow_succ', ← Nat.mul_assoc, Nat.repeat, ih]
    simp [ExtendedMantissa.shiftRightOne]

theorem log2_mul_two_pow (hm : 0 < m) (n : Nat) : (m * 2 ^ n).log2 = m.log2 + n := by
  induction n with
  | zero => rw [Nat.pow_zero, Nat.mul_one, Nat.add_zero]
  | succ n ih =>
    have hne : m * 2 ^ n ≠ 0 := Nat.ne_of_gt (Nat.mul_pos hm (Nat.two_pow_pos n))
    rw [Nat.pow_succ', Nat.mul_left_comm, Nat.log2_two_mul hne, ih, Nat.add_assoc]

theorem log2_mul_le (hm : 0 < m) (hn : 0 < n) : (m * n).log2 ≤ m.log2 + n.log2 + 1 := by
  have hlt : m * n < 2 ^ (m.log2 + 1) * 2 ^ (n.log2 + 1) :=
    Nat.mul_lt_mul'' Nat.lt_log2_self Nat.lt_log2_self
  rw [← Nat.pow_add, ← Nat.log2_lt (Nat.ne_of_gt (Nat.mul_pos hm hn))] at hlt
  omega

/-- Shifting a multiple of a power of two to its exponent loses nothing. -/
theorem shiftToExponent_exact (m n : Nat) (e : Int) :
    shiftToExponent (m * 2 ^ n) (e - n) .exact e = (⟨m, false, false⟩, e) := by
  have hshift : (e - (e - n)).toNat = n := by omega
  have hexponent : e - n + (n : Nat) = e := by omega
  unfold shiftToExponent
  dsimp only
  rw [hshift, hexponent]
  exact congrArg (·, e) (repeat_shiftRightOne m n)

theorem roundWithAccuracy_exact (hm : 0 < m) (n : Nat)
    (he : Format.binary64.targetExponent (totalExponent m e) = e) :
    roundWithAccuracy .binary64 .positive (m * 2 ^ n) (e - n) .exact =
      .finite .positive m e hm := by
  have htotal : totalExponent (m * 2 ^ n) (e - n) = totalExponent m e := by
    rw [totalExponent, totalExponent, log2_mul_two_pow hm]
    omega
  have hfirst : shiftToTargetExponent .binary64 (m * 2 ^ n) (e - n) .exact =
      (⟨m, false, false⟩, e) := by
    rw [shiftToTargetExponent, htotal, he]
    exact shiftToExponent_exact m n e
  have hsecond : shiftToTargetExponent .binary64 m e .exact = (⟨m, false, false⟩, e) := by
    have hexact := shiftToExponent_exact m 0 e
    rw [Nat.pow_zero, Nat.mul_one, Int.natCast_zero, Int.sub_zero] at hexact
    rw [shiftToTargetExponent, he]
    exact hexact
  have hrounded : ExtendedMantissa.roundedMantissa ⟨m, false, false⟩ = m := rfl
  unfold roundWithAccuracy
  rw [hfirst]
  dsimp only
  rw [hrounded, hsecond]
  exact dif_neg (Nat.ne_of_gt hm)

/-- The quotient `m * 2 ^ e`, of a numerator and a denominator with the factor `F` in common, is
computed exactly when `e` is the exponent of its format. -/
theorem div_exact {F : Nat} (hm : 0 < m) (hF : 0 < F) (hk : -(k : Int) ≤ e)
    (he : Format.binary64.targetExponent (totalExponent m e) = e)
    (h₁ : 0 < m * 2 ^ (e + k).toNat * F) (h₂ : 0 < F * 2 ^ k) :
    UnpackedFloat.div .binary64 (.finite .positive (m * 2 ^ (e + k).toNat * F) 0 h₁)
      (.finite .positive (F * 2 ^ k) 0 h₂) = .finite .positive m e hm := by
  obtain ⟨t, ht⟩ : ∃ t, t = min (0 - 0 : Int) (Format.binary64.targetExponent
      (totalExponent (m * 2 ^ (e + k).toNat * F) 0 - totalExponent (F * 2 ^ k) 0)) := ⟨_, rfl⟩
  -- the quotient is computed with an exponent that does not exceed its own
  have hte : t ≤ e := by
    have hlog := log2_mul_le hm hF
    rw [Format.targetExponent] at ht he
    rw [totalExponent, totalExponent, Nat.mul_right_comm, log2_mul_two_pow (Nat.mul_pos hm hF),
      log2_mul_two_pow hF] at ht
    rw [totalExponent] at he
    omega
  have hscaled : (m * 2 ^ (e + k).toNat * F) <<< (0 - 0 - t).toNat =
      m * 2 ^ (e - t).toNat * (F * 2 ^ k) := by
    have hpow : (e + k).toNat + (0 - 0 - t).toNat = (e - t).toNat + k := by omega
    rw [Nat.shiftLeft_eq, Nat.mul_right_comm, Nat.mul_assoc m, ← Nat.pow_add, hpow, Nat.pow_add,
      Nat.mul_comm F, ← Nat.mul_assoc, ← Nat.mul_assoc]
  have hquotient : divCore .binary64 (m * 2 ^ (e + k).toNat * F) 0 (F * 2 ^ k) 0 =
      (m * 2 ^ (e - t).toNat, t, .exact) := by
    unfold divCore
    dsimp only
    rw [← ht, hscaled, Nat.mul_div_cancel _ h₂, Nat.mul_mod_left]
    rfl
  have hexponent : t = e - (e - t).toNat := by omega
  have hround := roundWithAccuracy_exact hm (e - t).toNat he
  rw [← hexponent] at hround
  rw [UnpackedFloat.div, hquotient]
  exact hround

end Division

/-! ### Numerals -/

/-- A number that can stand as a literal: it has no sign and is no NaN. -/
def IsUnsigned (x : Float) : Prop :=
  x.isNaN = false ∧ x.toBits < 0x8000000000000000

instance (x : Float) : Decidable (IsUnsigned x) :=
  inferInstanceAs (Decidable (_ ∧ _))

/-- A numeral with exactly the value of a number without a sign. The largest finite double is less
than `10 ^ 2049`. -/
def exactNumeral (x : Float) : List Char :=
  match x.toModel.unpack with
  | .finite _ m e _ =>
    digitsOf (m * 2 ^ (e + 1074).toNat * 5 ^ 1074) ++ ['e', '-', '1', '0', '7', '4']
  | .infinity _ => ['1', 'e', '2', '0', '4', '9']
  | _ => ['0']

section Numerals

variable {x : Float} {n m : Nat}

theorem digitsValue_digitsOf (n : Nat) : digitsValue (digitsOf n) = n := by
  calc digitsValue (digitsOf n) = Nat.ofDigitChars 10 (digitsOf n) 0 := by
        rw [Nat.ofDigitChars_eq_foldl, digitsValue]
        refine congrArg (fun f ↦ List.foldl f 0 (digitsOf n)) (funext fun value ↦ funext fun d ↦ ?_)
        rw [Nat.mul_comm, digitValue]
    _ = n := Nat.ofDigitChars_ten_toDigits

theorem readUnsigned?_digitsOf (n : Nat) :
    readUnsigned? (digitsOf n ++ ['e', '-', '1', '0', '7', '4']) =
      some (nearestDouble n (-1074)) := by
  have hdigits : ∀ c ∈ digitsOf n, isAsciiDigit c = true := fun c hc ↦
    Nat.isDigit_of_mem_toDigits (by decide) (by decide) hc
  have hne : digitsOf n ≠ [] := Nat.toDigits_ne_nil
  have htake : ['e', '-', '1', '0', '7', '4'].takeWhile isAsciiDigit = [] := rfl
  have hdrop : ['e', '-', '1', '0', '7', '4'].dropWhile isAsciiDigit =
      ['e', '-', '1', '0', '7', '4'] := rfl
  have hexponent : readExponent? ['-', '1', '0', '7', '4'] = some (-1074) := by decide
  unfold readUnsigned?
  rw [List.takeWhile_append_of_pos hdigits, List.dropWhile_append_of_pos hdigits, htake, hdrop,
    List.append_nil]
  show (if digitsOf n ++ [] = [] then none
    else if 'e' = 'e' ∨ 'e' = 'E' then
      (readExponent? ['-', '1', '0', '7', '4']).map fun e ↦
        nearestDouble (digitsValue (digitsOf n ++ [])) (e - (0 : Nat))
    else none) = _
  rw [List.append_nil, if_neg hne, if_pos (Or.inl rfl), digitsValue_digitsOf, hexponent]
  rfl

theorem unpackSign_eq_zero {b : BitVec Format.binary64.numBits} (h : b.toNat < 2 ^ 63) :
    unpackSign b = 0#1 := by
  have hbit : b.getLsbD 63 = false := Nat.testBit_lt_two_pow h
  refine BitVec.eq_of_getLsbD_eq fun i hi ↦ ?_
  obtain rfl : i = 0 := by omega
  rw [unpackSign, BitVec.getLsbD_cast, BitVec.getLsbD_extractLsb]
  simpa using hbit

/-- A number without a sign is unpacked with a positive one. -/
theorem unpack_of_isUnsigned (h : IsUnsigned x) :
    x.toModel.unpack = .infinity .positive ∨ x.toModel.unpack = .zero .positive ∨
      ∃ m e hm, x.toModel.unpack = .finite .positive m e hm := by
  have hbits : @unpackSign .binary64 x.toModel.toBits.toBitVec = 0#1 :=
    unpackSign_eq_zero (UInt64.lt_iff_toNat_lt.mp h.2)
  have hsign : Sign.ofBitVec 0#1 = .positive := rfl
  have hnan : x.toModel.unpack.isNaN = false := h.1
  have hcases := unpack_cases x.toModel.toBits.toBitVec
  rw [← Float.Model.unpack, hbits, hsign] at hcases
  rcases hcases with ⟨-, -, hx⟩ | ⟨-, -, hx⟩ | ⟨-, -, hx⟩ | ⟨-, hm, hx⟩ | ⟨-, -, hm, hx⟩
  · exact Or.inl hx
  · rw [hx] at hnan
    cases hnan
  · exact Or.inr (Or.inl hx)
  · exact Or.inr (Or.inr ⟨_, _, hm, hx⟩)
  · exact Or.inr (Or.inr ⟨_, _, hm, hx⟩)

/-- A decimal whose value is that of a double is read as that double. -/
theorem nearestDouble_exact {k : Nat} {e : Int} (hm : 0 < m)
    (he : Format.binary64.targetExponent (totalExponent m e) = e) (hk : -(k : Int) ≤ e)
    (hlow : 22 < k) (hhigh : k ≤ 2048) :
    nearestDouble (m * 2 ^ (e + k).toNat * 5 ^ k) (-k) =
      .ofModel (.pack (.finite .positive m e hm)) := by
  have hF : 0 < 5 ^ k := Nat.pow_pos (by decide)
  have hpos : 0 < m * 2 ^ (e + k).toNat * 5 ^ k :=
    Nat.mul_pos (Nat.mul_pos hm (Nat.two_pow_pos _)) hF
  have hten : 5 ^ k * 2 ^ k = 10 ^ k := (Nat.mul_pow 5 2 k).symm
  have hdiv := div_exact hm hF hk he hpos (Nat.mul_pos hF (Nat.two_pow_pos _))
  simp only [hten] at hdiv
  have hscientific : UnpackedFloat.ofScientific .binary64 (m * 2 ^ (e + k).toNat * 5 ^ k) (-k) =
      .finite .positive m e hm := by
    unfold UnpackedFloat.ofScientific
    rw [dif_neg (Nat.ne_of_gt hpos), if_neg, if_neg, if_neg]
    · simp only [Int.neg_neg, Int.toNat_natCast]
      exact hdiv
    · omega
    · show ¬(-(k : Int)) < -(2048 + _)
      omega
    · show ¬(-(k : Int)) > 2048
      omega
  have hnegative : (-(k : Int)) < 0 := by omega
  unfold nearestDouble
  rw [if_pos hnegative, Int.neg_neg, Int.toNat_natCast]
  unfold Float.ofScientific
  rw [dif_neg fun h ↦ absurd h.2 (by omega), if_pos rfl, Int.negOfNat_eq]
  exact congrArg (fun u ↦ Float.ofModel (.pack u)) hscientific

/-- The exact numeral of a double that is neither infinite nor zero is read as that double without
its sign. -/
theorem readUnsigned?_of_unpack {s : Sign} {e : Int} {hm : 0 < m}
    (h : x.toModel.unpack = .finite s m e hm) :
    readUnsigned? (exactNumeral x) = some (.ofModel (.pack (.finite .positive m e hm))) := by
  have hexponent := targetExponent_unpack h
  have hleast : -((1074 : Nat) : Int) ≤ e := by
    rw [← hexponent, Format.targetExponent]
    exact Int.le_max_right _ _
  have hnearest := nearestDouble_exact hm hexponent hleast (by decide) (by decide)
  unfold exactNumeral
  rw [h]
  dsimp only
  rw [readUnsigned?_digitsOf]
  exact congrArg some hnearest

/-- The exact numeral of a number is read back as that number. -/
theorem readUnsigned?_exactNumeral (h : IsUnsigned x) :
    readUnsigned? (exactNumeral x) = some x := by
  have hx := ofModel_pack_unpack x
  rcases unpack_of_isUnsigned h with hunpack | hunpack | ⟨m, e, hm, hunpack⟩
  · unfold exactNumeral
    rw [hunpack] at hx ⊢
    rw [← hx]
    decide +kernel
  · unfold exactNumeral
    rw [hunpack] at hx ⊢
    rw [← hx]
    decide +kernel
  · rw [readUnsigned?_of_unpack hunpack, ← hunpack, hx]

/-! ### Signs -/

theorem unpackSign_packComponents (s : Sign) (exponent : BitVec 11) (mantissa : BitVec 52) :
    @unpackSign .binary64 (packComponents .binary64 s exponent mantissa) = s.toBitVec := by
  refine BitVec.eq_of_getLsbD_eq fun i hi ↦ ?_
  obtain rfl : i = 0 := by omega
  rw [unpackSign, BitVec.getLsbD_cast, BitVec.getLsbD_extractLsb, packComponents,
    BitVec.getLsbD_append, BitVec.getLsbD_append]
  rfl

theorem ofBitVec_toBitVec (s : Sign) : Sign.ofBitVec s.toBitVec = s := by
  cases s <;> rfl

/-- The sign of a double is a bit of its own. -/
theorem unpack_of_components {b c : BitVec Format.binary64.numBits} {s t : Sign} {e : Int}
    {hm : 0 < m} (h : UnpackedFloat.unpack .binary64 b = .finite s m e hm)
    (hexponent : unpackExponent c = unpackExponent b)
    (hmantissa : unpackMantissa c = unpackMantissa b) (hsign : unpackSign c = t.toBitVec) :
    UnpackedFloat.unpack .binary64 c = .finite t m e hm := by
  have hc := unpack_cases c
  rw [hexponent, hmantissa, hsign, ofBitVec_toBitVec] at hc
  rcases unpack_cases b with ⟨-, -, hb⟩ | ⟨-, -, hb⟩ | ⟨-, -, hb⟩ | ⟨hzero, hpos, hb⟩ |
    ⟨hones, hzero, hpos, hb⟩
  all_goals rw [hb] at h; cases h
  · have hne : unpackExponent b ≠ -1#11 := by
      rw [hzero]
      decide
    rcases hc with ⟨hc, -⟩ | ⟨hc, -⟩ | ⟨-, hc, -⟩ | ⟨-, _, hc⟩ | ⟨-, hc, -⟩
    · exact absurd hc hne
    · exact absurd hc hne
    · rw [hc] at hpos
      exact absurd hpos (by decide)
    · exact hc
    · exact absurd hzero hc
  · rcases hc with ⟨hc, -⟩ | ⟨hc, -⟩ | ⟨hc, -⟩ | ⟨hc, -⟩ | ⟨-, -, _, hc⟩
    · exact absurd hc hones
    · exact absurd hc hones
    · exact absurd hc hzero
    · exact absurd hc hzero
    · exact hc

/-- A double with its sign changed can be unpacked again. -/
theorem unpack_pack_of_unpack {s : Sign} {e : Int} {hm : 0 < m}
    (h : x.toModel.unpack = .finite s m e hm) (t : Sign) :
    (Float.Model.pack (.finite t m e hm)).unpack = .finite t m e hm := by
  obtain ⟨b, hb⟩ : ∃ b : BitVec Format.binary64.numBits, b = x.toModel.toBits.toBitVec :=
    ⟨_, rfl⟩
  have hunpack : UnpackedFloat.unpack .binary64 b = .finite s m e hm := by rw [hb]; exact h
  obtain ⟨c, hc⟩ : ∃ c : BitVec Format.binary64.numBits,
      c = packComponents .binary64 t (unpackExponent b) (unpackMantissa b) := ⟨_, rfl⟩
  have hexponent : unpackExponent c = unpackExponent b := by
    rw [hc, unpackExponent_packComponents]
  have hmantissa : unpackMantissa c = unpackMantissa b := by
    rw [hc, unpackMantissa_packComponents]
  have hsign : unpackSign c = t.toBitVec := by
    rw [hc]
    exact unpackSign_packComponents t _ _
  have hfinite := unpack_of_components hunpack hexponent hmantissa hsign
  have hvalid : Format.binary64.Valid c := by
    refine ⟨fun hones hne ↦ ?_⟩
    rcases unpack_cases c with ⟨-, hzero, -⟩ | ⟨-, -, hnan⟩ | ⟨hzero, -⟩ | ⟨hzero, -⟩ | ⟨hfin, -⟩
    · exact absurd hzero hne
    · rw [hfinite] at hnan
      cases hnan
    · rw [hones] at hzero
      exact absurd hzero (by decide)
    · rw [hones] at hzero
      exact absurd hzero (by decide)
    · exact absurd hones hfin
  have hpack := pack_unpack hvalid
  rw [hfinite] at hpack
  show UnpackedFloat.unpack .binary64
    (UInt64.ofBitVec (UnpackedFloat.pack .binary64 _)).toBitVec = _
  rw [hpack]
  exact hfinite

/-- A numeral with exactly the value of a finite number, with a sign in front of a negative one. -/
def signedNumeral (x : Float) : List Char :=
  match x.toModel.unpack with
  | .finite sign _ _ _ => signText sign ++ exactNumeral x
  | .zero sign => signText sign ++ exactNumeral x
  | _ => exactNumeral x

/-- A literal without a sign is a literal. -/
theorem readSigned?_of_readUnsigned? {s : List Char} (h : readUnsigned? s = some x) :
    readSigned? s = some x := by
  unfold readSigned?
  split
  · cases h
  · cases h
  · exact h

theorem neg_ofModel_pack {s : Sign} {e : Int} {hm : 0 < m}
    (h : x.toModel.unpack = .finite s m e hm) :
    Float.neg (.ofModel (.pack (.finite .positive m e hm))) =
      .ofModel (.pack (.finite .negative m e hm)) := by
  show Float.ofModel (.pack (Float.Model.unpack (.pack _)).neg) = _
  rw [unpack_pack_of_unpack h .positive]
  rfl

/-- The numeral of a finite number is read back as that number. -/
theorem readSigned?_signedNumeral (h : x.isFinite = true) :
    readSigned? (signedNumeral x) = some x := by
  have hx := ofModel_pack_unpack x
  have hfinite : x.toModel.unpack.isFinite = true := h
  cases hunpack : x.toModel.unpack with
  | notANumber =>
    rw [hunpack] at hfinite
    cases hfinite
  | infinity s =>
    rw [hunpack] at hfinite
    cases hfinite
  | zero s =>
    unfold signedNumeral exactNumeral
    rw [hunpack] at hx ⊢
    rw [← hx]
    cases s <;> decide +kernel
  | finite s m e hm =>
    have hread := readUnsigned?_of_unpack hunpack
    have hnumeral : signedNumeral x = signText s ++ exactNumeral x := by
      unfold signedNumeral
      rw [hunpack]
    rw [hunpack] at hx
    rw [hnumeral]
    cases s with
    | positive => rw [signText, List.nil_append, readSigned?_of_readUnsigned? hread, hx]
    | negative =>
      show (readUnsigned? (exactNumeral x)).map Float.neg = some x
      rw [hread, Option.map_some, neg_ofModel_pack hunpack, hx]

end Numerals

end TesterSetup.Decimal
