import Melody.Proofs.Scalar.Overflow

/-! The bits of a double are split into its exact value, so a ceiling is that of its number. -/

namespace Melody.Binary64

open Float.Model Float.Model.UnpackedFloat

section Splitting

/-- Whether a sign is that of the negative values. -/
def isNegative : Sign → Bool
  | .negative => true
  | .positive => false

/-- What the bits of a value are split into, a zero having the exponent of the least values. -/
def split : UnpackedFloat → Decimal.Binary
  | .notANumber => .undefined
  | .infinity sign => .infinite (isNegative sign)
  | .zero sign => .finite (isNegative sign) 0 (-1074)
  | .finite sign significand exponent _ => .finite (isNegative sign) significand exponent

variable (bits : BitVec 64)

/-- The exponent of a double stands above its significand. -/
theorem toNat_unpackExponent : (@unpackExponent Format.binary64 bits).toNat =
    bits.toNat / Decimal.Binary.leadingBit % 1 <<< 11 := by
  rw [unpackExponent, BitVec.toNat_cast, BitVec.extractLsb_toNat, Nat.shiftRight_eq_div_pow]
  rfl

/-- The significand of a double stands in its lowest bits. -/
theorem toNat_unpackMantissa : (@unpackMantissa Format.binary64 bits).toNat =
    bits.toNat % Decimal.Binary.leadingBit := by
  rw [unpackMantissa, BitVec.toNat_cast, BitVec.extractLsb_toNat, Nat.shiftRight_zero]
  rfl

/-- The sign of a double is its highest bit. -/
theorem isNegative_unpackSign : isNegative (Sign.ofBitVec (@unpackSign Format.binary64 bits)) =
    decide (Decimal.Binary.signBit ≤ bits.toNat) := by
  have size := bits.isLt
  have bit : (@unpackSign Format.binary64 bits).toNat = bits.toNat / 2 ^ 63 % 2 := by
    rw [unpackSign, BitVec.toNat_cast, BitVec.extractLsb_toNat, Nat.shiftRight_eq_div_pow]
    rfl
  have high : Decimal.Binary.signBit = 2 ^ 63 := rfl
  rw [high]
  -- The sign is the bit above all others, and there is no other bit above it.
  by_cases clear : @unpackSign Format.binary64 bits = 0#1
  · have none : (@unpackSign Format.binary64 bits).toNat = 0 := by rw [clear]; rfl
    rw [Sign.ofBitVec, if_pos clear, eq_comm, isNegative, decide_eq_false_iff_not]
    omega
  · have some : (@unpackSign Format.binary64 bits).toNat ≠ 0 :=
      fun none => clear (BitVec.eq_of_toNat_eq none)
    rw [Sign.ofBitVec, if_neg clear, eq_comm, isNegative, decide_eq_true_iff]
    omega

/-- The bits of a double are split into the parts of its value. -/
theorem ofFloat_eq (x : Float) : Decimal.Binary.ofFloat x = split x.toModel.unpack := by
  let exponent := @unpackExponent Format.binary64 x.toBits.toBitVec
  let stored := @unpackMantissa Format.binary64 x.toBits.toBitVec
  have last : exponent.toNat = 2047 ↔ exponent = -1#11 := BitVec.toNat_inj (y := -1#11)
  have first : exponent.toNat = 0 ↔ exponent = 0#11 := BitVec.toNat_inj (y := 0#11)
  have empty : stored.toNat = 0 ↔ stored = 0#52 := BitVec.toNat_inj (y := 0#52)
  show _ = split (unpack Format.binary64 x.toBits.toBitVec)
  unfold Decimal.Binary.ofFloat UnpackedFloat.unpack
  simp only [← UInt64.toNat_toBitVec, ← toNat_unpackExponent, ← toNat_unpackMantissa,
    ← isNegative_unpackSign]
  -- Both decodings read the exponent field first: all ones, none, or anything between.
  by_cases endless : exponent = -1#11
  · rw [if_pos (last.mpr endless), if_pos endless]
    by_cases none : stored = 0#52
    · rw [if_pos (empty.mpr none), if_pos none, split]
    · rw [if_neg (mt empty.mp none), if_neg none, split]
  · rw [if_neg (mt last.mp endless), if_neg endless]
    by_cases least : exponent = 0#11
    · rw [if_pos (first.mpr least), if_pos least]
      by_cases none : stored = 0#52
      · rw [dif_pos none, empty.mpr none, split]
      · rw [dif_neg none, first.mpr least, split]
        rfl
    · rw [if_neg (mt first.mp least), if_neg least, split, toNat_leading, Nat.add_comm]
      rfl

end Splitting

section Ceilings

open Decimal.Binary (ratio wordLimit)

/-- A quotient that is rounded up is the least natural number not below it. -/
theorem ceil_div (numerator : Nat) {denominator : Nat} (positive : 0 < denominator) :
    ⌈(numerator : ℚ) / denominator⌉₊ = (numerator + denominator - 1) / denominator := by
  have size : (0 : ℚ) < denominator := Nat.cast_pos.mpr positive
  refine eq_of_forall_ge_iff fun count => ?_
  rw [Nat.ceil_le, div_le_iff₀ size, ← Nat.ceilDiv_eq_add_pred_div, ceilDiv_le_iff_le_mul positive,
    Nat.mul_comm]
  exact_mod_cast Iff.rfl

/-- A significand times a power of two is the quotient that stands for it. -/
theorem ratio_div (significand : Nat) (exponent : Int) :
    ((ratio 2 significand exponent).1 : ℚ) / (ratio 2 significand exponent).2 =
      significand * 2 ^ exponent := by
  -- One of the two powers is one, whichever sign the exponent has.
  have parts : exponent = (exponent.toNat : ℤ) - ((-exponent).toNat : ℤ) := by omega
  have power : (2 : ℚ) ^ exponent = 2 ^ exponent.toNat / 2 ^ (-exponent).toNat := by
    conv_lhs => rw [parts]
    rw [zpow_sub₀ (by norm_num), zpow_natCast, zpow_natCast]
  rw [ratio, power, Nat.pow_eq, Nat.pow_eq]
  push_cast
  rw [mul_div_assoc]

/-- The ceiling of a significand times a power of two, within the range of a machine word. -/
theorem ceiling_finite (significand : Nat) (exponent : Int) :
    (Decimal.Binary.finite false significand exponent).ceiling =
      min wordLimit ⌈(significand : ℚ) * 2 ^ exponent⌉₊ := by
  rw [← ratio_div, ceil_div _ (Decimal.Binary.ratio_snd_pos (by decide) significand exponent)]
  rfl

/-- Every number of a machine word is below the limit of doubles. -/
theorem word_lt_limit : (2 : ℚ) ^ 64 < limit := by
  rw [limit_eq, ← zpow_natCast]
  exact zpow_lt_zpow_right₀ (by norm_num) (by norm_num)

/-- What is above all machine words has a ceiling above them. -/
theorem wordLimit_lt_ceil {number : ℚ} (large : 2 ^ 64 ≤ number) : wordLimit < ⌈number⌉₊ := by
  have below : (wordLimit : ℚ) < 2 ^ 64 := by
    exact_mod_cast (by decide : wordLimit < 2 ^ 64)
  exact Nat.lt_ceil.mpr (below.trans_le large)

/-- What a value is split into has the ceiling of its number, within the range of a machine word. -/
theorem ceiling_split {value : UnpackedFloat} {number : ℚ} (found : level value = some number) :
    (split value).ceiling = min wordLimit ⌈number⌉₊ := by
  -- What is not above zero has the ceiling zero, and what is infinite the largest word.
  cases value with
  | notANumber => cases found
  | infinity sign =>
    cases sign with
    | negative =>
      cases found
      rw [Nat.ceil_eq_zero.mpr (neg_nonpos.mpr limit_pos.le), Nat.min_zero]
      rfl
    | positive =>
      cases found
      rw [min_eq_left (wordLimit_lt_ceil word_lt_limit.le).le]
      rfl
  | zero sign =>
    cases found
    cases sign with
    | negative =>
      rw [Nat.ceil_zero, Nat.min_zero]
      rfl
    | positive => rw [split, isNegative, ceiling_finite, Nat.cast_zero, zero_mul]
  | finite sign significand exponent positive =>
    cases found
    cases sign with
    | negative =>
      have below := neg_nonpos.mpr (worth_positive exponent positive).le
      rw [worth_negative, Nat.ceil_eq_zero.mpr below, Nat.min_zero]
      rfl
    | positive =>
      rw [split, isNegative, ceiling_finite]
      rfl

/-- The ceiling of a double is that of its number, within the range of a machine word. -/
theorem ceiling_eq {x : Float} {number : ℚ} (found : levelOf x = some number) :
    Scalar.ceiling x = min wordLimit ⌈number⌉₊ :=
  (congrArg Decimal.Binary.ceiling (ofFloat_eq x)).trans (ceiling_split found)

/-- The doubles below the end of the machine words leave room for one more above their ceiling. -/
theorem ceil_add_one_lt {number : ℚ} (fits : Fits number) (below : number < 2 ^ 64) :
    ⌈number⌉₊ + 1 < 2 ^ 64 := by
  -- Doubles near the limit are far apart, so that the nearest one below it leaves room.
  have room : number ≤ (2 ^ 64 - 2 : ℕ) := by
    rcases units_or_less fits 11 with ⟨count, rfl⟩ | ⟨_, small⟩
    · have few : (count : ℚ) < (2 ^ 53 : ℤ) := by
        norm_num
        linarith
      have most : (count : ℚ) ≤ (2 ^ 53 - 1 : ℤ) :=
        Int.cast_le.mpr (Int.le_sub_one_of_lt (Int.cast_lt.mp few))
      norm_num at most ⊢
      linarith
    · have less := (le_abs_self number).trans_lt small
      norm_num at less ⊢
      linarith
  have ceiling := Nat.ceil_le.mpr room
  omega

/-- Below the end of the machine words a ceiling is exact and leaves room for one more. -/
theorem ceiling_of_lt {x : Float} {number : ℚ} (found : levelOf x = some number)
    (small : number < 2 ^ 64) :
    Scalar.ceiling x = ⌈number⌉₊ ∧ Scalar.ceiling x + 1 < UInt64.size := by
  -- The ceiling of a smaller number is a word, and so is one more.
  have room : ⌈number⌉₊ + 1 < 2 ^ 64 := by
    rcases isFinite_or_endless found with finite | ⟨rfl, _⟩ | ⟨rfl, _⟩
    · cases found.symm.trans (levelOf_of_isFinite finite)
      exact ceil_add_one_lt (fits_value x) small
    · exact absurd small word_lt_limit.not_gt
    · rw [Nat.ceil_eq_zero.mpr (neg_nonpos.mpr limit_pos.le)]
      decide
  have within : ⌈number⌉₊ ≤ wordLimit := Nat.le_of_lt_succ (Nat.lt_of_succ_lt room)
  rw [ceiling_eq found, min_eq_right within]
  exact ⟨rfl, room⟩

/-- Beyond the machine words a ceiling is the largest of them. -/
theorem ceiling_of_le {x : Float} {number : ℚ} (found : levelOf x = some number)
    (large : 2 ^ 64 ≤ number) : Scalar.ceiling x + 1 = UInt64.size := by
  rw [ceiling_eq found, min_eq_left (wordLimit_lt_ceil large).le]
  rfl

end Ceilings

end Melody.Binary64
