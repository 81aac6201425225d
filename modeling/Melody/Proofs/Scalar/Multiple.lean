import Melody.Proofs.Scalar.Ceiling
import Melody.Proofs.Scalar.Scaling

/-! A multiple of a double is rounded to a nearest natural number, where two are as near to the even
one of them, so that larger doubles have larger multiples. -/

namespace Melody

section Nearest

/-- A whole number as near to an exact one as any, and even if another one is as near. -/
structure RoundsTo (exact : ℚ) (count : ℤ) : Prop where
  near : |(count : ℚ) - exact| ≤ 1 / 2
  even : |(count : ℚ) - exact| = 1 / 2 → Even count

namespace RoundsTo

variable {exact exact' : ℚ} {count count' : ℤ}

/-- Less than a half away there is no other whole number as near. -/
theorem of_abs_lt (near : |(count : ℚ) - exact| < 1 / 2) : RoundsTo exact count :=
  ⟨near.le, fun half => absurd half near.ne⟩

/-- Rounding keeps the order of numbers. -/
theorem mono (rounds : RoundsTo exact count) (rounds' : RoundsTo exact' count')
    (below : exact ≤ exact') : count ≤ count' := by
  by_contra after
  have apart : (count' : ℚ) + 1 ≤ count := by exact_mod_cast not_le.mp after
  obtain ⟨_, high⟩ := abs_le.mp rounds.near
  obtain ⟨low, _⟩ := abs_le.mp rounds'.near
  -- The two can only be neighbours of a number halfway between them, and one of them is odd.
  have above : (count : ℚ) - exact = 1 / 2 := by linarith
  have under : (count' : ℚ) - exact' = -(1 / 2) := by linarith
  have next : count = count' + 1 := by
    have sum : (count : ℚ) = count' + 1 := by linarith
    exact_mod_cast sum
  have even := rounds.even (by rw [above]; norm_num)
  have even' := rounds'.even (by rw [under]; norm_num)
  rw [next] at even
  exact Int.not_even_iff_odd.mpr even'.add_one even

/-- A number is rounded in one way only. -/
theorem unique (rounds : RoundsTo exact count) (rounds' : RoundsTo exact count') :
    count = count' :=
  le_antisymm (rounds.mono rounds' le_rfl) (rounds'.mono rounds le_rfl)

/-- A number below zero is rounded as the one above zero. -/
theorem neg (rounds : RoundsTo exact count) : RoundsTo (-exact) (-count) := by
  have same : |((-count : ℤ) : ℚ) - -exact| = |(count : ℚ) - exact| := by
    rw [Int.cast_neg, neg_sub_neg, abs_sub_comm]
  exact ⟨same.trans_le rounds.near, fun half => (rounds.even (same.symm.trans half)).neg⟩

/-- What is not negative is rounded to what is not negative. -/
theorem nonneg (rounds : RoundsTo exact count) (low : 0 ≤ exact) : 0 ≤ count := by
  have zero : RoundsTo 0 0 := by
    constructor <;> norm_num
  exact zero.mono rounds low

end RoundsTo

end Nearest

namespace Decimal

variable {numerator denominator : Nat}

/-- A quotient is its whole part and the share of the denominator that its rest is. -/
theorem quotient_eq (numerator : Nat) (positive : 0 < denominator) :
    (numerator : ℚ) / denominator =
      (numerator / denominator : ℕ) + (numerator % denominator : ℕ) / denominator := by
  -- The quotient and the rest make up the numerator.
  have size : (denominator : ℚ) ≠ 0 := Nat.cast_ne_zero.mpr positive.ne'
  have parts : (numerator : ℚ) =
      denominator * (numerator / denominator : ℕ) + (numerator % denominator : ℕ) := by
    exact_mod_cast (Nat.div_add_mod numerator denominator).symm
  rw [div_eq_iff size, add_mul, div_mul_cancel₀ _ size, mul_comm]
  exact parts

/-- A quotient that is rounded to the even neighbour at a half is rounded. -/
theorem roundsTo_roundQuotient (numerator : Nat) (positive : 0 < denominator) :
    RoundsTo ((numerator : ℚ) / denominator) (roundQuotient .even numerator denominator : ℕ) := by
  have size : (0 : ℚ) < denominator := Nat.cast_pos.mpr positive
  have less : (numerator % denominator : ℕ) < (denominator : ℚ) := by
    exact_mod_cast Nat.mod_lt numerator positive
  rw [quotient_eq numerator positive, roundQuotient]
  set whole := numerator / denominator
  set rest := numerator % denominator
  have low : (0 : ℚ) ≤ rest / denominator := by positivity
  have high : (rest : ℚ) / denominator < 1 := (div_lt_one size).mpr less
  -- Twice the rest is compared with the denominator: rounded down, to even, or up.
  rcases lt_trichotomy (2 * rest) denominator with small | half | large
  · have small : (rest : ℚ) / denominator < 1 / 2 := by
      rw [div_lt_div_iff₀ size two_pos]
      exact_mod_cast (by omega : rest * 2 < 1 * denominator)
    rw [if_pos (by assumption)]
    refine RoundsTo.of_abs_lt (abs_lt.mpr ⟨?_, ?_⟩) <;> push_cast <;> linarith
  · have half : (rest : ℚ) / denominator = 1 / 2 := by
      rw [div_eq_div_iff size.ne' two_ne_zero]
      exact_mod_cast (by omega : rest * 2 = 1 * denominator)
    rw [if_neg (by omega), if_neg (by omega), half]
    have even : Even ((whole + whole % 2 : ℕ) : ℤ) := by
      rw [Int.even_coe_nat, Nat.even_iff]
      omega
    refine ⟨?_, fun _ => even⟩
    rcases Nat.mod_two_eq_zero_or_one whole with parity | parity <;> rw [parity, abs_le] <;>
      push_cast <;> constructor <;> linarith
  · have large : 1 / 2 < (rest : ℚ) / denominator := by
      rw [div_lt_div_iff₀ two_pos size]
      exact_mod_cast (by omega : 1 * denominator < rest * 2)
    rw [if_neg (by omega), if_pos (by assumption)]
    refine RoundsTo.of_abs_lt (abs_lt.mpr ⟨?_, ?_⟩) <;> push_cast <;> linarith

end Decimal

namespace Binary64

open Float.Model Float.Model.UnpackedFloat

/-- A significand times a power of two has a rounded multiple. -/
theorem exists_multiple?_finite (significand : Nat) (exponent : Int) (factor : Nat) :
    ∃ count : ℕ, (Decimal.Binary.finite false significand exponent).multiple? factor = some count ∧
      RoundsTo (significand * 2 ^ exponent * factor) count := by
  refine ⟨_, rfl, ?_⟩
  have multiple := ratio_div (significand * factor) exponent
  rw [Nat.cast_mul, mul_right_comm] at multiple
  rw [← multiple]
  exact Decimal.roundsTo_roundQuotient _ (Decimal.Binary.ratio_snd_pos (by decide) _ _)

/-- What is finite and not below zero has a rounded multiple, and a zero may have either sign. -/
theorem exists_multiple? {value : UnpackedFloat} (finite : value.isFinite = true)
    (low : 0 ≤ worth value) (factor : Nat) :
    ∃ count : ℕ, (split value).multiple? factor = some count ∧
      RoundsTo (worth value * factor) count := by
  -- A value that is not below zero is zero or has a positive sign.
  rcases eq_of_isFinite finite with ⟨sign, rfl⟩ | ⟨sign, significand, exponent, positive, rfl⟩
  · obtain ⟨count, found, rounds⟩ := exists_multiple?_finite 0 (-1074) factor
    rw [Nat.cast_zero, zero_mul] at rounds
    exact ⟨count, by cases sign <;> exact found, rounds⟩
  · cases sign with
    | negative =>
      rw [worth_negative] at low
      exact absurd (worth_positive exponent positive) (neg_nonneg.mp low).not_gt
    | positive => exact exists_multiple?_finite significand exponent factor

/-- Only what is finite and not below zero has a multiple. -/
theorem nonneg_of_multiple? {value : UnpackedFloat} {factor count : Nat}
    (found : (split value).multiple? factor = some count) :
    value.isFinite = true ∧ 0 ≤ worth value := by
  -- Values that are not finite, or below zero, have no multiple.
  cases value with
  | notANumber => cases found
  | infinity sign => cases found
  | zero sign => exact ⟨rfl, le_rfl⟩
  | finite sign significand exponent positive =>
    refine ⟨rfl, ?_⟩
    cases sign with
    | negative => simp [split, isNegative, Decimal.Binary.multiple?, positive.ne'] at found
    | positive => exact (worth_positive exponent positive).le

variable {x : Float} {count factor : Nat}

/-- The negation of a finite double has the negated number. -/
theorem value_negation (finite : x.isFinite = true) : value (-x) = -value x :=
  Option.some.inj <| (levelOf_of_isFinite (isFinite_negation finite)).symm.trans
    (levelOf_negation (levelOf_of_isFinite finite))

/-- A double is finite exactly when its negation is. -/
theorem isFinite_negation_iff : (-x).isFinite = true ↔ x.isFinite = true := by
  refine ⟨fun finite => ?_, isFinite_negation⟩
  show x.toModel.unpack.isFinite = true
  have finite : (Float.Model.pack x.toModel.unpack.neg).unpack.isFinite = true := finite
  -- Negation only turns the sign, which finiteness does not look at.
  cases held : x.toModel.unpack with
  | notANumber =>
    rw [held] at finite
    exact absurd finite (by decide)
  | infinity sign =>
    rw [held, UnpackedFloat.neg, unpack_pack_infinity] at finite
    exact absurd finite (by cases sign <;> decide)
  | zero sign => rfl
  | finite sign significand exponent positive => rfl

/-- The doubles that are finite and not below zero have a multiple, which is rounded. -/
theorem multiple?_eq_some_iff : Scalar.multiple? x factor = some count ↔
    x.isFinite = true ∧ 0 ≤ value x ∧ RoundsTo (value x * factor) count := by
  have parts : Scalar.multiple? x factor = (split x.toModel.unpack).multiple? factor :=
    congrArg (Decimal.Binary.multiple? · factor) (ofFloat_eq x)
  rw [parts]
  -- The count is determined by the number that it is rounded from.
  constructor
  · intro found
    obtain ⟨finite, low⟩ := nonneg_of_multiple? found
    obtain ⟨_, found', rounds⟩ := exists_multiple? finite low factor
    cases found.symm.trans found'
    exact ⟨finite, low, rounds⟩
  · rintro ⟨finite, low, rounds⟩
    obtain ⟨_, found, rounds'⟩ := exists_multiple? finite low factor
    rw [found, Nat.cast_inj.mp (rounds'.unique rounds)]

end Binary64

end Melody
