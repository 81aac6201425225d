import Melody.Proofs.Scalar.Order

/-! Rounding a significand finds a number of units that is at most half a one away from it. -/

namespace Melody.Binary64

open Float.Model Float.Model.UnpackedFloat

section Bits

variable {kept : ExtendedMantissa} {exact : ℚ}

/-- The part of a unit that the bit behind a significand stands for. -/
def half (kept : ExtendedMantissa) : ℚ :=
  if kept.roundBit then 1 / 2 else 0

/-- The bits that are kept say on which side of the next half an exact value lies. -/
structure Describes (kept : ExtendedMantissa) (exact : ℚ) : Prop where
  low : kept.mantissa + half kept ≤ exact
  high : exact < kept.mantissa + half kept + 1 / 2
  sticky : kept.stickyBit = true ↔ kept.mantissa + half kept ≠ exact

/-- A significand that is taken with its accuracy is left as it is. -/
@[simp] theorem mantissa_ofMantissaAndAccuracy (significand : Nat) (accuracy : Accuracy) :
    (ExtendedMantissa.ofMantissaAndAccuracy significand accuracy).mantissa = significand := by
  rcases accuracy with _ | (_ | _ | _) <;> rfl

/-- A significand without further bits describes itself. -/
theorem describes_exact (significand : Nat) :
    Describes (.ofMantissaAndAccuracy significand .exact) significand := by
  constructor <;> norm_num [ExtendedMantissa.ofMantissaAndAccuracy, half]

/-- The exact value has the significand before its point. -/
theorem Describes.bounds (describes : Describes kept exact) :
    (kept.mantissa : ℚ) ≤ exact ∧ exact < kept.mantissa + 1 := by
  obtain ⟨low, high, _⟩ := describes
  have part : 0 ≤ half kept ∧ half kept ≤ 1 / 2 := by
    unfold half
    split <;> norm_num
  constructor <;> linarith

/-- A bit that is shifted out becomes the bit behind the significand. -/
theorem Describes.shiftRightOne (describes : Describes kept exact) :
    Describes kept.shiftRightOne (exact / 2) := by
  obtain ⟨low, high, sticky⟩ := describes
  -- The significand is twice the shifted one and the bit that leaves it.
  have parts : (kept.mantissa : ℚ) = 2 * (kept.mantissa / 2 : ℕ) + 2 * half kept.shiftRightOne := by
    have whole : ((kept.mantissa % 2 : ℕ) : ℚ) + 2 * (kept.mantissa / 2 : ℕ) = kept.mantissa := by
      exact_mod_cast Nat.mod_add_div kept.mantissa 2
    have bit : 2 * half kept.shiftRightOne = ((kept.mantissa % 2 : ℕ) : ℚ) := by
      rcases Nat.mod_two_eq_zero_or_one kept.mantissa with even | odd
      · simp [half, ExtendedMantissa.shiftRightOne, even]
      · simp [half, ExtendedMantissa.shiftRightOne, odd]
    rw [bit, ← whole]
    ring
  cases round : kept.roundBit with
  | true =>
    have behind : half kept = 1 / 2 := by simp [half, round]
    rw [behind, parts] at low high
    refine ⟨?_, ?_, ?_⟩
    · show ((kept.mantissa / 2 : ℕ) : ℚ) + _ ≤ _
      linarith
    · show _ < ((kept.mantissa / 2 : ℕ) : ℚ) + _ + _
      linarith
    · show (kept.roundBit || kept.stickyBit) = true ↔ ((kept.mantissa / 2 : ℕ) : ℚ) + _ ≠ _
      rw [round, Bool.true_or]
      exact ⟨fun _ same => by linarith, fun _ => rfl⟩
  | false =>
    have behind : half kept = 0 := by simp [half, round]
    rw [behind, parts] at low high sticky
    refine ⟨?_, ?_, ?_⟩
    · show ((kept.mantissa / 2 : ℕ) : ℚ) + _ ≤ _
      linarith
    · show _ < ((kept.mantissa / 2 : ℕ) : ℚ) + _ + _
      linarith
    · show (kept.roundBit || kept.stickyBit) = true ↔ ((kept.mantissa / 2 : ℕ) : ℚ) + _ ≠ _
      rw [round, Bool.false_or, sticky]
      exact not_congr ⟨fun same => by linarith, fun same => by linarith⟩

/-- Bits that are shifted out leave those that tell on which side of a half the value lies. -/
theorem Describes.shiftRight (describes : Describes kept exact) (count : Nat) :
    Describes (kept >>> count) (exact / 2 ^ count) := by
  -- A shift by several bits is as many shifts by one.
  induction count with
  | zero =>
    rw [pow_zero, div_one]
    exact describes
  | succ count ih =>
    rw [pow_succ, ← div_div]
    exact ih.shiftRightOne

/-- The rounded significand is at most half a unit away from the exact value. -/
theorem Describes.rounded (describes : Describes kept exact) :
    |(kept.roundedMantissa : ℚ) - exact| ≤ 1 / 2 := by
  obtain ⟨significand, round, more⟩ := kept
  obtain ⟨low, high, sticky⟩ := describes
  rw [abs_le]
  cases round with
  | false =>
    -- Below the half the significand is kept.
    have same : (ExtendedMantissa.mk significand false more).roundedMantissa = significand := by
      cases more <;> rfl
    simp only [half, Bool.false_eq_true, if_false] at low high
    rw [same]
    constructor <;> linarith
  | true =>
    simp only [half, if_true] at low high sticky
    cases more with
    | true =>
      have next : ((ExtendedMantissa.mk significand true true).roundedMantissa : ℚ) =
          significand + 1 := by exact_mod_cast rfl
      rw [next]
      constructor <;> linarith
    | false =>
      -- On the half the even neighbour is taken, and both are as far away.
      have middle : (significand : ℚ) + 1 / 2 = exact := by simpa using sticky
      have even : ((ExtendedMantissa.mk significand true false).roundedMantissa : ℚ) =
          significand + (significand % 2 : ℕ) := by exact_mod_cast rfl
      rw [even, ← middle]
      rcases Nat.mod_two_eq_zero_or_one significand with same | odd
      · rw [same]
        norm_num
      · rw [odd]
        norm_num

end Bits

section Steps

/-- The exponent at which a significand has 53 bits, or the least one. -/
def unit (significand : Nat) (exponent : Int) : Int :=
  max (significand.log2 + exponent - 52) (-1074)

/-- The exponent that rounding aims at is that of the unit. -/
theorem targetExponent_eq (significand : Nat) (exponent : Int) :
    Format.binary64.targetExponent (totalExponent significand exponent) =
      unit significand exponent := by
  simp only [Format.targetExponent, totalExponent, Format.mantissaBits, Format.minExponent, unit]
  norm_num
  omega

/-- Shifting a number moves its leading bit. -/
theorem log2_shiftLeft {significand : Nat} (positive : 0 < significand) (count : Nat) :
    (significand <<< count).log2 = significand.log2 + count := by
  have full : significand <<< count ≠ 0 := by
    rw [Nat.shiftLeft_eq]
    positivity
  rw [Nat.log2_eq_iff full, Nat.shiftLeft_eq]
  have low := Nat.log2_self_le positive.ne'
  have high : significand < 2 ^ (significand.log2 + 1) := Nat.lt_log2_self
  -- Both bounds of the logarithm are shifted by the same count.
  constructor
  · rw [pow_add]
    exact Nat.mul_le_mul_right _ low
  · rw [show significand.log2 + count + 1 = significand.log2 + 1 + count by omega, pow_add]
    exact Nat.mul_lt_mul_of_pos_right high (by positivity)

variable {significand : Nat} {exponent : Int}

/-- A value measured in units has at most 53 bits before the point. -/
theorem scaled_lt {exact : ℚ} (below : exact < significand + 1) (exponent : Int) :
    exact * 2 ^ (exponent - unit significand exponent) < 2 ^ 53 := by
  have high : (significand : ℚ) + 1 ≤ 2 ^ ((significand.log2 : ℤ) + 1) := by
    exact_mod_cast Nat.lt_log2_self (n := significand)
  -- The exponent is raised until the leading bit is at the 53rd place at most.
  have apart : exponent - unit significand exponent ≤ 52 - significand.log2 := by
    unfold unit
    omega
  calc
    exact * 2 ^ (exponent - unit significand exponent)
      < (significand + 1) * 2 ^ (exponent - unit significand exponent) := by gcongr
    _ ≤ 2 ^ ((significand.log2 : ℤ) + 1) * 2 ^ (52 - (significand.log2 : ℤ)) := by
      gcongr
      norm_num
    _ = 2 ^ 53 := by
      rw [← zpow_add₀ (by norm_num)]
      ring_nf
      norm_num

/-- A value measured in units has 53 bits before the point, or its unit is the least one. -/
theorem le_scaled (positive : 0 < significand) (above : unit significand exponent ≠ -1074) :
    2 ^ 52 ≤ (significand : ℚ) * 2 ^ (exponent - unit significand exponent) := by
  have low : (2 : ℚ) ^ (significand.log2 : ℤ) ≤ significand := by
    exact_mod_cast Nat.log2_self_le positive.ne'
  -- Above the least exponent the leading bit is at the 53rd place exactly.
  have exactly : exponent - unit significand exponent = 52 - significand.log2 := by
    unfold unit at above ⊢
    omega
  calc
    (2 : ℚ) ^ 52 = 2 ^ (significand.log2 : ℤ) * 2 ^ (52 - (significand.log2 : ℤ)) := by
      rw [← zpow_add₀ (by norm_num)]
      ring_nf
      norm_num
    _ ≤ significand * 2 ^ (exponent - unit significand exponent) := by
      rw [exactly]
      gcongr

/-- A number of units as a value, with a carry into the next exponent. -/
def carried (sign : Sign) (count : Nat) (exponent : Int) : UnpackedFloat :=
  if empty : count = 0 then .zero sign
  else if count < 2 ^ 53 then .finite sign count exponent (Nat.pos_of_ne_zero empty)
  else .finite sign (2 ^ 52) (exponent + 1) (by decide)

/-- A significand is shifted down to its unit, or left where it is coarser already. -/
theorem shift_eq (significand : Nat) (exponent : Int) (accuracy : Accuracy) :
    shiftToTargetExponent Format.binary64 significand exponent accuracy =
      (ExtendedMantissa.ofMantissaAndAccuracy significand accuracy >>>
        (unit significand exponent - exponent).toNat,
        exponent + (unit significand exponent - exponent).toNat) := by
  unfold shiftToTargetExponent
  rw [targetExponent_eq]
  rfl

/-- A significand that fits is not shifted. -/
theorem shift_of_fits (fits : significand < 2 ^ 53) (above : -1074 ≤ exponent) :
    shiftToTargetExponent Format.binary64 significand exponent .exact =
      (⟨significand, false, false⟩, exponent) := by
  have small : significand.log2 ≤ 52 := by
    by_cases zero : significand = 0
    · simp [zero]
    · exact Nat.le_of_lt_succ ((Nat.log2_lt zero).mpr fits)
  -- A significand that fits needs no shift.
  have still : (unit significand exponent - exponent).toNat = 0 := by
    unfold unit
    omega
  rw [shift_eq, still, Nat.cast_zero, add_zero]
  rfl

/-- A significand that has overflowed is shifted by one bit. -/
theorem shift_of_full (above : -1074 ≤ exponent) :
    shiftToTargetExponent Format.binary64 (2 ^ 53) exponent .exact =
      (⟨2 ^ 52, false, false⟩, exponent + 1) := by
  -- The full significand has one bit too many and ends in zeros, so one shift loses nothing.
  have once : (unit (2 ^ 53) exponent - exponent).toNat = 1 := by
    unfold unit
    rw [Nat.log2_two_pow]
    omega
  rw [shift_eq, once]
  rfl

/-- Rounding ends with the number of units that the first shift leaves. -/
theorem roundWithAccuracy_of_shift (sign : Sign) {accuracy : Accuracy} {kept : ExtendedMantissa}
    {least : Int}
    (shifted : shiftToTargetExponent Format.binary64 significand exponent accuracy = (kept, least))
    (few : kept.roundedMantissa ≤ 2 ^ 53) (above : -1074 ≤ least) :
    roundWithAccuracy Format.binary64 sign significand exponent accuracy =
      carried sign kept.roundedMantissa least := by
  unfold roundWithAccuracy carried
  rw [shifted]
  dsimp only
  -- A rounded significand fits, unless it has been carried into the next place.
  rcases few.lt_or_eq with fits | full
  · rw [shift_of_fits fits above]
    by_cases none : kept.roundedMantissa = 0
    · simp [none]
    · simpa [none] using fits
  · rw [full, shift_of_full above]
    rfl

/-- Rounding finds a number of units that is at most half a one away from the exact value, if the
significand that it starts from reaches down to the unit. -/
theorem roundWithAccuracy_eq_carried (sign : Sign) {accuracy : Accuracy} {exact : ℚ}
    (describes : Describes (.ofMantissaAndAccuracy significand accuracy) exact)
    (low : exponent ≤ unit significand exponent) :
    ∃ count : Nat, count ≤ 2 ^ 53 ∧
      roundWithAccuracy Format.binary64 sign significand exponent accuracy =
        carried sign count (unit significand exponent) ∧
      |(count : ℚ) - exact * 2 ^ (exponent - unit significand exponent)| ≤ 1 / 2 := by
  have small := scaled_lt (mantissa_ofMantissaAndAccuracy significand accuracy ▸ describes.bounds.2)
    exponent
  have above : -1074 ≤ unit significand exponent := le_max_right _ _
  have shifted := shift_eq significand exponent accuracy
  generalize unit significand exponent = least at *
  obtain ⟨fewer, raised⟩ : ∃ fewer, fewer = (least - exponent).toNat := ⟨_, rfl⟩
  rw [← raised, show exponent + fewer = least by omega] at shifted
  have value : exact / 2 ^ fewer = exact * 2 ^ (exponent - least) := by
    rw [show exponent - least = -(fewer : ℤ) by omega, zpow_neg, zpow_natCast, div_eq_mul_inv]
  have near := (describes.shiftRight fewer).rounded
  rw [value] at near
  -- Half a unit more than 53 bits is still within the bits and their carry.
  have few : (ExtendedMantissa.ofMantissaAndAccuracy significand accuracy >>>
      fewer).roundedMantissa ≤ 2 ^ 53 := by
    have limit := (abs_le.mp near).2
    have bound : ((ExtendedMantissa.ofMantissaAndAccuracy significand accuracy >>>
        fewer).roundedMantissa : ℚ) < ((2 ^ 53 + 1 : ℕ) : ℚ) := by
      push_cast
      linarith
    exact Nat.le_of_lt_succ (Nat.cast_lt.mp bound)
  exact ⟨_, few, roundWithAccuracy_of_shift sign shifted few above, near⟩

/-- To round a significand, it is first continued down to the unit. -/
theorem exists_round_eq (sign : Sign) (positive : 0 < significand) (exponent : Int) :
    ∃ more : Nat, unit (significand <<< more) (exponent - more) = unit significand exponent ∧
      exponent - more ≤ unit significand exponent ∧
      round Format.binary64 sign significand exponent =
        roundWithAccuracy Format.binary64 sign (significand <<< more) (exponent - more) .exact := by
  -- The significand is shifted up first if its exponent lies above the one to be reached.
  refine ⟨(exponent - unit significand exponent).toNat, ?_, by omega, ?_⟩
  · generalize (exponent - unit significand exponent).toNat = more
    rw [unit, unit, log2_shiftLeft positive]
    push_cast
    ring_nf
  · unfold UnpackedFloat.round decreaseExponent
    rw [targetExponent_eq]

end Steps

end Melody.Binary64
