import Melody.Proofs.Scalar.Overflow

/-! Products and quotients of doubles are rounded as their sums are. -/

namespace Melody.Binary64

open Float.Model Float.Model.UnpackedFloat

section Quotients

/-- What a division leaves tells how far its result is off. -/
theorem describes_fraction (number : Nat) {divisor : Nat} (positive : 0 < divisor) :
    Describes (.ofMantissaAndAccuracy (number / divisor)
      (accuracyOfFraction (number % divisor) divisor)) ((number : ℚ) / divisor) := by
  have size : (0 : ℚ) < divisor := by exact_mod_cast positive
  have parts : (number : ℚ) / divisor =
      (number / divisor : ℕ) + (number % divisor : ℕ) / divisor := by
    rw [div_eq_iff size.ne', add_mul, div_mul_cancel₀ _ size.ne']
    exact_mod_cast (Nat.div_add_mod' number divisor).symm
  have less : ((number % divisor : ℕ) : ℚ) < divisor := by
    exact_mod_cast Nat.mod_lt number positive
  rw [parts]
  generalize number % divisor = rest at less
  generalize number / divisor = quotient
  unfold accuracyOfFraction
  by_cases whole : rest = 0
  · rw [if_pos whole, whole, Nat.cast_zero, zero_div, add_zero]
    exact describes_exact quotient
  · have some : (0 : ℚ) < rest / divisor :=
      div_pos (by exact_mod_cast Nat.pos_of_ne_zero whole) size
    have below : (rest : ℚ) / divisor < 1 := (div_lt_one size).mpr less
    rw [if_neg whole]
    -- The two bits say on which side of a half the part behind the point is.
    cases order : compare (2 * rest) divisor with
    | lt =>
      have side : 2 * (rest : ℚ) < divisor := by exact_mod_cast Nat.compare_eq_lt.mp order
      have side : (rest : ℚ) / divisor < 1 / 2 := (div_lt_iff₀ size).mpr (by linarith)
      have bits : half ⟨quotient, false, true⟩ = 0 := rfl
      refine ⟨?_, ?_, iff_of_true rfl ?_⟩ <;>
        rw [ExtendedMantissa.ofMantissaAndAccuracy, bits]
      · linarith
      · linarith
      · exact fun same => by linarith
    | eq =>
      have side : 2 * (rest : ℚ) = divisor := by exact_mod_cast Nat.compare_eq_eq.mp order
      have side : (rest : ℚ) / divisor = 1 / 2 := (div_eq_iff size.ne').mpr (by linarith)
      rw [side]
      constructor <;> norm_num [ExtendedMantissa.ofMantissaAndAccuracy, half]
    | gt =>
      have side : (divisor : ℚ) < 2 * rest := by exact_mod_cast Nat.compare_eq_gt.mp order
      have side : 1 / 2 < (rest : ℚ) / divisor := (lt_div_iff₀ size).mpr (by linarith)
      have bits : half ⟨quotient, true, true⟩ = 1 / 2 := rfl
      refine ⟨?_, ?_, iff_of_true rfl ?_⟩ <;>
        rw [ExtendedMantissa.ofMantissaAndAccuracy, bits]
      · linarith
      · linarith
      · exact fun same => by linarith

variable {number divisor : Nat}

/-- A quotient has no fewer bits than its parts leave to it. -/
theorem log2_div (positive : 0 < divisor) {bits : Nat}
    (long : divisor.log2 + 1 + bits ≤ number.log2) (some : 0 < number) :
    bits ≤ (number / divisor).log2 := by
  have low : 2 ^ number.log2 ≤ number := Nat.log2_self_le some.ne'
  have high : divisor < 2 ^ (divisor.log2 + 1) := Nat.lt_log2_self
  -- The dividend has at least the bits of the divisor and of the bound together.
  have large : 2 ^ bits ≤ number / divisor := by
    rw [Nat.le_div_iff_mul_le positive]
    calc
      2 ^ bits * divisor ≤ 2 ^ bits * 2 ^ (divisor.log2 + 1) := Nat.mul_le_mul_left _ high.le
      _ = 2 ^ (divisor.log2 + 1 + bits) := by rw [← Nat.pow_add, Nat.add_comm]
      _ ≤ 2 ^ number.log2 := Nat.pow_le_pow_right (by decide) long
      _ ≤ number := low
  exact (Nat.le_log2 (by have := Nat.two_pow_pos bits; omega)).mpr large

/-- Division leaves a significand that reaches down to the unit of the quotient. -/
theorem divCore_spec (some : 0 < number) (positive : 0 < divisor) (exponent exponent' : Int) :
    ∃ (more : Nat) (least : Int), exponent - exponent' = more + least ∧
      divCore Format.binary64 number exponent divisor exponent' = ((number <<< more) / divisor,
        least, accuracyOfFraction ((number <<< more) % divisor) divisor) ∧
      least ≤ unit ((number <<< more) / divisor) least := by
  obtain ⟨least, found⟩ : ∃ least, least = min (exponent - exponent')
    (Format.binary64.targetExponent
      (totalExponent number exponent - totalExponent divisor exponent')) := ⟨_, rfl⟩
  refine ⟨(exponent - exponent' - least).toNat, least, by omega, ?_, ?_⟩
  · rw [found]
    rfl
  · have target : least = min (exponent - exponent') (max (number.log2 + exponent -
        (divisor.log2 + exponent') - 53) (-1074)) := by
      rw [found]
      simp only [Format.targetExponent, totalExponent, Format.mantissaBits, Format.minExponent]
      norm_num
      omega
    -- At the least unit nothing is asked for, and above it the quotient has 53 bits.
    by_cases lowest : least ≤ -1074
    · exact lowest.trans (le_max_right _ _)
    · generalize more : (exponent - exponent' - least).toNat = count
      have shifted := log2_shiftLeft some count
      have long : 52 ≤ (number <<< count / divisor).log2 := by
        refine log2_div positive (by omega) ?_
        rw [Nat.shiftLeft_eq]
        positivity
      unfold unit
      omega

/-- The sign of a quotient is that of the product of the signs. -/
theorem apply_div (sign sign' : Sign) :
    (sign / sign').apply 1 = sign.apply 1 * sign'.apply 1 := by
  cases sign <;> cases sign' <;> rfl

/-- The quotient of two values is rounded to a nearest one. -/
theorem rounded_div {one other : UnpackedFloat} (finite : one.isFinite = true)
    (finite' : other.isFinite = true) (some : worth other ≠ 0) :
    Rounded (worth one / worth other) (div Format.binary64 one other) := by
  rcases eq_of_isFinite finite' with
    ⟨sign', rfl⟩ | ⟨sign', divisor, exponent', positive', rfl⟩
  · exact absurd (worth_zero sign') some
  · rcases eq_of_isFinite finite with ⟨sign, rfl⟩ | ⟨sign, number, exponent, positive, rfl⟩
    · rw [worth_zero, zero_div]
      exact rounded_zero _
    · obtain ⟨more, least, same, parts, reaches⟩ :=
        divCore_spec positive positive' exponent exponent'
      have rounded := roundWithAccuracy_rounded (sign / sign')
        (describes_fraction (number <<< more) positive') reaches
      have value : worth (.finite sign number exponent positive) /
          worth (.finite sign' divisor exponent' positive') =
          ((sign / sign').apply 1 : Int) * ((number <<< more : ℕ) / divisor * 2 ^ least) := by
        have powers : (2 : ℚ) ^ exponent = 2 ^ more * 2 ^ least * 2 ^ exponent' := by
          rw [← zpow_natCast, ← zpow_add₀ (by norm_num), ← zpow_add₀ (by norm_num), ← same,
            sub_add_cancel]
        have size : (divisor : ℚ) ≠ 0 := by exact_mod_cast positive'.ne'
        have unit : (2 : ℚ) ^ exponent' ≠ 0 := by positivity
        -- The signs only matter to the sign of the result.
        rw [worth, worth, powers, apply_div, Nat.shiftLeft_eq]
        cases sign <;> cases sign' <;> simp [Sign.apply] <;> field_simp
      rw [value]
      unfold UnpackedFloat.div
      simp only [parts]
      exact rounded

end Quotients

section Products

/-- The sign of a product is the product of the signs. -/
theorem apply_mul (sign sign' : Sign) :
    (sign * sign').apply 1 = sign.apply 1 * sign'.apply 1 := by
  cases sign <;> cases sign' <;> rfl

/-- The product of two finite values is rounded to a nearest one if it reaches down to the unit. -/
theorem rounded_mul_of_reaches (sign sign' : Sign) {number number' : Nat} {exponent exponent' : Int}
    (positive : 0 < number) (positive' : 0 < number')
    (reaches : exponent + exponent' ≤ unit (number * number') (exponent + exponent')) :
    Rounded (worth (.finite sign number exponent positive) *
        worth (.finite sign' number' exponent' positive'))
      (mul Format.binary64 (.finite sign number exponent positive)
        (.finite sign' number' exponent' positive')) := by
  have rounded := roundWithAccuracy_rounded (sign * sign') (describes_exact (number * number'))
    reaches
  -- Signs, significands and exponents are multiplied one by one.
  have value : worth (.finite sign number exponent positive) *
      worth (.finite sign' number' exponent' positive') =
      ((sign * sign').apply 1 : Int) * ((number * number' : ℕ) * 2 ^ (exponent + exponent')) := by
    rw [worth, worth, zpow_add₀ (by norm_num), apply_mul, apply_eq sign, apply_eq sign']
    push_cast
    ring
  rw [value]
  exact rounded

/-- A product has no fewer bits than its parts have. -/
theorem le_log2_mul {number number' bits : Nat} (long : 2 ^ bits ≤ number)
    (positive' : 0 < number') : bits ≤ (number * number').log2 := by
  have large : 2 ^ bits ≤ number * number' := long.trans (Nat.le_mul_of_pos_right _ positive')
  exact (Nat.le_log2 (by have := Nat.two_pow_pos bits; omega)).mpr large

/-- The product of two values is rounded to a nearest one. -/
theorem rounded_mul {one other : UnpackedFloat} (finite : one.isFinite = true)
    (finite' : other.isFinite = true) (regular : Regular one) (regular' : Regular other) :
    Rounded (worth one * worth other) (mul Format.binary64 one other) := by
  rcases eq_of_isFinite finite with ⟨sign, rfl⟩ | ⟨sign, number, exponent, positive, rfl⟩
  · rw [worth_zero, zero_mul]
    rcases eq_of_isFinite finite' with ⟨sign', rfl⟩ | ⟨sign', _, _, _, rfl⟩ <;> exact rounded_zero _
  · rcases eq_of_isFinite finite' with ⟨sign', rfl⟩ | ⟨sign', number', exponent', positive', rfl⟩
    · rw [worth_zero, mul_zero]
      exact rounded_zero _
    · refine rounded_mul_of_reaches sign sign' positive positive' ?_
      -- A significand that does not have all bits has the least exponent.
      obtain ⟨_, low, _, full⟩ := regular
      obtain ⟨_, low', _, full'⟩ := regular'
      unfold unit
      rcases full with least | long
      · rcases full' with least' | long'
        · omega
        · have bits := le_log2_mul long' positive
          rw [Nat.mul_comm] at bits
          omega
      · have bits := le_log2_mul long positive'
        omega

end Products

section Doubles

variable {x y z : Float}

/-- A product of doubles is the packed product of their values. -/
theorem unpack_mul (x y : Float) : (x * y).toModel.unpack = (Float.Model.pack
    (UnpackedFloat.mul Format.binary64 x.toModel.unpack y.toModel.unpack)).unpack :=
  rfl

/-- A quotient of doubles is the packed quotient of their values. -/
theorem unpack_div (x y : Float) : (x / y).toModel.unpack = (Float.Model.pack
    (UnpackedFloat.div Format.binary64 x.toModel.unpack y.toModel.unpack)).unpack :=
  rfl

/-- A product of finite doubles is the closest number, without what is beyond the limits. -/
theorem levelOf_mul (left : x.isFinite = true) (right : y.isFinite = true) :
    ∃ found, Closest (value x * value y) found ∧ levelOf (x * y) = some (cut found) :=
  have rounded := rounded_mul left right (regular_unpack _) (regular_unpack _)
  ⟨_, rounded.closest, rounded.level_pack⟩

/-- A product is zero if one of its parts is. -/
theorem levelOf_mul_zero (left : x.isFinite = true) (right : y.isFinite = true)
    (none : value x * value y = 0) : levelOf (x * y) = some 0 := by
  obtain ⟨found, closest, level⟩ := levelOf_mul left right
  rw [none] at closest
  rw [level, closest.eq_of_fits fits_zero, cut_of_small (by rw [abs_zero]; exact limit_pos)]

/-- Doubles stay in order when they are multiplied by what is not negative. -/
theorem mul_le_mul_of_value_le (left : x.isFinite = true) (right : y.isFinite = true)
    (nonneg : 0 ≤ value x) (below : value x ≤ value y) (finite : z.isFinite = true)
    (nonneg' : 0 ≤ value z) : z * x ≤ z * y := by
  obtain ⟨found, closest, level⟩ := levelOf_mul finite left
  obtain ⟨found', closest', level'⟩ := levelOf_mul finite right
  rcases (mul_le_mul_of_nonneg_left below nonneg').lt_or_eq with less | same
  · exact le_iff_levelOf.mpr ⟨_, _, level, level', cut_mono (closest.mono closest' less)⟩
  · rcases (mul_nonneg nonneg' nonneg).eq_or_lt with none | some
    · have zero := levelOf_mul_zero finite left none.symm
      have zero' := levelOf_mul_zero finite right (same.symm.trans none.symm)
      exact le_iff_levelOf.mpr ⟨_, _, zero, zero', le_rfl⟩
    · -- Equal products that are not zero have equal parts.
      have positive := nonneg.lt_of_ne' (right_ne_zero_of_mul some.ne')
      have equal := mul_left_cancel₀ (left_ne_zero_of_mul some.ne') same
      have unpacked := unpack_eq_of_value_eq left right positive equal
      have same : levelOf (z * y) = levelOf (z * x) := by
        rw [levelOf, levelOf, unpack_mul, unpack_mul, unpacked]
      exact le_iff_levelOf.mpr ⟨_, _, level, same.trans level, le_rfl⟩

/-- A quotient of finite doubles is the closest number, without what is beyond the limits. -/
theorem levelOf_div (left : x.isFinite = true) (right : y.isFinite = true) (some : value y ≠ 0) :
    ∃ found, Closest (value x / value y) found ∧ levelOf (x / y) = .some (cut found) :=
  have rounded := rounded_div left right some
  ⟨_, rounded.closest, rounded.level_pack⟩

/-- The opposite of a number of 53 bits is one, too. -/
theorem Fits.neg {number : ℚ} (fits : Fits number) : Fits (-number) := by
  obtain ⟨significand, exponent, short, low, rfl⟩ := fits
  exact ⟨-significand, exponent, by rwa [abs_neg], low, by rw [Int.cast_neg, neg_mul]⟩

/-- What is rounded does not become larger in size than a number of 53 bits that it does not
exceed. -/
theorem Closest.size_le {exact found bound : ℚ} (closest : Closest exact found) (fits : Fits bound)
    (small : |exact| ≤ |bound|) : |found| ≤ |bound| := by
  -- The bound and its negation both fit, and rounding does not pass what fits.
  have fits : Fits |bound| := by
    rcases abs_choice bound with same | same <;> rw [same]
    · exact fits
    · exact fits.neg
  obtain ⟨low, high⟩ := abs_le.mp small
  exact abs_le.mpr ⟨closest.ge_of_ge fits.neg low, closest.le_of_le fits high⟩

/-- What is rounded is a finite double if a number of 53 bits below the limit is as large. -/
theorem isFinite_of_closest {exact found bound : ℚ} (closest : Closest exact found)
    (fits : Fits bound) (within : |bound| < limit) (small : |exact| ≤ |bound|)
    (level : levelOf x = some (cut found)) : x.isFinite = true := by
  have size : |found| < limit := (closest.size_le fits small).trans_lt within
  rw [cut_of_small size] at level
  exact isFinite_iff_levelOf.mpr ⟨found, level, size⟩

/-- The negation of a double that is a number is the negated number. -/
theorem levelOf_negation {number : ℚ} (found : levelOf x = some number) :
    levelOf (-x) = some (-number) := by
  show level (Float.Model.pack x.toModel.unpack.neg).unpack = _
  -- Negation mirrors the line, its ends included.
  rcases isFinite_or_endless found with finite | ⟨rfl, endless⟩ | ⟨rfl, endless⟩
  · cases found.symm.trans (levelOf_of_isFinite finite)
    have rounded := Rounded.self ((isFinite_neg _).trans finite)
      (regular_neg (regular_unpack x.toModel)).shaped
    have small := abs_value_lt x
    rw [← abs_neg] at small
    rw [rounded.level_pack, worth_neg]
    exact congrArg some (cut_of_small small)
  · rw [endless]
    exact congrArg level (unpack_pack_infinity .negative)
  · rw [endless, neg_neg]
    exact congrArg level (unpack_pack_infinity .positive)

/-- The distance of a number from zero is not below zero. -/
theorem magnitude_nonneg {number : ℚ} (found : levelOf (Scalar.magnitude x) = some number) :
    0 ≤ number := by
  unfold Scalar.magnitude at found
  -- The magnitude of what is below zero is its negation.
  by_cases below : x < 0.0
  · obtain ⟨p, q, here, zero, less⟩ := lt_iff_levelOf.mp below
    cases levelOf_zero.symm.trans zero
    rw [if_pos below, levelOf_negation here] at found
    cases found
    exact neg_nonneg.mpr less.le
  · rw [if_neg below] at found
    exact not_lt.mp fun less => below (lt_iff_levelOf.mpr ⟨_, _, found, levelOf_zero, less⟩)

/-- A double is finite when its negation is. -/
theorem isFinite_negation (finite : x.isFinite = true) : (-x).isFinite = true := by
  have small := abs_value_lt x
  rw [← abs_neg] at small
  exact isFinite_iff_levelOf.mpr ⟨_, levelOf_negation (levelOf_of_isFinite finite), small⟩

/-- What lies between zero and a finite double is finite. -/
theorem isFinite_between (nonneg : 0.0 ≤ x) (below : x ≤ y) (finite : y.isFinite = true) :
    x.isFinite = true := by
  obtain ⟨_, p, zero, here, low⟩ := le_iff_levelOf.mp nonneg
  obtain ⟨_, q, here', there, high⟩ := le_iff_levelOf.mp below
  cases levelOf_zero.symm.trans zero
  cases here.symm.trans here'
  cases there.symm.trans (levelOf_of_isFinite finite)
  -- What lies between zero and a finite number is within the limits.
  have small : |p| < limit := by
    rw [abs_of_nonneg low]
    exact (high.trans (le_abs_self _)).trans_lt (abs_value_lt y)
  exact isFinite_iff_levelOf.mpr ⟨p, here, small⟩

/-- A finite double is so after it is divided by a number that is not below one. -/
theorem isFinite_div (finite : x.isFinite = true) {number : ℚ} (found : levelOf y = some number)
    (large : 1 ≤ number) : (x / y).isFinite = true := by
  have above : -limit < number := (neg_lt_zero.mpr limit_pos).trans (zero_lt_one.trans_le large)
  rcases isFinite_or_above found above with finite' | ⟨_, endless⟩
  · cases found.symm.trans (levelOf_of_isFinite finite')
    obtain ⟨_, closest, level⟩ := levelOf_div finite finite' (zero_lt_one.trans_le large).ne'
    refine isFinite_of_closest closest (fits_value x) (abs_value_lt x) ?_ level
    rw [abs_div, abs_of_pos (zero_lt_one.trans_le large)]
    exact div_le_self (abs_nonneg _) large
  · -- What is divided by an infinite value is zero.
    have zero : ∃ sign, div Format.binary64 x.toModel.unpack (.infinity .positive) =
        .zero sign := by
      rcases eq_of_isFinite finite with ⟨sign, same⟩ | ⟨sign, _, _, _, same⟩ <;> rw [same] <;>
        exact ⟨_, rfl⟩
    obtain ⟨sign, zero⟩ := zero
    show (x / y).toModel.unpack.isFinite = true
    rw [unpack_div, endless, zero]
    cases sign <;> rfl

end Doubles

section Literals

/-- A whole number times a power of ten is rounded to a nearest value. -/
theorem ofScientific_rounded {number : Nat} (positive : 0 < number) {power : Nat}
    (small : power ≤ 2048) :
    Rounded ((number : ℚ) * 10 ^ power)
      (UnpackedFloat.ofScientific Format.binary64 number power) := by
  have shifted : 0 < number <<< 53 := by
    rw [Nat.shiftLeft_eq]
    positivity
  have tens : 0 < 10 ^ power := Nat.pow_pos (by decide)
  -- The number has been continued by 53 bits, which are enough for any product.
  have reaches : (-53 : Int) + (0 : Int) ≤ unit (number <<< 53 * 10 ^ power) (-53 + (0 : Int)) := by
    have long : 2 ^ 53 ≤ number <<< 53 := by
      rw [Nat.shiftLeft_eq]
      exact Nat.le_mul_of_pos_left _ positive
    have bits := le_log2_mul long tens
    unfold unit
    omega
  have rounded := rounded_mul_of_reaches .positive .positive shifted tens reaches
  have value : worth (.finite .positive (number <<< 53) (-53) shifted) *
      worth (.finite .positive (10 ^ power) 0 tens) = (number : ℚ) * 10 ^ power := by
    rw [worth, worth, Nat.shiftLeft_eq, Sign.apply, Sign.apply]
    push_cast
    rw [show (2 : ℚ) ^ (-53 : ℤ) = 1 / 9007199254740992 by norm_num]
    ring
  rw [value] at rounded
  unfold UnpackedFloat.ofScientific
  rw [dif_neg positive.ne', if_neg (by norm_num; omega), if_neg (by norm_num; omega),
    if_pos (by omega)]
  exact rounded

/-- A literal that is not in the table is the closest number, without what is beyond the limits. -/
theorem levelOf_ofScientific {number power : Nat} (positive : 0 < number) (small : power ≤ 2048)
    (large : ¬ (number < 2 ^ 53 ∧ power ≤ 22)) :
    ∃ found, Closest ((number : ℚ) * 10 ^ power) found ∧
      levelOf (OfScientific.ofScientific number false power) = some (cut found) := by
  -- Beyond the range of exact powers the value is packed from the rounded one.
  have rounded := ofScientific_rounded positive small
  refine ⟨_, rounded.closest, ?_⟩
  rw [← rounded.level_pack]
  show levelOf (Float.ofScientific number false power) = _
  unfold Float.ofScientific
  rw [dif_neg large]
  rfl

end Literals

end Melody.Binary64
