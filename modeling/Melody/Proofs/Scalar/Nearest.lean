import Melody.Proofs.Scalar.Packing
import Melody.Proofs.Scalar.Rounding

/-! Sums and differences of finite doubles are doubles that are nearest to the exact results. -/

namespace Melody.Binary64

open Float.Model Float.Model.UnpackedFloat

/-- The rational number behind an unpacked value, zero for one that is not finite. -/
def worth : UnpackedFloat → ℚ
  | .finite sign significand exponent _ => (sign.apply significand : Int) * 2 ^ exponent
  | _ => 0

/-- The number behind a zero is zero, whichever its sign. -/
theorem worth_zero (sign : Sign) : worth (.zero sign) = 0 :=
  rfl

/-- A finite value is zero or has a significand. -/
theorem eq_of_isFinite {value : UnpackedFloat} (finite : value.isFinite = true) :
    (∃ sign, value = .zero sign) ∨ ∃ sign significand exponent positive,
      value = .finite sign significand exponent positive := by
  -- Infinities and what is no number are not finite.
  cases value with
  | infinity sign => simp [UnpackedFloat.isFinite] at finite
  | notANumber => simp [UnpackedFloat.isFinite] at finite
  | zero sign => exact Or.inl ⟨sign, rfl⟩
  | finite sign significand exponent positive =>
    exact Or.inr ⟨sign, significand, exponent, positive, rfl⟩

/-- A number of 53 bits with no largest exponent. -/
def Fits (number : ℚ) : Prop :=
  ∃ significand exponent : Int, |significand| < 2 ^ 53 ∧ -1074 ≤ exponent ∧
    number = significand * 2 ^ exponent

/-- A number of 53 bits that is as near to an exact one as any of them. -/
structure Closest (exact found : ℚ) : Prop where
  fits : Fits found
  nearest : ∀ other, Fits other → |found - exact| ≤ |other - exact|
  /-- Below a power of two the distance is at most one in the 54th place behind it. -/
  near : ∀ power : Int, -1021 ≤ power → |exact| < 2 ^ power → |found - exact| ≤ 2 ^ (power - 54)

/-- A finite value of 53 bits that is closest to an exact one. -/
structure Rounded (exact : ℚ) (value : UnpackedFloat) : Prop where
  finite : value.isFinite = true
  shaped : Shaped value
  closest : Closest exact (worth value)

/-- The unit below a power of two is its 53rd place. -/
theorem unit_le {significand : Nat} {exponent power : Int} (positive : 0 < significand)
    (above : -1021 ≤ power) (below : (significand : ℚ) * 2 ^ exponent < 2 ^ power) :
    unit significand exponent ≤ power - 53 := by
  -- The leading bit of the significand is at its logarithm, which the power bounds.
  have low : (2 : ℚ) ^ (significand.log2 : ℤ) ≤ significand := by
    exact_mod_cast Nat.log2_self_le positive.ne'
  have less : (2 : ℚ) ^ ((significand.log2 : ℤ) + exponent) < 2 ^ power := by
    rw [zpow_add₀ (by norm_num)]
    exact lt_of_le_of_lt (by gcongr) below
  have powers := (zpow_lt_zpow_iff_right₀ (by norm_num)).mp less
  unfold unit
  omega

/-- A sign does not change the size of a count. -/
@[simp] theorem abs_apply (sign : Sign) (count : Nat) :
    |((sign.apply count : Int) : ℚ)| = count := by
  cases sign <;> simp [Sign.apply]

/-- Zero is a number of 53 bits. -/
theorem fits_zero : Fits 0 :=
  ⟨0, 0, by norm_num, by norm_num, by norm_num⟩

/-- The values of doubles have 53 bits. -/
theorem Shaped.fits {value : UnpackedFloat} (shaped : Shaped value) : Fits (worth value) := by
  cases value with
  | finite sign significand exponent positive =>
    obtain ⟨short, low, _⟩ := shaped
    -- The sign belongs to the significand, whose size it leaves.
    refine ⟨sign.apply significand, exponent, ?_, low, rfl⟩
    cases sign
    all_goals
      simp only [Sign.apply, abs_neg, Nat.abs_cast]
      exact_mod_cast short
  | infinity sign => exact fits_zero
  | notANumber => exact fits_zero
  | zero sign => exact fits_zero

/-- A number of 53 bits is a number of units, or at most one of 53 bits. -/
theorem units_or_less {number : ℚ} (fits : Fits number) (least : Int) :
    (∃ count : Int, number = count * 2 ^ least) ∨
      (-1074 < least ∧ |number| < 2 ^ 52 * 2 ^ least) := by
  obtain ⟨significand, exponent, short, low, rfl⟩ := fits
  -- Either the exponent is at or above that of the units, or the number is too fine for them.
  by_cases coarse : least ≤ exponent
  · refine Or.inl ⟨significand * 2 ^ (exponent - least).toNat, ?_⟩
    have raise : (2 : ℚ) ^ exponent = 2 ^ (exponent - least).toNat * 2 ^ least := by
      rw [← zpow_natCast, ← zpow_add₀ (by norm_num)]
      congr 1
      omega
    rw [raise]
    push_cast
    ring
  · refine Or.inr ⟨by omega, ?_⟩
    have short : |(significand : ℚ)| < 2 ^ 53 := by exact_mod_cast short
    have half : (2 : ℚ) ^ exponent ≤ 2 ^ (least - 1) :=
      zpow_le_zpow_right₀ (by norm_num) (by omega)
    calc
      |(significand : ℚ) * 2 ^ exponent| = |(significand : ℚ)| * 2 ^ exponent := by
        rw [abs_mul, abs_of_pos (zpow_pos (by norm_num) exponent : (0 : ℚ) < 2 ^ exponent)]
      _ ≤ |(significand : ℚ)| * 2 ^ (least - 1) := by gcongr
      _ < 2 ^ 53 * 2 ^ (least - 1) := by gcongr
      _ = 2 ^ 52 * 2 ^ least := by
        rw [zpow_sub_one₀ (by norm_num)]
        ring

/-- No whole number is nearer than one that is at most half a unit away. -/
theorem abs_sub_le_of_half {count other : Int} {exact : ℚ} (half : |(count : ℚ) - exact| ≤ 1 / 2) :
    |(count : ℚ) - exact| ≤ |(other : ℚ) - exact| := by
  -- Another whole number is one away at least, and the exact one is in between.
  by_cases same : count = other
  · rw [same]
  · have apart : (1 : ℚ) ≤ |(count : ℚ) - other| := by
      exact_mod_cast Int.one_le_abs (sub_ne_zero.mpr same)
    have between : |(count : ℚ) - other| ≤ |(count : ℚ) - exact| + |(other : ℚ) - exact| := by
      rw [abs_sub_comm (other : ℚ) exact]
      exact abs_sub_le _ _ _
    linarith

/-- A number of units that is at most half a one away is as near as any number of 53 bits. -/
theorem nearest_of_half {count least : Int} {exact : ℚ}
    (long : -1074 < least → 2 ^ 52 * 2 ^ least ≤ |exact|)
    (half : |(count : ℚ) * 2 ^ least - exact| ≤ 2 ^ least / 2) {other : ℚ} (fits : Fits other) :
    |(count : ℚ) * 2 ^ least - exact| ≤ |other - exact| := by
  have size : (0 : ℚ) < 2 ^ least := by positivity
  -- Distances are compared in units.
  have units : ∀ count : Int,
      |(count : ℚ) * 2 ^ least - exact| = |(count : ℚ) - exact / 2 ^ least| * 2 ^ least := by
    intro count
    rw [← abs_of_pos size, ← abs_mul, abs_of_pos size, sub_mul, div_mul_cancel₀ _ size.ne']
  have within : |(count : ℚ) - exact / 2 ^ least| ≤ 1 / 2 := by
    rw [units] at half
    exact le_of_mul_le_mul_right (by linarith) size
  have closest : ∀ other : Int,
      |(count : ℚ) * 2 ^ least - exact| ≤ |(other : ℚ) * 2 ^ least - exact| := by
    intro other
    rw [units, units]
    exact mul_le_mul_of_nonneg_right (abs_sub_le_of_half within) size.le
  rcases units_or_less fits least with ⟨whole, same⟩ | ⟨more, small⟩
  · rw [same]
    exact closest whole
  · -- A finer value is farther away than the least number of units of 53 bits.
    have far := long more
    obtain ⟨edge, distance⟩ : ∃ edge : Int,
        |(edge : ℚ) * 2 ^ least - exact| = |exact| - 2 ^ 52 * 2 ^ least := by
      rcases abs_cases exact with ⟨same, _⟩ | ⟨same, _⟩
      · refine ⟨2 ^ 52, ?_⟩
        rw [same] at far ⊢
        rw [abs_sub_comm, Int.cast_pow, Int.cast_ofNat, abs_of_nonneg (sub_nonneg.mpr far)]
      · refine ⟨-2 ^ 52, ?_⟩
        rw [same] at far ⊢
        rw [Int.cast_neg, Int.cast_pow, Int.cast_ofNat, abs_of_nonneg (by linarith)]
        ring
    calc
      |(count : ℚ) * 2 ^ least - exact| ≤ |(edge : ℚ) * 2 ^ least - exact| := closest edge
      _ = |exact| - 2 ^ 52 * 2 ^ least := distance
      _ ≤ |exact| - |other| := by linarith
      _ ≤ |other - exact| := by
        rw [abs_sub_comm]
        exact abs_sub_abs_le_abs_sub _ _

/-- A count that is carried into the next place stands for the same number. -/
theorem worth_carried (sign : Sign) {count : Nat} (few : count ≤ 2 ^ 53) (exponent : Int) :
    worth (carried sign count exponent) = (sign.apply count : Int) * 2 ^ exponent := by
  unfold carried
  -- Only a full count is changed: it is halved, and its unit doubled.
  by_cases none : count = 0
  · rw [dif_pos none, none]
    cases sign <;> simp [worth, Sign.apply]
  · rw [dif_neg none]
    rcases few.lt_or_eq with fits | full
    · rw [if_pos fits, worth]
    · subst full
      rw [if_neg (lt_irrefl _), worth, zpow_add_one₀ (by norm_num)]
      cases sign <;> norm_num [Sign.apply] <;> ring

/-- What is carried has the shape of a double if the count does, or is of the least units. -/
theorem shaped_carried (sign : Sign) {count : Nat} {exponent : Int} (low : -1074 ≤ exponent)
    (long : exponent = -1074 ∨ 2 ^ 52 ≤ count) : Shaped (carried sign count exponent) := by
  unfold carried
  -- A full count leaves one of 53 bits, and any other is as long as it was.
  split
  · trivial
  · split
    · exact ⟨‹_›, low, long⟩
    · exact ⟨by norm_num, by omega, Or.inr le_rfl⟩

/-- What is carried is finite. -/
theorem isFinite_carried (sign : Sign) (count : Nat) (exponent : Int) :
    (carried sign count exponent).isFinite = true := by
  unfold carried
  split
  · rfl
  · split <;> rfl

/-- A sign is a factor of one or minus one. -/
theorem apply_eq (sign : Sign) (count : Int) : sign.apply count = sign.apply 1 * count := by
  cases sign <;> simp [Sign.apply]

/-- Rounding gives a nearest number of 53 bits, which may be too large for doubles. -/
theorem roundWithAccuracy_rounded (sign : Sign) {significand : Nat} {exponent : Int}
    {accuracy : Accuracy} {exact : ℚ}
    (describes : Describes (.ofMantissaAndAccuracy significand accuracy) exact)
    (reaches : exponent ≤ unit significand exponent) :
    Rounded ((sign.apply 1 : Int) * (exact * 2 ^ exponent))
      (roundWithAccuracy Format.binary64 sign significand exponent accuracy) := by
  obtain ⟨count, few, rounds, near⟩ := roundWithAccuracy_eq_carried sign describes reaches
  obtain ⟨whole, _⟩ := describes.bounds
  rw [mantissa_ofMantissaAndAccuracy] at whole
  have nonneg : 0 ≤ exact := (Nat.cast_nonneg _).trans whole
  have low : -1074 ≤ unit significand exponent := le_max_right _ _
  -- Without a significand the unit is the least one.
  have positive : unit significand exponent ≠ -1074 → 0 < significand := by
    rw [Nat.pos_iff_ne_zero]
    rintro more rfl
    rw [unit, Nat.log2_zero] at reaches more
    omega
  have limits : ∀ power : Int, -1021 ≤ power → exact * 2 ^ exponent < 2 ^ power →
      unit significand exponent ≤ power - 53 := by
    intro power above below
    by_cases least : unit significand exponent = -1074
    · omega
    · refine unit_le (positive least) above (lt_of_le_of_lt ?_ below)
      gcongr
  have long : unit significand exponent ≠ -1074 →
      2 ^ 52 ≤ exact * 2 ^ (exponent - unit significand exponent) := by
    intro more
    refine (le_scaled (positive more) more).trans ?_
    gcongr
  generalize unit significand exponent = least at *
  have size : (0 : ℚ) < 2 ^ least := by positivity
  have scale : exact * 2 ^ exponent = exact * 2 ^ (exponent - least) * 2 ^ least := by
    rw [mul_assoc, ← zpow_add₀ (by norm_num), sub_add_cancel]
  have unsigned : |((sign.apply 1 : Int) : ℚ)| = 1 := by
    cases sign <;> simp [Sign.apply]
  have extent : |((sign.apply 1 : Int) : ℚ) * (exact * 2 ^ exponent)| = exact * 2 ^ exponent := by
    rw [abs_mul, unsigned, one_mul, abs_of_nonneg (by positivity)]
  -- The sign does not matter to the distance.
  have half : |((sign.apply count : Int) : ℚ) * 2 ^ least -
      (sign.apply 1 : Int) * (exact * 2 ^ exponent)| ≤ 2 ^ least / 2 := by
    rw [apply_eq, Int.cast_mul, mul_assoc, ← mul_sub, abs_mul, unsigned, one_mul, scale, ← sub_mul,
      abs_mul, abs_of_pos size, Int.cast_natCast]
    calc
      |(count : ℚ) - exact * 2 ^ (exponent - least)| * 2 ^ least ≤ 1 / 2 * 2 ^ least := by
        gcongr
      _ = 2 ^ least / 2 := by ring
  rw [rounds]
  have shaped : Shaped (carried sign count least) := by
    refine shaped_carried sign low ((eq_or_ne least (-1074)).imp_right fun more => ?_)
    have full := long more
    have below := (abs_le.mp near).1
    have bound : ((2 ^ 52 : ℕ) : ℚ) < ((count + 1 : ℕ) : ℚ) := by
      push_cast
      linarith
    exact Nat.le_of_lt_succ (Nat.cast_lt.mp bound)
  refine ⟨isFinite_carried .., shaped, shaped.fits, ?_, ?_⟩
  · intro other fits
    rw [worth_carried sign few]
    refine nearest_of_half (fun more => ?_) half fits
    rw [extent, scale]
    exact mul_le_mul_of_nonneg_right (long more.ne') size.le
  · intro power above below
    rw [extent] at below
    have units := limits power above below
    rw [worth_carried sign few]
    calc
      _ ≤ (2 : ℚ) ^ least / 2 := half
      _ = 2 ^ (least - 1) := by rw [zpow_sub_one₀ (by norm_num)]; ring
      _ ≤ 2 ^ (power - 54) := zpow_le_zpow_right₀ (by norm_num) (by omega)

/-- A significand is rounded to a nearest value, wherever its last bit is. -/
theorem round_rounded (sign : Sign) {significand : Nat} {exponent : Int}
    (positive : 0 < significand) :
    Rounded ((sign.apply significand : Int) * 2 ^ exponent)
      (UnpackedFloat.round Format.binary64 sign significand exponent) := by
  obtain ⟨more, same, reaches, rounds⟩ := exists_round_eq sign positive exponent
  have rounded := roundWithAccuracy_rounded sign (describes_exact (significand <<< more))
    (reaches.trans same.ge)
  -- Shifting a significand and lowering its exponent changes nothing.
  have value : ((significand <<< more : ℕ) : ℚ) * 2 ^ (exponent - more) =
      significand * 2 ^ exponent := by
    rw [Nat.shiftLeft_eq, Nat.cast_mul, Nat.cast_pow, Nat.cast_two, mul_assoc, ← zpow_natCast,
      ← zpow_add₀ (by norm_num), add_sub_cancel]
  rwa [value, ← rounds, ← mul_assoc, ← Int.cast_natCast, ← Int.cast_mul, ← apply_eq] at rounded

/-- A number of 53 bits is the closest one to itself. -/
theorem Closest.self {number : ℚ} (fits : Fits number) : Closest number number where
  fits := fits
  -- Nothing is closer to a number than the number itself.
  nearest := fun other _ => by
    rw [sub_self, abs_zero]
    exact abs_nonneg _
  near := fun power _ _ => by
    rw [sub_self, abs_zero]
    positivity

/-- A value of 53 bits is the nearest one to itself. -/
theorem Rounded.self {value : UnpackedFloat} (finite : value.isFinite = true)
    (shaped : Shaped value) : Rounded (worth value) value :=
  ⟨finite, shaped, .self shaped.fits⟩

/-- A zero is rounded from zero. -/
theorem rounded_zero (sign : Sign) : Rounded 0 (.zero sign) :=
  @Rounded.self (.zero sign) rfl trivial

/-- A significand with a sign is rounded to a nearest value. -/
theorem normalize_rounded (significand exponent : Int) (zero : Sign) :
    Rounded (significand * 2 ^ exponent)
      (normalize Format.binary64 significand exponent zero) := by
  by_cases none : significand = 0
  · rw [none, Int.cast_zero, zero_mul]
    exact rounded_zero zero
  · -- What is rounded is the magnitude, with the sign that is left.
    obtain ⟨sign, signed, rounds⟩ : ∃ sign : Sign, sign.apply significand.natAbs = significand ∧
        normalize Format.binary64 significand exponent zero =
          UnpackedFloat.round Format.binary64 sign significand.natAbs exponent := by
      unfold UnpackedFloat.normalize
      rcases Int.lt_or_gt_of_ne none with below | above
      · refine ⟨.negative, by simp only [Sign.apply]; omega, ?_⟩
        rw [Int.compare_eq_lt.mpr below]
        simp only [show (-significand).toNat = significand.natAbs by omega]
      · refine ⟨.positive, by simp only [Sign.apply]; omega, ?_⟩
        rw [Int.compare_eq_gt.mpr above]
        simp only [show significand.toNat = significand.natAbs by omega]
    have rounded := @round_rounded sign _ exponent (Int.natAbs_pos.mpr none)
    rwa [signed, ← rounds] at rounded

/-- The opposite sign gives the negated count. -/
theorem apply_neg (sign : Sign) (count : Int) : (-sign).apply count = -sign.apply count := by
  cases sign with
  | negative => exact (Int.neg_neg count).symm
  | positive => rfl

/-- Negating a value negates the number behind it. -/
theorem worth_neg (value : UnpackedFloat) : worth value.neg = -worth value := by
  cases value with
  | finite sign significand exponent positive =>
    rw [UnpackedFloat.neg, worth, worth, apply_neg]
    push_cast
    ring
  -- Values that are not finite stand for zero, with either sign.
  | infinity sign => simp [worth, UnpackedFloat.neg]
  | notANumber => simp [worth, UnpackedFloat.neg]
  | zero sign => simp [worth, UnpackedFloat.neg]

/-- Negating a value leaves it finite or not. -/
theorem isFinite_neg (value : UnpackedFloat) : value.neg.isFinite = value.isFinite := by
  cases value <;> rfl

/-- Negating a value keeps its shape. -/
theorem regular_neg {value : UnpackedFloat} (regular : Regular value) : Regular value.neg := by
  cases value <;> exact regular

/-- Lowering an exponent does not change the value. -/
theorem decreaseExponent_worth {significand : Nat} {exponent least : Int}
    (low : least ≤ exponent) (sign : Sign) :
    ((sign.apply (decreaseExponent significand exponent least).1 : Int) : ℚ) * 2 ^ least =
      (sign.apply significand : Int) * 2 ^ exponent := by
  -- Lowering the exponent by some places shifts the significand up by as many.
  have raise : (2 : ℚ) ^ exponent = 2 ^ (exponent - least).toNat * 2 ^ least := by
    rw [← zpow_natCast, ← zpow_add₀ (by norm_num)]
    congr 1
    omega
  rw [decreaseExponent, raise, Nat.shiftLeft_eq]
  cases sign with
  | negative =>
    simp only [Sign.apply]
    push_cast
    ring
  | positive =>
    simp only [Sign.apply]
    push_cast
    ring

/-- The sum of two values is rounded to a nearest one. -/
theorem rounded_add {one other : UnpackedFloat} (finite : one.isFinite = true)
    (finite' : other.isFinite = true) (regular : Regular one) (regular' : Regular other) :
    Rounded (worth one + worth other) (add Format.binary64 one other) := by
  -- What is added to zero is kept, and only the sign of a zero may change.
  rcases eq_of_isFinite finite with ⟨sign, rfl⟩ | ⟨sign, significand, exponent, positive, rfl⟩
  · rcases eq_of_isFinite finite' with ⟨sign', rfl⟩ | ⟨sign', significand, exponent, positive, rfl⟩
    · rw [worth_zero, worth_zero, add_zero]
      cases sign <;> cases sign' <;> exact rounded_zero _
    · rw [worth_zero, zero_add]
      exact .self rfl regular'.shaped
  · rcases eq_of_isFinite finite' with
      ⟨sign', rfl⟩ | ⟨sign', significand', exponent', positive', rfl⟩
    · rw [worth_zero, add_zero]
      exact .self rfl regular.shaped
    · -- Both significands are taken at the smaller exponent.
      have total : worth (.finite sign significand exponent positive) +
          worth (.finite sign' significand' exponent' positive') =
          ((sign.apply (decreaseExponent significand exponent (min exponent exponent')).1 +
            sign'.apply (decreaseExponent significand' exponent' (min exponent exponent')).1 :
              Int) : ℚ) * 2 ^ min exponent exponent' := by
        rw [Int.cast_add, add_mul, decreaseExponent_worth (min_le_left _ _),
          decreaseExponent_worth (min_le_right _ _), worth, worth]
      rw [total]
      exact normalize_rounded _ _ .positive

/-- To subtract a value is to add its negation. -/
theorem sub_eq_add (one other : UnpackedFloat) :
    sub Format.binary64 one other = add Format.binary64 one other.neg := by
  -- Two finite values are subtracted as significands; all other cases go by kind.
  cases one with
  | infinity sign => cases other <;> rfl
  | notANumber => cases other <;> rfl
  | zero sign => cases other <;> rfl
  | finite sign significand exponent positive =>
    cases other with
    | infinity sign => rfl
    | notANumber => rfl
    | zero sign => rfl
    | finite sign' significand' exponent' positive' =>
      simp only [UnpackedFloat.sub, UnpackedFloat.neg, UnpackedFloat.add, apply_neg,
        Int.sub_eq_add_neg]

/-- The rational number behind a double, zero for one that is not finite. -/
def value (x : Float) : ℚ :=
  worth x.toModel.unpack

/-- A value of 53 bits is one that a double can have, unless it is too large. -/
theorem Shaped.regular {value : UnpackedFloat} (shaped : Shaped value)
    (small : |worth value| < 2 ^ (1024 : ℤ)) : Regular value := by
  cases value with
  | infinity sign => trivial
  | notANumber => trivial
  | zero sign => trivial
  | finite sign significand exponent positive =>
    obtain ⟨short, low, full⟩ := shaped
    refine ⟨short, low, ?_, full⟩
    by_contra high
    -- With all of its bits a significand reaches the limit from the next exponent on.
    have long : (2 : ℚ) ^ (52 : ℤ) ≤ significand := by
      exact_mod_cast full.resolve_left (by omega)
    have limit : (2 : ℚ) ^ (1024 : ℤ) ≤ significand * 2 ^ exponent := by
      calc
        (2 : ℚ) ^ (1024 : ℤ) = 2 ^ (52 : ℤ) * 2 ^ (972 : ℤ) := zpow_add₀ (by norm_num) 52 972
        _ ≤ significand * 2 ^ exponent := by
          gcongr
          · norm_num
          · omega
    rw [worth, abs_mul, abs_apply, abs_of_pos (by positivity)] at small
    exact absurd limit (not_le.mpr small)

/-- What is rounded from below half the limit is below the limit. -/
theorem Rounded.small {exact : ℚ} {rounded : UnpackedFloat} (near : Rounded exact rounded)
    (small : |exact| < 2 ^ (1023 : ℤ)) : |worth rounded| < 2 ^ (1024 : ℤ) := by
  -- What is rounded moves by far less than its own size.
  have distance := near.closest.near 1023 (by norm_num) small
  have apart := abs_sub_abs_le_abs_sub (worth rounded) exact
  have less : (2 : ℚ) ^ (1023 - 54 : ℤ) < 2 ^ (1023 : ℤ) :=
    zpow_lt_zpow_right₀ (by norm_num) (by norm_num)
  rw [show (1024 : ℤ) = 1023 + 1 from rfl, zpow_add_one₀ (by norm_num)]
  generalize (2 : ℚ) ^ (1023 - 54 : ℤ) = rest at distance less
  generalize (2 : ℚ) ^ (1023 : ℤ) = limit at small less ⊢
  linarith

/-- A nearest value that is not too large is what its bits hold. -/
theorem Rounded.unpack_pack {exact : ℚ} {rounded : UnpackedFloat} (near : Rounded exact rounded)
    (small : |worth rounded| < 2 ^ (1024 : ℤ)) : (Float.Model.pack rounded).unpack = rounded := by
  have regular := near.shaped.regular small
  -- A value of this shape is unpacked as it was packed, and so are the two zeros.
  rcases eq_of_isFinite near.finite with ⟨sign, rfl⟩ | ⟨sign, significand, exponent, positive, rfl⟩
  · cases sign <;> rfl
  · exact Binary64.unpack_pack regular

/-- A double that is as near to an exact value as any finite double. -/
structure Nearest (exact : ℚ) (x : Float) : Prop where
  finite : x.isFinite = true
  nearest : ∀ y : Float, y.isFinite = true → |value x - exact| ≤ |value y - exact|
  /-- Below a power of two the distance is at most one in the 54th place behind it. -/
  near : ∀ power : Int, -1021 ≤ power → |exact| < 2 ^ power → |value x - exact| ≤ 2 ^ (power - 54)

/-- The number behind a double has 53 bits. -/
theorem fits_value (x : Float) : Fits (value x) :=
  (regular_unpack x.toModel).shaped.fits

/-- A rounded value that is not too large is packed into a nearest double. -/
theorem Rounded.nearest_pack {exact : ℚ} {rounded : UnpackedFloat} (near : Rounded exact rounded)
    (small : |exact| < 2 ^ (1023 : ℤ)) : Nearest exact (.ofModel (.pack rounded)) := by
  -- Packing loses nothing here, so the double holds what was rounded.
  have bits := near.unpack_pack (near.small small)
  have held : value (.ofModel (.pack rounded)) = worth rounded := congrArg worth bits
  constructor
  · show (Float.Model.pack rounded).unpack.isFinite = true
    rw [bits]
    exact near.finite
  · intro y _
    rw [held]
    exact near.closest.nearest _ (fits_value y)
  · rw [held]
    exact near.closest.near

section Sums

variable {x y : Float}

/-- A sum of finite doubles that does not overflow is a double nearest to the exact one. -/
theorem nearest_add (left : x.isFinite = true) (right : y.isFinite = true)
    (small : |value x + value y| < 2 ^ (1023 : ℤ)) : Nearest (value x + value y) (x + y) :=
  (rounded_add left right (regular_unpack _) (regular_unpack _)).nearest_pack small

/-- A difference of finite doubles that does not overflow is a double nearest to the exact one. -/
theorem nearest_sub (left : x.isFinite = true) (right : y.isFinite = true)
    (small : |value x - value y| < 2 ^ (1023 : ℤ)) : Nearest (value x - value y) (x - y) := by
  have negated : value x - value y = worth x.toModel.unpack + worth y.toModel.unpack.neg := by
    rw [worth_neg, ← sub_eq_add_neg, value, value]
  -- Taking away is adding the negated value, which negates its number.
  have packed : x - y = .ofModel (.pack (UnpackedFloat.add Format.binary64 x.toModel.unpack
      y.toModel.unpack.neg)) := by
    rw [← sub_eq_add]
    rfl
  rw [packed, negated]
  rw [negated] at small
  exact (rounded_add left ((isFinite_neg _).trans right) (regular_unpack _)
    (regular_neg (regular_unpack _))).nearest_pack small

end Sums

section Comparison

/-- A larger exponent outweighs every significand. -/
theorem magnitude_lt {significand significand' : Nat} {exponent exponent' : Int}
    (fits : significand < 2 ^ 53) (low : -1074 ≤ exponent)
    (full : exponent' = -1074 ∨ 2 ^ 52 ≤ significand')
    (before : exponent < exponent' ∨ exponent = exponent' ∧ significand < significand') :
    (significand : ℚ) * 2 ^ exponent < significand' * 2 ^ exponent' := by
  -- A larger exponent outweighs any significand of 53 bits, if the other one is full.
  rcases before with lower | ⟨rfl, less⟩
  · have long : (2 : ℚ) ^ 52 ≤ significand' := by
      exact_mod_cast full.resolve_left (by omega)
    have short : (significand : ℚ) < 2 ^ 53 := by exact_mod_cast fits
    calc
      (significand : ℚ) * 2 ^ exponent < 2 ^ 53 * 2 ^ exponent := by gcongr
      _ = 2 ^ 52 * 2 ^ (exponent + 1) := by
        rw [zpow_add_one₀ (by norm_num)]
        ring
      _ ≤ significand' * 2 ^ exponent' := by
        gcongr
        · norm_num
        · omega
  · have less : (significand : ℚ) < significand' := by exact_mod_cast less
    gcongr

/-- With a positive sign a value lies above zero. -/
theorem worth_positive {significand : Nat} (exponent : Int) (positive : 0 < significand) :
    0 < worth (.finite .positive significand exponent positive) := by
  have size : (0 : ℚ) < significand := by exact_mod_cast positive
  show 0 < ((significand : Int) : ℚ) * 2 ^ exponent
  positivity

/-- The two signs of a significand give opposite numbers. -/
theorem worth_negative {significand : Nat} (exponent : Int) (positive : 0 < significand) :
    worth (.finite .negative significand exponent positive) =
      -worth (.finite .positive significand exponent positive) :=
  worth_neg (.finite .positive significand exponent positive)

/-- A value above zero has a positive sign. -/
theorem eq_of_worth_pos {value : UnpackedFloat} (above : 0 < worth value) :
    ∃ significand exponent positive, value = .finite .positive significand exponent positive := by
  -- All other kinds of value are zero or below.
  cases value with
  | infinity sign => simp [worth] at above
  | notANumber => simp [worth] at above
  | zero sign => simp [worth] at above
  | finite sign significand exponent positive =>
    cases sign with
    | negative =>
      rw [worth_negative] at above
      exact absurd (worth_positive exponent positive) (neg_pos.mp above).not_gt
    | positive => exact ⟨significand, exponent, positive, rfl⟩

/-- Values farther along the line of numbers are larger. -/
theorem worth_lt_of_place {one other : UnpackedFloat} {left right : Int ×ₗ Int ×ₗ Int}
    (regular : Regular one) (regular' : Regular other) (finite : one.isFinite = true)
    (finite' : other.isFinite = true) (here : place? one = some left)
    (there : place? other = some right) (before : left < right) : worth one < worth other := by
  rcases eq_of_isFinite finite with ⟨sign, rfl⟩ | ⟨sign, significand, exponent, positive, rfl⟩
  · cases here
    rcases eq_of_isFinite finite' with ⟨sign', rfl⟩ | ⟨sign', significand, exponent, positive, rfl⟩
    · cases there
      exact absurd before (lt_irrefl _)
    · cases sign' with
      | negative =>
        cases there
        simp [Prod.Lex.toLex_lt_toLex] at before
      | positive => exact worth_positive exponent positive
  · rcases eq_of_isFinite finite' with
      ⟨sign', rfl⟩ | ⟨sign', significand', exponent', positive', rfl⟩
    · cases sign with
      | negative =>
        rw [worth_negative]
        exact neg_neg_of_pos (worth_positive exponent positive)
      | positive =>
        cases here
        cases there
        simp [Prod.Lex.toLex_lt_toLex] at before
    · obtain ⟨fits, low, _, full⟩ := regular
      obtain ⟨fits', low', _, full'⟩ := regular'
      have size := worth_positive exponent positive
      have size' := worth_positive exponent' positive'
      cases sign with
      | negative =>
        rw [worth_negative]
        cases sign' with
        | negative =>
          -- Below zero the larger magnitude comes first.
          cases here
          cases there
          simp only [Prod.Lex.toLex_lt_toLex, lt_irrefl, false_or, true_and] at before
          rw [worth_negative, neg_lt_neg_iff]
          exact magnitude_lt fits' low' full (by omega)
        | positive => linarith
      | positive =>
        cases here
        cases sign' with
        | negative =>
          cases there
          simp [Prod.Lex.toLex_lt_toLex] at before
        | positive =>
          cases there
          simp only [Prod.Lex.toLex_lt_toLex, lt_irrefl, false_or, true_and] at before
          exact magnitude_lt fits low full' (by omega)

/-- The number at a place on the line, zero for the ends of the line. -/
def numberAt (place : Int ×ₗ Int ×ₗ Int) : ℚ :=
  let (kind, rest) := ofLex place
  let (exponent, significand) := ofLex rest
  if kind = 1 then significand * 2 ^ exponent
  else if kind = -1 then significand * 2 ^ (-exponent)
  else 0

/-- The number behind a value is the one at its place. -/
theorem worth_eq_numberAt {value : UnpackedFloat} {left : Int ×ₗ Int ×ₗ Int}
    (here : place? value = some left) : worth value = numberAt left := by
  -- Each kind of value has its number in its place.
  cases value with
  | notANumber => cases here
  | zero sign =>
    cases here
    simp [worth, numberAt]
  | infinity sign =>
    cases sign <;> cases here <;> simp [worth, numberAt]
  | finite sign significand exponent positive =>
    cases sign <;> cases here <;> simp [worth, numberAt, Sign.apply]

variable {x y : Float}

/-- Finite doubles have a place among the numbers. -/
theorem place_of_isFinite (finite : x.isFinite = true) : ∃ left, place x = some left := by
  obtain ⟨kind, rest, placed, _⟩ := place_of_finite finite
  exact ⟨_, placed⟩

/-- Finite doubles compare as the numbers behind them. -/
theorem lt_iff_value (left : x.isFinite = true) (right : y.isFinite = true) :
    x < y ↔ value x < value y := by
  obtain ⟨one, here⟩ := place_of_isFinite left
  obtain ⟨other, there⟩ := place_of_isFinite right
  -- Places grow with numbers, and equal places have equal numbers.
  have ahead : ∀ {x y : Float} {one other}, x.isFinite = true → y.isFinite = true →
      place x = some one → place y = some other → one < other → value x < value y :=
    fun left right => worth_lt_of_place (regular_unpack _) (regular_unpack _) left right
  rw [lt_iff]
  constructor
  · rintro ⟨one, other, here, there, before⟩
    exact ahead left right here there before
  · intro less
    refine ⟨one, other, here, there, ?_⟩
    rcases lt_trichotomy one other with before | rfl | after
    · exact before
    · have same : value x = value y :=
        (worth_eq_numberAt here).trans (worth_eq_numberAt there).symm
      exact absurd less same.not_lt
    · exact absurd less (ahead right left there here after).not_gt

/-- Finite doubles are in line as the numbers behind them. -/
theorem le_iff_value (left : x.isFinite = true) (right : y.isFinite = true) :
    x ≤ y ↔ value x ≤ value y := by
  obtain ⟨one, here⟩ := place_of_isFinite left
  obtain ⟨other, there⟩ := place_of_isFinite right
  rw [← not_lt, ← lt_iff_value right left, le_iff, lt_iff]
  simp [here, there]

/-- What exceeds a finite double exceeds every finite one that is no larger. -/
theorem lt_of_value_le {limit : Float} (left : x.isFinite = true) (right : y.isFinite = true)
    (below : value x ≤ value y) (exceeds : y < limit) : x < limit := by
  obtain ⟨one, other, here, there, first⟩ := le_iff.mp ((le_iff_value left right).mpr below)
  obtain ⟨again, last, same, end_, second⟩ := lt_iff.mp exceeds
  cases there.symm.trans same
  exact lt_iff.mpr ⟨one, last, here, end_, first.trans_lt second⟩

/-- The number behind zero is zero. -/
@[simp] theorem value_zero : value 0.0 = 0 := by
  rw [value, worth_eq_numberAt place_zero]
  simp [numberAt]

/-- Zero is finite. -/
theorem isFinite_zero : (0.0 : Float).isFinite = true := by
  decide +kernel

/-- A finite double is at least zero when its number is. -/
theorem nonneg_iff_value (finite : x.isFinite = true) : 0.0 ≤ x ↔ 0 ≤ value x := by
  rw [le_iff_value isFinite_zero finite, value_zero]

/-- A finite double is above zero when its number is. -/
theorem pos_iff_value (finite : x.isFinite = true) : 0.0 < x ↔ 0 < value x := by
  rw [lt_iff_value isFinite_zero finite, value_zero]

/-- The difference of equal numbers is zero. -/
theorem value_sub_of_eq (left : x.isFinite = true) (right : y.isFinite = true)
    (same : value x = value y) : (x - y).isFinite = true ∧ value (x - y) = 0 := by
  have none : Nearest (value x - value y) (x - y) := nearest_sub left right (by simp [same])
  have zero := none.nearest 0.0 (by decide +kernel)
  rw [value_zero, same, sub_self, sub_zero, sub_zero, abs_zero] at zero
  exact ⟨none.finite, abs_nonpos_iff.mp zero⟩

/-- Finite doubles with the same number behind them have the same place. -/
theorem place_eq_of_value_eq (left : x.isFinite = true) (right : y.isFinite = true)
    (same : value x = value y) : place x = place y := by
  obtain ⟨one, other, here, there, before⟩ := le_iff.mp ((le_iff_value left right).mpr same.le)
  obtain ⟨next, last, again, back, after⟩ := le_iff.mp ((le_iff_value right left).mpr same.ge)
  cases here.symm.trans back
  cases there.symm.trans again
  rw [here, there, le_antisymm before after]

/-- Equal numbers above zero are held in one way only. -/
theorem unpack_eq_of_value_eq (left : x.isFinite = true) (right : y.isFinite = true)
    (positive : 0 < value x) (same : value x = value y) :
    x.toModel.unpack = y.toModel.unpack := by
  have placed := place_eq_of_value_eq left right same
  -- Above zero the place shows the exponent and the significand.
  obtain ⟨significand, exponent, some, here⟩ := eq_of_worth_pos positive
  obtain ⟨significand', exponent', some', there⟩ := eq_of_worth_pos (same ▸ positive : 0 < value y)
  rw [place, place, here, there] at placed
  obtain ⟨rfl, counts⟩ : exponent = exponent' ∧ significand = significand' := by
    simpa [place?] using placed
  cases counts
  rw [here, there]

/-- It does not matter which of two equal numbers above zero another one is taken from. -/
theorem sub_eq_of_value_eq (left : x.isFinite = true) (right : y.isFinite = true)
    (positive : 0 < value x) (same : value x = value y) (z : Float) : x - z = y - z := by
  show Float.ofModel (.pack (UnpackedFloat.sub Format.binary64 x.toModel.unpack z.toModel.unpack)) =
    .ofModel (.pack (UnpackedFloat.sub Format.binary64 y.toModel.unpack z.toModel.unpack))
  rw [unpack_eq_of_value_eq left right positive same]

/-- Values of 53 bits differ by a unit at least. -/
theorem add_unit_le (least : Int) (long : 2 ^ 52 * 2 ^ least ≤ value x)
    (less : value x < value y) : value x + 2 ^ least ≤ value y := by
  have size : (0 : ℚ) < 2 ^ least := by positivity
  -- Both are whole numbers of this unit, which differ by one or more.
  have whole : ∀ x : Float, 2 ^ 52 * 2 ^ least ≤ value x → ∃ count : Int,
      value x = count * 2 ^ least := by
    intro x long
    refine (units_or_less (fits_value x) least).resolve_right fun ⟨_, small⟩ => ?_
    exact absurd (long.trans (le_abs_self _)) (not_le.mpr small)
  obtain ⟨one, here⟩ := whole x long
  obtain ⟨other, there⟩ := whole y (long.trans less.le)
  rw [here, there] at less ⊢
  have counts : one < other := by exact_mod_cast lt_of_mul_lt_mul_right less size.le
  have next : ((one + 1 : ℤ) : ℚ) ≤ other := by exact_mod_cast counts
  calc
    (one : ℚ) * 2 ^ least + 2 ^ least = (one + 1 : ℤ) * 2 ^ least := by push_cast; ring
    _ ≤ other * 2 ^ least := by gcongr

end Comparison

end Melody.Binary64
