import Melody.Proofs.Json.Guarantee
import Melody.Proofs.Scalar.Scaling

/-! Numbers that are read from a JSON text as doubles are finite. -/

namespace Melody.Json

open Binary64 Float.Model Float.Model.UnpackedFloat

section Scaling

/-- One is a number of 53 bits. -/
theorem fits_one : Fits 1 :=
  ⟨1, 0, by norm_num, by norm_num, by norm_num⟩

/-- One is below the limit. -/
theorem one_lt_limit : 1 < limit := by
  rw [limit_eq]
  exact one_lt_zpow₀ (by norm_num) (by norm_num)

/-- The powers of ten that doubles are divided by are not below one. -/
theorem one_le_powerOfTen {power : Nat} (small : power ≤ 308) :
    ∃ number, levelOf (powerOfTen power) = some number ∧ 1 ≤ number := by
  by_cases listed : power ≤ 22
  · have table : ∀ power < 23, (1.0 : Float) ≤ powerOfTen power := by
      decide +kernel
    obtain ⟨one, number, here, there, above⟩ :=
      le_iff_levelOf.mp (table power (Nat.lt_succ_of_le listed))
    have placed : place 1.0 = some (toLex (1, toLex (-52, 2 ^ 52))) := by
      decide +kernel
    rw [levelOf_of_place placed] at here
    cases here
    refine ⟨number, there, le_trans ?_ above⟩
    norm_num [levelAt, numberAt]
  · -- Larger powers are rounded, but not below one.
    obtain ⟨found, closest, level⟩ :=
      @levelOf_ofScientific 1 power Nat.one_pos (by omega) fun small => listed small.2
    refine ⟨cut found, level, ?_⟩
    have tens : (1 : ℚ) ≤ (1 : ℕ) * 10 ^ power := by
      rw [Nat.cast_one, one_mul]
      exact one_le_pow₀ (by norm_num)
    have above := cut_mono (closest.ge_of_ge fits_one tens)
    rwa [cut_of_small (by rw [abs_one]; exact one_lt_limit)] at above

/-- A double stays finite when it is divided by a power of ten. -/
theorem isFinite_div_powerOfTen {x : Float} (finite : x.isFinite = true) {power : Nat}
    (small : power ≤ 308) : (x / powerOfTen power).isFinite = true := by
  obtain ⟨number, found, large⟩ := one_le_powerOfTen small
  exact isFinite_div finite found large

/-- What a double is scaled to is finite. -/
theorem isFinite_of_scaleFloat? {x y : Float} {exponent : Int} (finite : x.isFinite = true)
    (scaled : scaleFloat? x exponent = some y) : y.isFinite = true := by
  -- Only a product can overflow, and that is refused.
  fun_induction scaleFloat? x exponent with
  | case1 x exponent near below =>
    cases scaled
    exact isFinite_div_powerOfTen finite near
  | case2 x exponent near above product within => exact Option.some.inj scaled ▸ within
  | case3 x exponent near above product beyond => cases scaled
  | case4 x exponent far zero =>
    cases scaled
    exact finite
  | case5 x exponent far some above => cases scaled
  | case6 x exponent far some below ih =>
    exact ih (isFinite_div_powerOfTen finite le_rfl) scaled

/-- What is rounded is a finite double if it is not larger than a machine word. -/
theorem isFinite_of_word {x : Float} {exact found : ℚ} (closest : Closest exact found)
    (small : |exact| ≤ 2 ^ (64 : ℤ)) (level : levelOf x = some (cut found)) :
    x.isFinite = true := by
  have size : |(2 : ℚ) ^ (64 : ℤ)| = 2 ^ (64 : ℤ) := abs_of_pos (by positivity)
  have fits : Fits (2 ^ (64 : ℤ)) := ⟨1, 64, by norm_num, by norm_num, by norm_num⟩
  refine isFinite_of_closest closest fits ?_ (size.symm ▸ small) level
  rw [size, limit_eq]
  exact zpow_lt_zpow_right₀ (by norm_num) (by norm_num)

/-- A word converted to a double is finite. -/
theorem isFinite_toFloat (word : UInt64) : word.toFloat.isFinite = true := by
  have rounded := normalize_rounded word.toNat 0 .positive
  refine isFinite_of_word rounded.closest ?_ rounded.level_pack
  have below : (word.toNat : ℚ) ≤ 2 ^ 64 := by exact_mod_cast word.toNat_lt.le
  rw [zpow_zero, mul_one, Int.cast_natCast, abs_of_nonneg (by positivity)]
  exact below

/-- A number of a machine word is finite as a double. -/
theorem isFinite_ofNat {number : Nat} (word : number < UInt64.size) :
    (Float.ofNat number).isFinite = true := by
  by_cases listed : number < 2 ^ 53
  · -- A number that a double holds is multiplied by the first power of the table.
    obtain ⟨unit, scaled, finite, placed⟩ : ∃ unit : Float,
        Float.ofNat number = number.toUInt64.toFloat * unit ∧ unit.isFinite = true ∧
          place unit = some (toLex (1, toLex (-52, 2 ^ 52))) := by
      refine ⟨Float.exactlyRepresentablePowersOfTen.getD 0 0.0, ?_, by decide +kernel,
        by decide +kernel⟩
      show Float.ofScientific number false 0 = _
      unfold Float.ofScientific
      rw [dif_pos ⟨listed, by decide⟩]
      rfl
    have one : value unit = 1 := by
      rw [value, worth_eq_numberAt placed]
      norm_num [numberAt]
    obtain ⟨_, closest, level⟩ := levelOf_mul (isFinite_toFloat number.toUInt64) finite
    rw [one, mul_one] at closest
    rw [scaled]
    exact isFinite_of_closest closest (fits_value _) (abs_value_lt _) le_rfl level
  · obtain ⟨_, closest, level⟩ := @levelOf_ofScientific number 0 (by omega) (by omega)
      fun small => listed small.1
    refine isFinite_of_word closest ?_ level
    have below : (number : ℚ) ≤ 2 ^ 64 := by exact_mod_cast word.le
    rw [pow_zero, mul_one, abs_of_nonneg (by positivity)]
    exact below

/-- The double of a number of a machine word times a power of ten is finite. -/
theorem isFinite_of_toFloat? {number : Numeral} {x : Float}
    (word : number.significand < UInt64.size) (made : number.toFloat? = some x) :
    x.isFinite = true := by
  -- A sign changes nothing about a scaled number that is finite.
  obtain ⟨y, scaled, same⟩ := Option.map_eq_some_iff.mp made
  have finite := isFinite_of_scaleFloat? (isFinite_ofNat word) scaled
  rw [← same]
  split
  · exact isFinite_negation finite
  · exact finite

end Scaling

section Digits

/-- Digits are absorbed only as long as the number fits a word. -/
theorem absorb_lt {digits : List Char} {number : Nat} (word : number < UInt64.size) :
    (absorb number digits).1 < UInt64.size := by
  induction digits generalizing number with
  | nil => exact word
  | cons digit later ih =>
    rw [absorb]
    -- A digit is taken only while the number stays a word.
    split
    · exact ih ‹_›
    · exact word

/-- A number that is read keeps as many digits as a machine word holds. -/
theorem significand_lt {truncated : Fault} {text rest : List Char} {number : Numeral}
    (scanned : scanNumber truncated text = .ok (number, rest)) :
    number.significand < UInt64.size := by
  obtain ⟨_, _, scanned⟩ := bind_eq_ok.mp scanned
  obtain ⟨_, _, scanned⟩ := bind_eq_ok.mp scanned
  obtain ⟨_, _, scanned⟩ := bind_eq_ok.mp scanned
  cases scanned
  exact absorb_lt (absorb_lt (by decide))

/-- Every double that is read is finite. -/
theorem readNumber_finite :
    Reader.Gives (readNumber Float) fun x => x.isFinite = true := by
  intro text x rest read
  unfold readNumber at read
  -- A number is given out only when its text is one and its double is made.
  split at read
  · split at read
    · obtain ⟨⟨number, _⟩, scanned, read⟩ := bind_eq_ok.mp read
      dsimp only at read
      split at read
      · rename_i y made
        cases read
        exact isFinite_of_toFloat? (significand_lt scanned) made
      · cases read
    · cases read
  · cases read

end Digits

end Melody.Json
