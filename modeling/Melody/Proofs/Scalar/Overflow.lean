import Melody.Proofs.Scalar.Nearest

/-! Doubles of any size: a sum is rounded to 53 bits, and infinite if that is too large a number. -/

namespace Melody.Binary64

open Float.Model Float.Model.UnpackedFloat

/-- The least power of two that is too large for a double. -/
@[irreducible] def limit : ℚ :=
  2 ^ (1024 : ℤ)

/-- The limit is `2 ^ 1024`, one binary place beyond the largest exponent of a double. -/
theorem limit_eq : limit = 2 ^ (1024 : ℤ) := by
  rw [limit]

/-- The limit lies above zero. -/
theorem limit_pos : 0 < limit := by
  -- A power of two is positive; the exponent plays no part.
  rw [limit]
  exact zpow_pos (by norm_num) _

/-- Numbers of 53 bits are below the limit if their unit is at most that of the largest doubles. -/
theorem mul_lt_limit {count : Nat} (few : count < 2 ^ 53) :
    (count : ℚ) * 2 ^ (971 : ℤ) < limit := by
  -- The bits of the count and the exponent of the unit add up to the limit.
  rw [limit_eq]
  calc
    (count : ℚ) * 2 ^ (971 : ℤ) < 2 ^ (53 : ℤ) * 2 ^ (971 : ℤ) := by
      gcongr
      exact_mod_cast few
    _ = 2 ^ (1024 : ℤ) := (zpow_add₀ (by norm_num) 53 971).symm

/-- Where a value lies on the line of numbers, with the infinite ones at the two limits. -/
def level : UnpackedFloat → Option ℚ
  | .notANumber => none
  | .infinity .negative => some (-limit)
  | .infinity .positive => some limit
  | .zero _ => some 0
  | .finite sign significand exponent positive =>
    some (worth (.finite sign significand exponent positive))

/-- Where a double lies on the line of numbers. -/
def levelOf (x : Float) : Option ℚ :=
  level x.toModel.unpack

/-- A finite value lies on the line at the number that it holds. -/
theorem level_eq_worth {value : UnpackedFloat} (finite : value.isFinite = true) :
    level value = some (worth value) := by
  -- Both kinds of finite value read their number in the same way.
  rcases eq_of_isFinite finite with ⟨sign, rfl⟩ | ⟨sign, _, _, _, rfl⟩ <;> rfl

/-- What a double holds is below the limit. -/
theorem abs_worth_lt {value : UnpackedFloat} (regular : Regular value) : |worth value| < limit := by
  -- Only finite values hold anything but zero.
  cases value with
  | infinity sign => simpa [worth] using limit_pos
  | notANumber => simpa [worth] using limit_pos
  | zero sign => simpa [worth] using limit_pos
  | finite sign significand exponent positive =>
    -- A significand of 53 bits times the largest unit stays below the limit.
    obtain ⟨short, _, high, _⟩ := regular
    rw [worth, abs_mul, abs_apply, abs_of_pos (by positivity)]
    calc
      (significand : ℚ) * 2 ^ exponent ≤ significand * 2 ^ (971 : ℤ) := by
        gcongr
        norm_num
      _ < limit := mul_lt_limit short

/-- The number at a place on the line, the limits being at its ends. -/
def levelAt (place : Int ×ₗ Int ×ₗ Int) : ℚ :=
  if (ofLex place).1 = 2 then limit else if (ofLex place).1 = -2 then -limit else numberAt place

/-- The number of a value is the one at its place. -/
theorem level_eq_map (value : UnpackedFloat) : level value = (place? value).map levelAt := by
  cases value with
  | notANumber => rfl
  -- The infinite values own the outermost places, where the limits are.
  | infinity sign => cases sign <;> simp [level, place?, levelAt]
  | zero sign => simp [level, place?, levelAt, numberAt]
  | finite sign significand exponent positive =>
    cases sign <;> simp [level, place?, levelAt, numberAt, worth, Sign.apply]

section Line

variable {x y : Float}

/-- A finite double lies on the line at the number that it holds. -/
theorem levelOf_of_isFinite (finite : x.isFinite = true) : levelOf x = some (value x) :=
  level_eq_worth finite

/-- A number is finite, or infinite with one of the signs. -/
theorem isFinite_or_endless {number : ℚ} (found : levelOf x = some number) :
    x.isFinite = true ∨ number = limit ∧ x.toModel.unpack = .infinity .positive ∨
      number = -limit ∧ x.toModel.unpack = .infinity .negative := by
  have finite : x.isFinite = x.toModel.unpack.isFinite := rfl
  rw [finite]
  rw [levelOf] at found
  -- The line leaves out nothing but values that are no number.
  cases held : x.toModel.unpack with
  | notANumber =>
    rw [held] at found
    cases found
  | infinity sign =>
    rw [held] at found
    cases sign with
    | positive => exact Or.inr (Or.inl ⟨(Option.some.inj found).symm, rfl⟩)
    | negative => exact Or.inr (Or.inr ⟨(Option.some.inj found).symm, rfl⟩)
  | zero sign => exact Or.inl rfl
  | finite sign significand exponent positive => exact Or.inl rfl

/-- Finite doubles are those below the limits. -/
theorem isFinite_iff_levelOf : x.isFinite = true ↔ ∃ number, levelOf x = some number ∧
    |number| < limit := by
  constructor
  · intro finite
    exact ⟨value x, levelOf_of_isFinite finite, abs_worth_lt (regular_unpack _)⟩
  · rintro ⟨number, found, small⟩
    obtain ⟨low, high⟩ := abs_lt.mp small
    -- The infinite values are at the limits themselves, and so not within them.
    rcases isFinite_or_endless found with finite | ⟨upper, _⟩ | ⟨lower, _⟩
    · exact finite
    · exact absurd high upper.not_lt
    · exact absurd low lower.not_gt

/-- What has a place on the line is finite or at one of its ends. -/
theorem isFinite_or_infinity {number : UnpackedFloat} {left : Int ×ₗ Int ×ₗ Int}
    (found : place? number = some left) :
    number.isFinite = true ∨ ∃ sign, number = .infinity sign := by
  cases number with
  | notANumber => cases found
  | infinity sign => exact Or.inr ⟨sign, rfl⟩
  | zero sign => exact Or.inl rfl
  | finite sign significand exponent positive => exact Or.inl rfl

/-- No place lies beyond those of the infinite values. -/
theorem place_between {number : UnpackedFloat} {left : Int ×ₗ Int ×ₗ Int}
    (found : place? number = some left) :
    toLex (-2, toLex (0, 0)) ≤ left ∧ left ≤ toLex (2, toLex (0, 0)) := by
  -- The sign of a finite value is between the marks of the infinite ones.
  cases number with
  | notANumber => cases found
  | infinity sign => cases sign <;> cases found <;> simp [Prod.Lex.toLex_le_toLex]
  | zero sign =>
    cases found
    simp [Prod.Lex.toLex_le_toLex]
  | finite sign significand exponent positive =>
    cases sign <;> cases found <;> simp [Prod.Lex.toLex_le_toLex]

/-- Values farther along the line have larger numbers, with the limits at its ends. -/
theorem level_lt_of_place {one other : UnpackedFloat} {left right : Int ×ₗ Int ×ₗ Int}
    (regular : Regular one) (regular' : Regular other) (here : place? one = some left)
    (there : place? other = some right) (before : left < right) :
    ∃ p q, level one = some p ∧ level other = some q ∧ p < q := by
  -- Finite values compare by what they hold, and lie within the limits.
  have bounds : ∀ {value : UnpackedFloat}, Regular value → -limit < worth value ∧
      worth value < limit := fun regular => abs_lt.mp (abs_worth_lt regular)
  -- Each side is finite or at an end; the ends leave one order open.
  rcases isFinite_or_infinity here with finite | ⟨sign, rfl⟩
  · rcases isFinite_or_infinity there with finite' | ⟨sign, rfl⟩
    · exact ⟨_, _, level_eq_worth finite, level_eq_worth finite',
        worth_lt_of_place regular regular' finite finite' here there before⟩
    · cases sign with
      | positive => exact ⟨_, _, level_eq_worth finite, rfl, (bounds regular).2⟩
      | negative =>
        cases there
        exact absurd before (place_between here).1.not_gt
  · cases sign with
    | positive =>
      cases here
      exact absurd before (place_between there).2.not_gt
    | negative =>
      rcases isFinite_or_infinity there with finite' | ⟨sign, rfl⟩
      · exact ⟨_, _, rfl, level_eq_worth finite', (bounds regular').1⟩
      · cases sign with
        | positive => exact ⟨_, _, rfl, rfl, neg_lt_self limit_pos⟩
        | negative =>
          cases here
          cases there
          exact absurd before (lt_irrefl _)

/-- The place of a double tells its number on the line. -/
theorem levelOf_of_place {left : Int ×ₗ Int ×ₗ Int} (here : place x = some left) :
    levelOf x = some (levelAt left) := by
  rw [levelOf, level_eq_map]
  exact congrArg (Option.map levelAt) here

/-- A double with a number on the line has a place there. -/
theorem exists_place {number : ℚ} (found : levelOf x = some number) :
    ∃ left, place x = some left ∧ levelAt left = number :=
  Option.map_eq_some_iff.mp ((level_eq_map _).symm.trans found)

/-- Places are ordered as the numbers at them. -/
theorem levelAt_lt_iff {left right : Int ×ₗ Int ×ₗ Int} (here : place x = some left)
    (there : place y = some right) : levelAt left < levelAt right ↔ left < right := by
  -- Numbers grow with places; the other direction follows as places are in line.
  have ahead : ∀ {x y : Float} {left right}, place x = some left → place y = some right →
      left < right → levelAt left < levelAt right := by
    intro x y left right here there before
    obtain ⟨p, q, first, second, less⟩ :=
      level_lt_of_place (regular_unpack _) (regular_unpack _) here there before
    cases (levelOf_of_place here).symm.trans first
    cases (levelOf_of_place there).symm.trans second
    exact less
  refine ⟨fun less => not_le.mp fun after => ?_, ahead here there⟩
  rcases after.lt_or_eq with after | rfl
  · exact absurd less (ahead there here after).not_gt
  · exact absurd less (lt_irrefl _)

/-- Doubles that are numbers compare as their numbers. -/
theorem lt_iff_levelOf : x < y ↔ ∃ p q, levelOf x = some p ∧ levelOf y = some q ∧ p < q := by
  -- Doubles compare by place, and places as the numbers at them.
  rw [lt_iff]
  constructor
  · rintro ⟨left, right, here, there, before⟩
    exact ⟨_, _, levelOf_of_place here, levelOf_of_place there,
      (levelAt_lt_iff here there).mpr before⟩
  · rintro ⟨p, q, first, second, less⟩
    obtain ⟨left, here, rfl⟩ := exists_place first
    obtain ⟨right, there, rfl⟩ := exists_place second
    exact ⟨left, right, here, there, (levelAt_lt_iff here there).mp less⟩

/-- Doubles that are numbers are in line as their numbers. -/
theorem le_iff_levelOf : x ≤ y ↔ ∃ p q, levelOf x = some p ∧ levelOf y = some q ∧ p ≤ q := by
  -- Being in line is not being beyond in the other direction.
  rw [le_iff]
  constructor
  · rintro ⟨left, right, here, there, before⟩
    exact ⟨_, _, levelOf_of_place here, levelOf_of_place there,
      not_lt.mp (mt (levelAt_lt_iff there here).mp before.not_gt)⟩
  · rintro ⟨p, q, first, second, less⟩
    obtain ⟨left, here, rfl⟩ := exists_place first
    obtain ⟨right, there, rfl⟩ := exists_place second
    exact ⟨left, right, here, there, not_lt.mp (mt (levelAt_lt_iff there here).mpr less.not_gt)⟩

/-- What lies below something is a number, and so is what it lies below. -/
theorem numbers_of_lt (less : x < y) : x ≤ x ∧ y ≤ y := by
  -- Only numbers have a place on the line.
  obtain ⟨p, q, here, there, _⟩ := lt_iff_levelOf.mp less
  exact ⟨le_iff_levelOf.mpr ⟨p, p, here, here, le_rfl⟩,
    le_iff_levelOf.mpr ⟨q, q, there, there, le_rfl⟩⟩

/-- Zero is the number zero on the line. -/
@[simp] theorem levelOf_zero : levelOf 0.0 = some 0 := by
  rw [levelOf_of_place place_zero]
  simp [levelAt, numberAt]

end Line

section Rounding

/-- A number without what is beyond the limits. -/
def cut (number : ℚ) : ℚ :=
  max (-limit) (min number limit)

/-- Cutting keeps numbers in their order. -/
theorem cut_mono {p q : ℚ} (below : p ≤ q) : cut p ≤ cut q :=
  max_le_max_left _ (min_le_min_right _ below)

/-- A number within the limits is not cut. -/
theorem cut_of_small {number : ℚ} (small : |number| < limit) : cut number = number := by
  obtain ⟨low, high⟩ := abs_lt.mp small
  rw [cut, min_eq_left high.le, max_eq_right low.le]

/-- A number from the limit on is cut to the limit. -/
theorem cut_of_large {number : ℚ} (large : limit ≤ number) : cut number = limit := by
  rw [cut, min_eq_right large, max_eq_right (neg_lt_self limit_pos).le]

/-- A number from the lower limit down is cut to the lower limit. -/
theorem cut_of_least {number : ℚ} (least : number ≤ -limit) : cut number = -limit := by
  rw [cut, min_eq_left (least.trans (neg_lt_self limit_pos).le), max_eq_left least]

/-- A number that is cut is at a limit. -/
theorem eq_of_abs_cut_lt {number : ℚ} (small : |cut number| < limit) : cut number = number := by
  obtain ⟨low, high⟩ := abs_lt.mp small
  -- A number beyond either limit would have been cut to it.
  refine cut_of_small (abs_lt.mpr ⟨?_, ?_⟩)
  · by_contra below
    rw [cut_of_least (not_lt.mp below)] at low
    exact lt_irrefl _ low
  · by_contra above
    rw [cut_of_large (not_lt.mp above)] at high
    exact lt_irrefl _ high

/-- What a double holds lies within the limits. -/
theorem abs_value_lt (x : Float) : |value x| < limit :=
  abs_worth_lt (regular_unpack x.toModel)

/-- What a double holds is not cut. -/
@[simp] theorem cut_value (x : Float) : cut (value x) = value x :=
  cut_of_small (abs_value_lt x)

/-- A value with too large an exponent is packed as an infinite one. -/
theorem unpack_pack_endless (sign : Sign) {significand : Nat} {exponent : Int}
    (positive : 0 < significand) (high : 971 < exponent) :
    (Float.Model.pack (.finite sign significand exponent positive)).unpack = .infinity sign := by
  -- The biased exponent fills its field, which is how infinite values are marked.
  have beyond : 2 ^ Format.binary64.exponentBits ≤ (exponent + Format.binary64.exponentBias +
      Format.binary64.mantissaBitsWithoutImplicit).toNat + 1 := by
    norm_num [Format.exponentBias]
    omega
  show unpack Format.binary64 (UnpackedFloat.pack Format.binary64 _) = _
  unfold UnpackedFloat.pack
  dsimp only
  rw [if_pos beyond]
  cases sign <;> rfl

/-- What is packed is a number of 53 bits, without what is beyond the limits. -/
theorem Rounded.level_pack {exact : ℚ} {rounded : UnpackedFloat} (near : Rounded exact rounded) :
    level (Float.Model.pack rounded).unpack = some (cut (worth rounded)) := by
  by_cases small : |worth rounded| < limit
  · -- Within the limits packing keeps the value, and nothing is cut.
    rw [near.unpack_pack (by rwa [← limit_eq]), level_eq_worth near.finite, cut_of_small small]
  · rcases eq_of_isFinite near.finite with
      ⟨sign, rfl⟩ | ⟨sign, significand, exponent, positive, rfl⟩
    · exact absurd (by rw [worth_zero, abs_zero]; exact limit_pos) small
    · -- Beyond the limits the exponent is too large for a regular value.
      have high : 971 < exponent := by
        by_contra low
        obtain ⟨short, least, full⟩ := near.shaped
        have regular : Regular (.finite sign significand exponent positive) :=
          ⟨short, least, not_lt.mp low, full⟩
        exact small (abs_worth_lt regular)
      rw [unpack_pack_endless sign positive high]
      have size := worth_positive exponent positive
      cases sign with
      | positive =>
        rw [abs_of_pos size, not_lt] at small
        rw [cut_of_large small]
        rfl
      | negative =>
        rw [worth_negative, abs_neg, abs_of_pos size, not_lt] at small
        rw [worth_negative, cut_of_least (neg_le_neg small)]
        rfl

namespace Closest

variable {exact exact' found found' number : ℚ}

/-- Rounding does not pass a number of 53 bits. -/
theorem le_of_le (closest : Closest exact found) (fits : Fits number) (below : exact ≤ number) :
    found ≤ number := by
  by_contra passed
  rw [not_le] at passed
  -- The bound itself would have been closer than what passed it.
  have nearest := closest.nearest number fits
  rw [abs_of_nonneg (sub_nonneg.mpr below), abs_of_nonneg (by linarith)] at nearest
  linarith

/-- Rounding does not pass a number of 53 bits from above either. -/
theorem ge_of_ge (closest : Closest exact found) (fits : Fits number) (above : number ≤ exact) :
    number ≤ found := by
  by_contra passed
  rw [not_le] at passed
  -- Again the bound would have been closer.
  have nearest := closest.nearest number fits
  rw [abs_of_nonpos (sub_nonpos.mpr above), abs_of_nonpos (by linarith)] at nearest
  linarith

/-- A number of 53 bits is rounded to itself. -/
theorem eq_of_fits (closest : Closest exact found) (fits : Fits exact) : found = exact :=
  le_antisymm (closest.le_of_le fits le_rfl) (closest.ge_of_ge fits le_rfl)

/-- What is rounded stays in its order. -/
theorem mono (closest : Closest exact found) (closest' : Closest exact' found')
    (less : exact < exact') : found ≤ found' := by
  by_contra passed
  rw [not_le] at passed
  -- Each of the two would be on the wrong side of the middle between them.
  have low := sq_le_sq.mpr (closest.nearest found' closest'.fits)
  have high := sq_le_sq.mpr (closest'.nearest found closest.fits)
  nlinarith

/-- A number of 53 bits is not passed unless the next one is as near. -/
theorem le_of_lt_half {least : Int} (closest : Closest exact found) (low : -1074 ≤ least)
    (near : exact < 2 ^ 52 * 2 ^ least + 2 ^ least / 2) : found ≤ 2 ^ 52 * 2 ^ least := by
  -- Otherwise the result is above the bound, which holds 53 bits itself.
  have fits : Fits (2 ^ 52 * 2 ^ least) := ⟨2 ^ 52, least, by norm_num, low, by norm_num⟩
  by_contra passed
  rw [not_le] at passed
  have size : (0 : ℚ) < 2 ^ least := by positivity
  -- What is larger is so by a unit at least.
  obtain ⟨count, rfl⟩ := (units_or_less closest.fits least).resolve_right fun ⟨_, small⟩ =>
    absurd (passed.trans_le (le_abs_self _)) small.not_gt
  have counts : (2 ^ 52 : ℤ) < count := by
    exact_mod_cast lt_of_mul_lt_mul_right passed size.le
  have next : ((2 ^ 52 + 1 : ℤ) : ℚ) * 2 ^ least ≤ count * 2 ^ least := by
    gcongr
    exact_mod_cast counts
  push_cast at next
  -- The number rounded lies above the bound, as rounding does not pass it.
  have below : 2 ^ 52 * 2 ^ least < exact := by
    by_contra above
    exact absurd (closest.le_of_le fits (not_lt.mp above)) (not_le.mpr passed)
  have nearest := closest.nearest _ fits
  rw [abs_of_nonneg (by linarith), abs_of_neg (by linarith)] at nearest
  linarith

end Closest

end Rounding

section Sums

variable {x y z : Float}

/-- A sum of doubles is the packed sum of their values. -/
theorem unpack_add (x y : Float) : (x + y).toModel.unpack = (Float.Model.pack
    (UnpackedFloat.add Format.binary64 x.toModel.unpack y.toModel.unpack)).unpack :=
  rfl

/-- A difference of doubles is the packed sum with the second value negated. -/
theorem unpack_sub (x y : Float) : (x - y).toModel.unpack = (Float.Model.pack
    (UnpackedFloat.add Format.binary64 x.toModel.unpack y.toModel.unpack.neg)).unpack := by
  rw [← sub_eq_add]
  rfl

/-- A sum of finite doubles is the closest number, without what is beyond the limits. -/
theorem levelOf_add (left : x.isFinite = true) (right : y.isFinite = true) :
    ∃ found, Closest (value x + value y) found ∧ levelOf (x + y) = some (cut found) :=
  have rounded := rounded_add left right (regular_unpack _) (regular_unpack _)
  ⟨_, rounded.closest, rounded.level_pack⟩

/-- A difference of finite doubles is the closest number, without what is beyond the limits. -/
theorem levelOf_sub (left : x.isFinite = true) (right : y.isFinite = true) :
    ∃ found, Closest (value x - value y) found ∧ levelOf (x - y) = some (cut found) := by
  have rounded := rounded_add left ((isFinite_neg _).trans right) (regular_unpack _)
    (regular_neg (regular_unpack y.toModel))
  -- Taking away is adding the negated value.
  rw [worth_neg, ← sub_eq_add_neg] at rounded
  refine ⟨_, rounded.closest, ?_⟩
  rw [levelOf, unpack_sub]
  exact rounded.level_pack

/-- The number that a finite double was cut to is the double's own. -/
theorem eq_of_levelOf_cut {number : ℚ} (finite : x.isFinite = true)
    (level : levelOf x = some (cut number)) : value x = number := by
  have same : value x = cut number :=
    Option.some.inj ((levelOf_of_isFinite finite).symm.trans level)
  -- A finite double is within the limits, so nothing was cut.
  rw [same]
  exact eq_of_abs_cut_lt (same ▸ abs_value_lt x)

/-- A sum that is finite is the closest number. -/
theorem closest_add (left : x.isFinite = true) (right : y.isFinite = true)
    (finite : (x + y).isFinite = true) : Closest (value x + value y) (value (x + y)) := by
  obtain ⟨found, closest, level⟩ := levelOf_add left right
  rwa [eq_of_levelOf_cut finite level]

/-- A difference that is finite is the closest number. -/
theorem closest_sub (left : x.isFinite = true) (right : y.isFinite = true)
    (finite : (x - y).isFinite = true) : Closest (value x - value y) (value (x - y)) := by
  obtain ⟨found, closest, level⟩ := levelOf_sub left right
  rwa [eq_of_levelOf_cut finite level]

/-- A double above the lower limit is finite or infinite above all others. -/
theorem isFinite_or_above {number : ℚ} (found : levelOf x = some number) (above : -limit < number) :
    x.isFinite = true ∨ number = limit ∧ x.toModel.unpack = .infinity .positive := by
  rcases isFinite_or_endless found with finite | upper | ⟨lower, _⟩
  · exact Or.inl finite
  · exact Or.inr upper
  · exact absurd above lower.not_gt

/-- What is infinite stays so when it is added to a finite value. -/
theorem add_infinity (sign : Sign) {value : UnpackedFloat} (finite : value.isFinite = true) :
    UnpackedFloat.add Format.binary64 value (.infinity sign) = .infinity sign ∧
      UnpackedFloat.add Format.binary64 (.infinity sign) value = .infinity sign := by
  rcases eq_of_isFinite finite with ⟨_, rfl⟩ | ⟨_, _, _, _, rfl⟩ <;> exact ⟨rfl, rfl⟩

/-- An infinite value survives packing. -/
theorem unpack_pack_infinity (sign : Sign) :
    (Float.Model.pack (.infinity sign)).unpack = .infinity sign := by
  cases sign <;> rfl

/-- What is infinite above stays so when it is added to what is not infinite below. -/
theorem levelOf_add_endless {number : ℚ} (found : levelOf x = some number)
    (above : -limit < number) (endless : y.toModel.unpack = .infinity .positive) :
    levelOf (x + y) = some limit ∧ levelOf (y + x) = some limit := by
  rw [levelOf, levelOf, unpack_add, unpack_add, endless]
  -- The other part is finite or infinite with the same sign, never the opposite one.
  rcases isFinite_or_above found above with finite | ⟨_, same⟩
  · obtain ⟨left, right⟩ := add_infinity .positive finite
    rw [left, right, unpack_pack_infinity]
    exact ⟨rfl, rfl⟩
  · rw [same, show UnpackedFloat.add Format.binary64 (.infinity .positive) (.infinity .positive) =
      .infinity .positive from rfl, unpack_pack_infinity]
    exact ⟨rfl, rfl⟩

/-- What is infinite above stays so when something finite is taken from it. -/
theorem levelOf_sub_endless (endless : x.toModel.unpack = .infinity .positive)
    (finite : y.isFinite = true) : levelOf (x - y) = some limit := by
  rw [levelOf, unpack_sub, endless, (add_infinity .positive ((isFinite_neg _).trans finite)).2,
    unpack_pack_infinity]
  rfl

/-- A sum that is finite has finite parts. -/
theorem isFinite_of_add (left : x.isFinite = true) (total : (x + y).isFinite = true) :
    y.isFinite = true := by
  have total : (x + y).toModel.unpack.isFinite = true := total
  rw [unpack_add] at total
  show y.toModel.unpack.isFinite = true
  -- A part that is infinite or no number would be seen in the sum.
  cases held : y.toModel.unpack with
  | notANumber =>
    have undefined :
        UnpackedFloat.add Format.binary64 x.toModel.unpack .notANumber = .notANumber := by
      cases x.toModel.unpack <;> rfl
    rw [held, undefined] at total
    cases total
  | infinity sign =>
    rw [held, (add_infinity sign left).1, unpack_pack_infinity] at total
    cases total
  | zero sign => rfl
  | finite sign significand exponent positive => rfl

/-- The values of doubles are multiples of the least one. -/
theorem exists_units (x : Float) : ∃ count : Int, value x = count * 2 ^ (-1074 : ℤ) :=
  (units_or_less (fits_value x) (-1074)).resolve_right fun ⟨more, _⟩ => absurd more (lt_irrefl _)

/-- Doubles that differ do so by the least double at least. -/
theorem least_le_sub (less : value x < value y) : 2 ^ (-1074 : ℤ) ≤ value y - value x := by
  -- Both are whole multiples of the least double, and whole numbers differ by one.
  obtain ⟨one, here⟩ := exists_units x
  obtain ⟨other, there⟩ := exists_units y
  have size : (0 : ℚ) < 2 ^ (-1074 : ℤ) := zpow_pos (by norm_num) _
  rw [here, there] at less ⊢
  have counts : one < other := by exact_mod_cast lt_of_mul_lt_mul_right less size.le
  have next : (1 : ℚ) ≤ other - one := by exact_mod_cast (by omega : 1 ≤ other - one)
  rw [← sub_mul]
  exact le_mul_of_one_le_left size.le next

/-- The least double above zero is a number of 53 bits. -/
theorem fits_least : Fits (2 ^ (-1074 : ℤ)) :=
  ⟨1, -1074, by norm_num, le_rfl, by norm_num⟩

/-- What is positive stays so within the limits. -/
theorem cut_pos {number : ℚ} (positive : 0 < number) : 0 < cut number :=
  lt_max_of_lt_right (lt_min positive limit_pos)

/-- The difference to a larger number is above zero, however small or large it is. -/
theorem sub_pos_of_lt (finite : x.isFinite = true) (less : x < y) : 0.0 < y - x := by
  obtain ⟨p, q, here, there, before⟩ := lt_iff_levelOf.mp less
  cases here.symm.trans (levelOf_of_isFinite finite)
  -- The larger number may be infinite, the smaller one is not.
  have low := (abs_lt.mp (abs_worth_lt (regular_unpack x.toModel))).1
  rcases isFinite_or_above there (low.trans before) with finite' | ⟨rfl, endless⟩
  · cases there.symm.trans (levelOf_of_isFinite finite')
    -- The difference is not rounded below the least double.
    obtain ⟨found, closest, level⟩ := levelOf_sub finite' finite
    have least : (2 : ℚ) ^ (-1074 : ℤ) ≤ found :=
      closest.ge_of_ge fits_least (least_le_sub before)
    exact lt_iff_levelOf.mpr
      ⟨0, _, levelOf_zero, level, cut_pos ((zpow_pos (by norm_num) _).trans_le least)⟩
  · exact lt_iff_levelOf.mpr ⟨0, _, levelOf_zero, levelOf_sub_endless endless finite, limit_pos⟩

/-- What is added above zero leaves nothing below what it is added to. -/
theorem le_add_of_pos {number : ℚ} (found : levelOf x = some number) (above : -limit < number)
    (positive : 0.0 < y) : x ≤ x + y := by
  obtain ⟨_, q, zero, there, less⟩ := lt_iff_levelOf.mp positive
  cases levelOf_zero.symm.trans zero
  have low := (neg_lt_zero.mpr limit_pos).trans less
  rw [le_iff_levelOf]
  -- Rounding the sum does not pass the part it started from; infinite parts give the limit.
  rcases isFinite_or_above found above with left | ⟨rfl, endless⟩
  · cases found.symm.trans (levelOf_of_isFinite left)
    rcases isFinite_or_above there low with right | ⟨rfl, endless⟩
    · cases there.symm.trans (levelOf_of_isFinite right)
      obtain ⟨total, closest, level⟩ := levelOf_add left right
      refine ⟨_, _, found, level, ?_⟩
      rw [← cut_value x]
      exact cut_mono (closest.ge_of_ge (fits_value x) (le_add_of_nonneg_right less.le))
    · exact ⟨_, _, found, (levelOf_add_endless found above endless).1,
        (abs_lt.mp (abs_value_lt x)).2.le⟩
  · exact ⟨_, _, found, (levelOf_add_endless there low endless).2, le_rfl⟩

/-- What is taken away from a number leaves nothing above it. -/
theorem sub_le_of_nonneg {number : ℚ} (found : levelOf x = some number) (above : -limit < number)
    (finite : y.isFinite = true) (nonneg : 0 ≤ value y) : x - y ≤ x := by
  rw [le_iff_levelOf]
  rcases isFinite_or_above found above with left | ⟨rfl, endless⟩
  · cases found.symm.trans (levelOf_of_isFinite left)
    -- The difference is not rounded past what it was taken from.
    obtain ⟨rest, closest, level⟩ := levelOf_sub left finite
    refine ⟨_, _, level, found, ?_⟩
    rw [← cut_value x]
    exact cut_mono (closest.le_of_le (fits_value x) (sub_le_self _ nonneg))
  · exact ⟨_, _, levelOf_sub_endless endless finite, found, le_rfl⟩

/-- What is added to two numbers in order leaves them in order, however large they get. -/
theorem add_le_add_of_value_le (left : x.isFinite = true) (right : y.isFinite = true)
    (nonneg : 0 ≤ value x) (below : value x ≤ value y) {number : ℚ}
    (found : levelOf z = some number) (above : -limit < number) : x + z ≤ y + z := by
  rw [le_iff_levelOf]
  rcases isFinite_or_above found above with finite | ⟨rfl, endless⟩
  · obtain ⟨one, closest, first⟩ := levelOf_add left finite
    obtain ⟨other, closest', second⟩ := levelOf_add right finite
    refine ⟨_, _, first, second, ?_⟩
    rcases below.lt_or_eq with less | same
    · exact cut_mono (closest.mono closest' (add_lt_add_left less _))
    · -- Equal numbers have equal sums, whichever zeros they are.
      rcases nonneg.lt_or_eq with positive | zero
      · rw [levelOf, unpack_add, unpack_eq_of_value_eq left right positive same] at first
        exact (Option.some.inj (first.symm.trans second)).le
      · rw [← zero, zero_add] at closest
        rw [← same, ← zero, zero_add] at closest'
        rw [closest.eq_of_fits (fits_value z), closest'.eq_of_fits (fits_value z)]
  · have low : ∀ x : Float, -limit < value x := fun x => (abs_lt.mp (abs_value_lt x)).1
    exact ⟨_, _, (levelOf_add_endless (levelOf_of_isFinite left) (low x) endless).1,
      (levelOf_add_endless (levelOf_of_isFinite right) (low y) endless).1, le_rfl⟩

/-- The difference of two numbers in order that are not below zero is finite. -/
theorem isFinite_sub (left : x.isFinite = true) (right : y.isFinite = true)
    (nonneg : 0 ≤ value x) (below : value x ≤ value y) : (y - x).isFinite = true := by
  obtain ⟨found, closest, level⟩ := levelOf_sub right left
  -- The difference lies between zero and the larger number, and so does what it is rounded to.
  have low := closest.ge_of_ge fits_zero (sub_nonneg.mpr below)
  have high := closest.le_of_le (fits_value y) (sub_le_self _ nonneg)
  have small : |found| < limit := by
    rw [abs_of_nonneg low]
    exact high.trans_lt (abs_lt.mp (abs_value_lt y)).2
  rw [cut_of_small small] at level
  exact isFinite_iff_levelOf.mpr ⟨found, level, small⟩

/-- What is below a larger number is below all that are larger still. -/
theorem lt_trans_le (less : x < y) (below : y ≤ z) : x < z := by
  -- The middle double has one number on the line.
  obtain ⟨p, q, here, there, before⟩ := lt_iff_levelOf.mp less
  obtain ⟨q', r, there', last, after⟩ := le_iff_levelOf.mp below
  cases there.symm.trans there'
  exact lt_iff_levelOf.mpr ⟨p, r, here, last, before.trans_le after⟩

/-- The larger of two numbers is one of them, and neither exceeds it. -/
theorem larger_spec (left : x ≤ x) (right : y ≤ y) : x ≤ Scalar.larger x y ∧
    y ≤ Scalar.larger x y ∧ (Scalar.larger x y = x ∨ Scalar.larger x y = y) := by
  unfold Scalar.larger
  -- The first is taken only when it lies beyond the second.
  by_cases above : y < x
  · obtain ⟨p, q, here, there, before⟩ := lt_iff_levelOf.mp above
    rw [if_pos above]
    exact ⟨left, le_iff_levelOf.mpr ⟨p, q, here, there, before.le⟩, Or.inl rfl⟩
  · rw [if_neg above, if_pos right]
    exact ⟨OrderedScalar.le_of_not_lt right left above, right, Or.inr rfl⟩

end Sums

end Melody.Binary64
