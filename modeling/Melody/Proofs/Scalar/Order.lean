import Mathlib
import Melody.Binary64

/-! Comparison puts the numbers among scalars in one line, with infinity beyond all others. -/

namespace Melody

/-- Scalars whose numbers, the values that equal themselves, are in linear order. -/
class OrderedScalar (α : Type) [Scalar α] : Prop where
  /-- Only numbers are compared. -/
  number_of_le : ∀ {x y : α}, x ≤ y → y ≤ y
  /-- What exceeds a larger value exceeds a smaller one. -/
  le_trans : ∀ {x y z : α}, x ≤ y → y ≤ z → x ≤ z
  /-- Of two numbers one is at most the other. -/
  le_of_not_lt : ∀ {x y : α}, x ≤ x → y ≤ y → ¬ x < y → y ≤ x
  /-- Of two values one at most is below the other. -/
  lt_asymm : ∀ {x y : α}, x < y → ¬ y < x
  /-- A value above zero that is not finite exceeds all that is finite or below zero. -/
  not_le_of_endless : ∀ {x y : α}, Scalar.isFinite x = false → (0.0 : α) < x →
    Scalar.isFinite y = true ∨ y < 0.0 → ¬ x ≤ y

namespace Binary64

open Float.Model

/-- The place of a value on the line of numbers, which a value that is no number does not have. -/
def place? : UnpackedFloat → Option (Int ×ₗ Int ×ₗ Int)
  | .notANumber => none
  | .infinity .negative => some (toLex (-2, toLex (0, 0)))
  -- Larger exponents and larger significands lie farther below zero.
  | .finite .negative significand exponent _ =>
    some (toLex (-1, toLex (-exponent, -(significand : Int))))
  | .zero _ => some (toLex (0, toLex (0, 0)))
  | .finite .positive significand exponent _ =>
    some (toLex (1, toLex (exponent, (significand : Int))))
  | .infinity .positive => some (toLex (2, toLex (0, 0)))

/-- Natural numbers compare as they do among the integers. -/
private theorem compare_natCast (m n : Nat) : compare (m : Int) (n : Int) = compare m n := by
  rcases Nat.lt_trichotomy m n with below | rfl | above
  · rw [Nat.compare_eq_lt.mpr below, Int.compare_eq_lt.mpr (by omega)]
  · rw [Nat.compare_eq_eq.mpr rfl, Int.compare_eq_eq.mpr rfl]
  · rw [Nat.compare_eq_gt.mpr above, Int.compare_eq_gt.mpr (by omega)]

/-- Opposite numbers compare the other way round. -/
private theorem compare_neg (m n : Int) : compare (-m) (-n) = (compare m n).swap := by
  -- Negation turns each of the three cases around.
  rcases Int.lt_trichotomy m n with below | rfl | above
  · rw [Int.compare_eq_lt.mpr below, Int.compare_eq_gt.mpr (by omega)]
    rfl
  · rw [Int.compare_eq_eq.mpr rfl, Int.compare_eq_eq.mpr rfl]
    rfl
  · rw [Int.compare_eq_gt.mpr above, Int.compare_eq_lt.mpr (by omega)]
    rfl

/-- Pairs compare by their first parts, and then by their second ones. -/
private theorem compare_toLex {β δ : Type} [Ord β] [Ord δ] (a c : β) (b d : δ) :
    compare (toLex (a, b)) (toLex (c, d)) = (compare a c).then (compare b d) :=
  rfl

/-- Doubles are compared by their places. -/
theorem compare_eq (x y : UnpackedFloat) :
    x.compare y = (place? x).bind fun left => (place? y).map fun right => compare left right := by
  -- Values of different kinds differ in their first coordinate, finite ones of a sign later.
  cases x with
  | notANumber => cases y <;> rfl
  | infinity s =>
    cases y with
    | notANumber => cases s <;> rfl
    | infinity t => cases s <;> cases t <;> rfl
    | zero t => cases s <;> rfl
    | finite t n f _ => cases s <;> cases t <;> rfl
  | zero s =>
    cases y with
    | notANumber => rfl
    | infinity t => cases t <;> rfl
    | zero t => rfl
    | finite t n f _ => cases t <;> rfl
  | finite s m e _ =>
    cases y with
    | notANumber => cases s <;> rfl
    | infinity t => cases s <;> cases t <;> rfl
    | zero t => cases s <;> rfl
    | finite t n f _ =>
      cases s <;> cases t
      · -- Below zero the model compares magnitudes and swaps the outcome.
        show some (((compare e f).then (compare m n)).swap) = some _
        simp only [compare_toLex, compare_neg, compare_natCast]
        cases compare e f <;> rfl
      · rfl
      · rfl
      · show some ((compare e f).then (compare m n)) = some _
        simp only [compare_toLex, compare_natCast]
        rfl

/-- The place of a double. -/
def place (x : Float) : Option (Int ×ₗ Int ×ₗ Int) :=
  place? x.toModel.unpack

/-- A double is at or below another when its place is. -/
theorem le_iff {x y : Float} :
    x ≤ y ↔ ∃ left right, place x = some left ∧ place y = some right ∧ left ≤ right := by
  show decide ((x.toModel.unpack.compare y.toModel.unpack).any (·.isLE) = true) = true ↔ _
  rw [decide_eq_true_iff, compare_eq]
  unfold place
  cases place? x.toModel.unpack <;> cases place? y.toModel.unpack <;>
    simp [Ordering.isLE_iff_ne_gt, compare_le_iff_le]

/-- A double is below another when its place is. -/
theorem lt_iff {x y : Float} :
    x < y ↔ ∃ left right, place x = some left ∧ place y = some right ∧ left < right := by
  show decide ((x.toModel.unpack.compare y.toModel.unpack == some .lt) = true) = true ↔ _
  rw [decide_eq_true_iff, compare_eq]
  unfold place
  cases place? x.toModel.unpack <;> cases place? y.toModel.unpack <;>
    simp [compare_lt_iff_lt]

/-- Zero stands in the middle of the line. -/
theorem place_zero : place 0.0 = some (toLex (0, toLex (0, 0))) := by
  decide +kernel

/-- What is finite lies below the upper end of the line. -/
theorem place_of_finite {x : Float} (finite : x.isFinite = true) :
    ∃ kind rest, place x = some (toLex (kind, rest)) ∧ kind < 2 := by
  have finite : x.toModel.unpack.isFinite = true := finite
  unfold place
  -- Only the infinite value above has the last kind of place.
  cases value : x.toModel.unpack with
  | notANumber => simp [value, UnpackedFloat.isFinite] at finite
  | infinity s => simp [value, UnpackedFloat.isFinite] at finite
  | zero s => exact ⟨0, _, rfl, by decide⟩
  | finite s m e _ =>
    cases s with
    | negative => exact ⟨-1, _, rfl, by decide⟩
    | positive => exact ⟨1, _, rfl, by decide⟩

/-- What is above zero and not finite lies at the upper end of the line. -/
theorem place_of_endless {x : Float} (endless : x.isFinite = false) (above : 0.0 < x) :
    place x = some (toLex (2, toLex (0, 0))) := by
  have endless : x.toModel.unpack.isFinite = false := endless
  obtain ⟨zero, right, origin, placed, above⟩ := lt_iff.mp above
  rw [place_zero] at origin
  cases origin
  -- What is above zero has a place, and only infinity has one without being finite.
  unfold place at placed ⊢
  cases value : x.toModel.unpack with
  | notANumber => simp [value, place?] at placed
  | infinity s =>
    cases s with
    | negative =>
      rw [value] at placed
      cases placed
      exact absurd above (by decide)
    | positive => rfl
  | zero s => simp [value, UnpackedFloat.isFinite] at endless
  | finite s m e _ => simp [value, UnpackedFloat.isFinite] at endless

end Binary64

instance : OrderedScalar Float where
  number_of_le := by
    intro x y below
    obtain ⟨_, right, _, placed, _⟩ := Binary64.le_iff.mp below
    exact Binary64.le_iff.mpr ⟨right, right, placed, placed, le_refl right⟩
  le_trans := by
    intro x y z first second
    obtain ⟨left, middle, placed, between, below⟩ := Binary64.le_iff.mp first
    obtain ⟨same, right, again, above, ahead⟩ := Binary64.le_iff.mp second
    cases between.symm.trans again
    exact Binary64.le_iff.mpr ⟨left, right, placed, above, below.trans ahead⟩
  le_of_not_lt := by
    intro x y first second apart
    obtain ⟨left, _, placed, _, _⟩ := Binary64.le_iff.mp first
    obtain ⟨right, _, above, _, _⟩ := Binary64.le_iff.mp second
    refine Binary64.le_iff.mpr ⟨right, left, above, placed, ?_⟩
    exact le_of_not_gt fun below =>
      apart (Binary64.lt_iff.mpr ⟨left, right, placed, above, below⟩)
  lt_asymm := by
    intro x y below above
    obtain ⟨left, right, placed, other, first⟩ := Binary64.lt_iff.mp below
    obtain ⟨same, again, swapped, back, second⟩ := Binary64.lt_iff.mp above
    cases other.symm.trans swapped
    cases placed.symm.trans back
    exact lt_asymm first second
  not_le_of_endless := by
    intro x y endless above bounded reached
    obtain ⟨left, right, placed, other, below⟩ := Binary64.le_iff.mp reached
    cases (Binary64.place_of_endless endless above).symm.trans placed
    -- The upper end of the line is reached neither by what is finite nor from below zero.
    rcases bounded with finite | negative
    · obtain ⟨kind, rest, here, bound⟩ := Binary64.place_of_finite finite
      cases other.symm.trans here
      exact absurd below (by simp [Prod.Lex.toLex_le_toLex]; omega)
    · obtain ⟨least, origin, here, middle, under⟩ := Binary64.lt_iff.mp negative
      cases other.symm.trans here
      cases Binary64.place_zero.symm.trans middle
      exact absurd (below.trans_lt under) (by decide)

end Melody
