import Mathlib.Algebra.Order.Field.Basic
import Mathlib.Algebra.Order.Ring.Cast
import Mathlib.Tactic.FieldSimp
import Mathlib.Tactic.Linarith
import Mathlib.Tactic.Ring
import Melody.Scheduler.Basic

/-! Scalars without rounding, whose operations are those of an ordered field. -/

namespace Melody

/-- Scalars that form an ordered field of finite numbers, with any functions for curves on them. -/
class ExactScalar (α : Type) extends Analytic α, Field α, LinearOrder α, IsStrictOrderedRing α where
  /-- No value is infinite or no number. -/
  finite : ∀ x : α, Scalar.isFinite x = true
  /-- All values are ordered as they compare. -/
  order_eq : ∀ x y : α, Scalar.order x y = compare x y
  /-- A literal is the number that it spells. -/
  literal : ∀ (digits : Nat) (below : Bool) (places : Nat),
    toAnalytic.toScalar.toOfScientific.ofScientific digits below places =
      ((OfScientific.ofScientific digits below places : ℚ) : α)

namespace Scalar

variable {α : Type} [ExactScalar α]

/-- The literal zero is the zero of the field. -/
@[simp] theorem zero_eq : (0.0 : α) = 0 := by
  rw [ExactScalar.literal]
  norm_num

/-- The literal one is the one of the field. -/
@[simp] theorem one_eq : (1.0 : α) = 1 := by
  rw [ExactScalar.literal]
  norm_num

/-- The literal two is a number of the field. -/
@[simp] theorem two_eq : (2.0 : α) = 2 := by
  rw [ExactScalar.literal]
  norm_num

/-- The seconds of a minute are a number of the field. -/
@[simp] theorem sixty_eq : (60.0 : α) = 60 := by
  rw [ExactScalar.literal]
  norm_num

/-- The cents of an octave are a number of the field. -/
@[simp] theorem twelveHundred_eq : (1200.0 : α) = 1200 := by
  rw [ExactScalar.literal]
  norm_num

/-- An integer is that integer of the field. -/
@[simp] theorem ofInt_eq_cast (n : Int) : (ofInt n : α) = n := by
  cases n with
  | ofNat n => exact (Int.cast_natCast n).symm
  | negSucc n => exact (Int.cast_negSucc n).symm

/-- On exact numbers only what lies above zero is positive. -/
theorem isPositive_iff {x : α} : isPositive x = true ↔ 0 < x := by
  simp [isPositive, ExactScalar.finite]

/-- The larger of two values is their maximum. -/
@[simp] theorem larger_eq_max (x y : α) : larger x y = max x y := by
  unfold larger
  by_cases above : y < x
  · rw [if_pos above, max_eq_left (le_of_lt above)]
  · rw [if_neg above, if_pos (le_refl y), max_eq_right (not_lt.mp above)]

/-- The smaller of two values is their minimum. -/
@[simp] theorem smaller_eq_min (x y : α) : smaller x y = min x y := by
  unfold smaller
  by_cases below : x < y
  · rw [if_pos below, min_eq_left (le_of_lt below)]
  · rw [if_neg below, if_pos (le_refl y), min_eq_right (not_lt.mp below)]

/-- The distance of a value from zero is its absolute value. -/
@[simp] theorem magnitude_eq_abs (x : α) : magnitude x = |x| := by
  unfold magnitude
  rw [zero_eq]
  by_cases below : x < 0
  · rw [if_pos below, abs_of_neg below]
  · rw [if_neg below, abs_of_nonneg (not_lt.mp below)]

/-- On exact numbers values are the same when they are equal. -/
theorem same_iff {x y : α} : same x y = true ↔ x = y := by
  rw [same, Bool.and_eq_true, decide_eq_true_iff, decide_eq_true_iff]
  exact le_antisymm_iff.symm

/-- A value of the unit interval is not limited. -/
theorem clampUnit_eq {x : α} (low : 0 ≤ x) (high : x ≤ 1) : clampUnit x = x := by
  rw [clampUnit, smaller_eq_min, larger_eq_max, zero_eq, one_eq, max_eq_left low,
    min_eq_left high]

/-- A value comes first when it is smaller. -/
@[simp] theorem order_eq_lt {x y : α} : order x y = .lt ↔ x < y := by
  rw [ExactScalar.order_eq, compare_lt_iff_lt]

end Scalar

section Exact

variable {α : Type} [ExactScalar α]

/-- No length of time is negative. -/
theorem Duration.seconds_nonneg (d : Duration) : (0 : α) ≤ d.seconds := by
  -- Whole seconds and a part of a billion are both no less than zero.
  have whole : (0 : α) ≤ (d.wholeSeconds : α) := Nat.cast_nonneg _
  have part : (0 : α) ≤ (d.subsecond : α) := Nat.cast_nonneg _
  have billion : (0 : α) ≤ 1e9 := by
    rw [ExactScalar.literal]
    norm_num
  exact add_nonneg whole (div_nonneg part billion)

/-- Settings whose lengths of time are not negative. -/
structure Settings.Forward (settings : Settings α) : Prop where
  lead : 0 ≤ settings.leadTime
  interval : 0 ≤ settings.sweepInterval

namespace Settings

/-- The standard settings have lengths of time in them. -/
theorem forward_standard : (standard : Settings α).Forward where
  lead := by
    -- Both settings are written out numbers.
    show (0 : α) ≤ 0.1
    rw [ExactScalar.literal]
    norm_num
  interval := by
    show (0 : α) ≤ 1.0
    rw [ExactScalar.literal]
    norm_num

/-- Another lead time is a length of time. -/
theorem Forward.withLeadTime {settings : Settings α} (forward : settings.Forward) (d : Duration) :
    (settings.withLeadTime d).Forward :=
  ⟨d.seconds_nonneg, forward.interval⟩

/-- Another time between sweeps is a length of time. -/
theorem Forward.withSweepInterval {settings : Settings α} (forward : settings.Forward)
    (d : Duration) : (settings.withSweepInterval d).Forward :=
  ⟨forward.lead, d.seconds_nonneg⟩

end Settings

end Exact

end Melody
