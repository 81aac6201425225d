import Melody.Proofs.Envelope.Approximation

/-! The height of a quadratic curve is looked up at the very parameter with which it is drawn. -/

namespace Melody.Segment

section Coefficients

variable {p q r t : ℝ}

/-- The leading coefficient of the powers that a quadratic curve is made of. -/
def bend {α : Type} [Scalar α] (p q r : α) : α :=
  p - 2.0 * q + r

/-- How far the middle of a curve is off its line, written out. -/
theorem bend_eq (p q r : ℝ) : bend p q r = p - 2 * q + r := by
  rw [bend, Scalar.two_eq]

/-- A quadratic curve in powers of its parameter. -/
theorem bezier_eq_powers (p q r t : ℝ) :
    bezier p q r t = p + (2 * (q - p) + bend p q r * t) * t := by
  rw [bezier, bend_eq, Scalar.one_eq, Scalar.two_eq]
  ring

/-- The discriminant of the equation for a parameter is the square of the slope there. -/
theorem discriminant_eq (p q r t : ℝ) :
    2 * (q - p) * (2 * (q - p)) - 4 * bend p q r * (p - bezier p q r t) =
      (2 * (q - p) + 2 * bend p q r * t) ^ 2 := by
  rw [bezier_eq_powers]
  ring

/-- A curve with its control value between its ends has no negative slope on its way. -/
theorem slope_nonneg (first : p ≤ q) (second : q ≤ r) (low : 0 ≤ t) (high : t ≤ 1) :
    0 ≤ 2 * (q - p) + 2 * bend p q r * t := by
  -- The slope is a mixture of the two differences.
  have mixed : 2 * (q - p) + 2 * bend p q r * t = 2 * ((1 - t) * (q - p) + t * (r - q)) := by
    rw [bend_eq]
    ring
  have left := mul_nonneg (sub_nonneg.mpr high) (sub_nonneg.mpr first)
  have right := mul_nonneg low (sub_nonneg.mpr second)
  rw [mixed]
  exact mul_nonneg zero_le_two (add_nonneg left right)

end Coefficients

section Lookup

variable {s : Segment ℝ} {control : Point ℝ} {t : ℝ}

/-- The x values of a quadratic curve bend clearly or not at all. -/
def Clear (s : Segment ℝ) (control : Point ℝ) : Prop :=
  bend s.start.x control.x s.finish.x = 0 ∨ 1e-12 ≤ |bend s.start.x control.x s.finish.x|

/-- The parameter that is found for a point of a curve is the one with which it is drawn. -/
theorem bezierParameter_bezier (wide : s.start.x < s.finish.x) (before : s.start.x ≤ control.x)
    (behind : control.x ≤ s.finish.x) (clear : s.Clear control) (low : 0 ≤ t) (high : t ≤ 1) :
    s.bezierParameter control (bezier s.start.x control.x s.finish.x t) = t := by
  have tiny : (0 : ℝ) < 1e-12 := by norm_num
  have four : (4.0 : ℝ) = 4 := by norm_num
  unfold bezierParameter
  simp only [Scalar.magnitude_eq_abs, Scalar.larger_eq_max, Scalar.zero_eq, Scalar.one_eq,
    Scalar.two_eq, four, Analytic.root_eq_sqrt]
  rw [← bend_eq, discriminant_eq]
  by_cases straight : bend s.start.x control.x s.finish.x = 0
  · -- The control value is the middle one, so that the x values rise.
    have rises : 2 * (control.x - s.start.x) ≠ 0 := by
      rw [bend_eq] at straight
      linarith
    have flat : ¬Scalar.same (2 * (control.x - s.start.x)) 0 = true := mt Scalar.same_iff.mp rises
    have share : -(s.start.x - bezier s.start.x control.x s.finish.x t) /
        (2 * (control.x - s.start.x)) = t := by
      rw [bezier_eq_powers, straight, zero_mul, add_zero, neg_sub, add_sub_cancel_left]
      exact mul_div_cancel_left₀ t rises
    rw [straight, abs_zero, if_pos tiny, if_neg flat, share, Scalar.clampUnit_eq low high]
  · -- The slope is the root of its square, which makes the parameter the first of two candidates.
    have slope := slope_nonneg before behind low high
    have candidate : (-(2 * (control.x - s.start.x)) + (2 * (control.x - s.start.x) +
        2 * bend s.start.x control.x s.finish.x * t)) /
          (2 * bend s.start.x control.x s.finish.x) = t := by
      rw [neg_add_cancel_left]
      exact mul_div_cancel_left₀ t (mul_ne_zero two_ne_zero straight)
    have within : (-1e-9 : ℝ) ≤ t ∧ t ≤ 1 + 1e-9 := by
      constructor <;> norm_num <;> linarith
    rw [if_neg (not_lt.mpr (clear.resolve_left straight)), max_eq_left (sq_nonneg _),
      Real.sqrt_sq slope, candidate, if_pos within, Scalar.clampUnit_eq low high]

/-- At the x value of a point of a quadratic curve a segment has the height of the point. -/
theorem valueAt_bezier (onward : s.Onward) (shape : s.shape = .quadratic control)
    (wide : s.start.x < s.finish.x) (clear : s.Clear control) (low : 0 ≤ t) (high : t ≤ 1) :
    s.valueAt (bezier s.start.x control.x s.finish.x t) =
      bezier s.start.y control.y s.finish.y t := by
  -- On a segment that takes time the value is that at the parameter, which has been found above.
  obtain ⟨before, behind⟩ := onward.control control shape
  have broad : ¬s.width ≤ 0.0 := by
    rw [Scalar.zero_eq, not_le]
    exact sub_pos.mpr wide
  rw [valueAt, if_neg broad, shape]
  dsimp only
  rw [bezierParameter_bezier wide before behind clear low high]

/-- Wherever a quadratic curve is drawn, its lookup gives back what is drawn: at the x value of each
of its points a segment has the height of the point, so all points that stand for the segment lie on
its graph, which begins and ends as high as the segment does. -/
theorem valueAt_retraces (valid : s.Valid) (shape : s.shape = .quadratic control)
    (wide : s.start.x < s.finish.x) (clear : s.Clear control) :
    (∀ t, 0 ≤ t → t ≤ 1 → s.valueAt (bezier s.start.x control.x s.finish.x t) =
        bezier s.start.y control.y s.finish.y t) ∧
      (∀ fidelity, ∀ p ∈ s.approximate fidelity, s.valueAt p.x = p.y) ∧
      s.valueAt s.start.x = s.start.y ∧ s.valueAt s.finish.x = s.finish.y := by
  have onward := valid.onward
  -- Points along the curve are read back at their own parameter.
  have drawn : ∀ t, 0 ≤ t → t ≤ 1 → s.valueAt (s.along t).x = (s.along t).y := by
    intro t low high
    simp only [along, shape]
    exact valueAt_bezier onward shape wide clear low high
  refine ⟨fun t low high => valueAt_bezier onward shape wide clear low high, ?_, ?_, ?_⟩
  · intro fidelity
    obtain ⟨count, share, walk, points⟩ := valid.fitting.exists_walk fidelity
    rw [points]
    exact walk.forall_mem drawn
  · simpa [along_zero] using drawn 0 le_rfl zero_le_one
  · simpa [along_one] using drawn 1 zero_le_one le_rfl

/-- A fall that starts level and ends upright is retraced, and so is an arch over its middle. -/
theorem valueAt_retraces_bent :
    let fall : Segment ℝ := ⟨⟨1, 1⟩, ⟨2, 0⟩, .quadratic ⟨2, 1⟩⟩
    let arch : Segment ℝ := ⟨⟨0, 0⟩, ⟨2, 0⟩, .quadratic ⟨1, 1⟩⟩
    (fall.Valid ∧ fall.Clear ⟨2, 1⟩ ∧ fall.valueAt (7 / 4) = 3 / 4) ∧
      (arch.Valid ∧ arch.Clear ⟨1, 1⟩ ∧ arch.valueAt 1 = 1 / 2) := by
  intro fall arch
  have upright : fall.Valid := by
    constructor <;> norm_num [fall, checkShape, ExactScalar.finite]
  have level : arch.Valid := by
    constructor <;> norm_num [arch, checkShape, ExactScalar.finite]
  -- The first curve has a bend to solve for, the second one none.
  have bent : fall.Clear ⟨2, 1⟩ := by
    norm_num [Clear, bend_eq, fall]
  have straight : arch.Clear ⟨1, 1⟩ := by
    norm_num [Clear, bend_eq, arch]
  have first := (valueAt_retraces upright rfl (by norm_num [fall]) bent).1 (1 / 2)
    (by norm_num) (by norm_num)
  have second := (valueAt_retraces level rfl (by norm_num [arch]) straight).1 (1 / 2)
    (by norm_num) (by norm_num)
  norm_num [fall, arch, bezier] at first second
  refine ⟨⟨upright, bent, ?_⟩, level, straight, ?_⟩
  · norm_num [fall, first]
  · norm_num [arch, second]

end Lookup

end Melody.Segment
