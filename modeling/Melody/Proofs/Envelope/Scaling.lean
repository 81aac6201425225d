import Melody.Proofs.Envelope.Extent

/-! Scaling the heights of an envelope scales its values and leaves everything else as it is. -/

namespace Melody

variable {α : Type} [ExactScalar α]

namespace Segment

variable {factor : α}

/-- The x values of the points of a segment. -/
def xs (s : Segment α) : List α :=
  match s.shape with
  | .linear => [s.start.x, s.finish.x]
  | .exponential _ => [s.start.x, s.finish.x]
  | .quadratic control => [s.start.x, control.x, s.finish.x]

section Curves

/-- A line between scaled heights has scaled heights. -/
theorem lerp_mul (start finish t factor : α) :
    lerp (start * factor) (finish * factor) t = factor * lerp start finish t := by
  rw [lerp, lerp]
  ring

/-- A quadratic curve through scaled heights has scaled heights. -/
theorem bezier_mul (p q r t factor : α) :
    bezier (p * factor) (q * factor) (r * factor) t = factor * bezier p q r t := by
  rw [bezier, bezier]
  ring

/-- The base of a curve is a matter of proportions, which do not depend on the scale of heights. -/
theorem exponentialBase?_scaleY (s : Segment α) (middle : α) (some : factor ≠ 0) :
    (s.scaleY factor).exponentialBase? (middle * factor) = s.exponentialBase? middle := by
  have rise : (s.scaleY factor).finish.y - (s.scaleY factor).start.y =
      (s.finish.y - s.start.y) * factor :=
    (sub_mul ..).symm
  have part : middle * factor - (s.scaleY factor).start.y = (middle - s.start.y) * factor :=
    (sub_mul ..).symm
  -- Neither whether there is a rise nor the share of it that comes first has changed.
  have flat : Scalar.same ((s.finish.y - s.start.y) * factor) 0.0 =
      Scalar.same (s.finish.y - s.start.y) 0.0 := by
    rw [Bool.eq_iff_iff, Scalar.same_iff, Scalar.same_iff, Scalar.zero_eq, mul_eq_zero,
      or_iff_left some]
  simp only [exponentialBase?, rise, part, flat, mul_div_mul_right _ _ some]

/-- The scaled curve has scaled heights, whatever powers of its base are. -/
theorem exponentialAt_scaleY (s : Segment α) (middle factor t : α) :
    (s.scaleY factor).exponentialAt (middle * factor) t = factor * s.exponentialAt middle t := by
  by_cases none : factor = 0
  · -- All heights are zero, on a curve without a rise.
    subst none
    have flat : (s.scaleY 0).exponentialBase? (middle * 0) = .none := by
      rw [exponentialBase?]
      exact if_pos (Scalar.same_iff.mpr (by simp [scaleY, Point.scaleY]))
    rw [exponentialAt, flat]
    simp [lerp, scaleY, Point.scaleY]
  · rw [exponentialAt, exponentialAt, exponentialBase?_scaleY s middle none]
    cases s.exponentialBase? middle with
    | none => exact lerp_mul ..
    | some base =>
      simp only [scaleY, Point.scaleY]
      ring

/-- A segment with scaled heights has scaled values. -/
theorem valueAt_scaleY (s : Segment α) (factor x : α) :
    (s.scaleY factor).valueAt x = factor * s.valueAt x := by
  have width : (s.scaleY factor).width = s.width := rfl
  rw [valueAt, valueAt, width]
  by_cases jump : s.width ≤ 0.0
  · rw [if_pos jump, if_pos jump]
    exact mul_comm ..
  · rw [if_neg jump, if_neg jump]
    -- A curve is followed to the same parameter, which only depends on x values.
    cases shape : s.shape with
    | linear =>
      simp only [scaleY, shape]
      exact lerp_mul ..
    | exponential middle =>
      have still := s.exponentialAt_scaleY middle factor
      simp only [scaleY, shape] at still ⊢
      exact still _
    | quadratic control =>
      simp only [scaleY, shape]
      exact bezier_mul ..

/-- Scaling moves no point of a segment to the side. -/
theorem xs_scaleY (s : Segment α) (factor : α) : (s.scaleY factor).xs = s.xs := by
  unfold xs scaleY
  cases s.shape <;> rfl

/-- To scale heights twice is to scale them by the product. -/
theorem scaleY_scaleY (s : Segment α) (factor other : α) :
    (s.scaleY factor).scaleY other = s.scaleY (factor * other) := by
  unfold scaleY
  cases s.shape <;> simp only [Point.scaleY, mul_assoc]

end Curves

end Segment

namespace Envelope

/-- At every x value the same segment counts. -/
theorem segmentAt_scaleY (envelope : Envelope α) (factor x : α) :
    (envelope.scaleY factor).segmentAt x = (envelope.segmentAt x).scaleY factor := by
  have first : (envelope.scaleY factor).first = envelope.first.scaleY factor :=
    List.head_map ..
  rw [segmentAt, segmentAt, first, scaleY, ← List.map_reverse, List.find?_map,
    Option.getD_map]
  rfl

/-- Scaling the heights of an envelope, also by zero or by a negative factor, scales its value at
every x value, moves no point to the side, leaves neighbours joined, and is the same in two steps as
in one. -/
theorem scaleY_commutes (envelope : Envelope α) (factor : α) :
    (∀ x, (envelope.scaleY factor).valueAt x = factor * envelope.valueAt x) ∧
      (envelope.scaleY factor).segments.map Segment.xs = envelope.segments.map Segment.xs ∧
      (Joined envelope.segments → Joined (envelope.scaleY factor).segments) ∧
      ∀ other, (envelope.scaleY factor).scaleY other = envelope.scaleY (factor * other) := by
  refine ⟨fun x => ?_, ?_, fun joined => joined.scaleY factor, fun other => ?_⟩
  · -- The place where the envelope is read does not depend on any height.
    have start : (envelope.scaleY factor).minX = envelope.minX := by
      simp [minX, first, scaleY, Segment.scaleY, Point.scaleY]
    rw [valueAt, valueAt, start, maxX_scaleY, segmentAt_scaleY, Segment.valueAt_scaleY]
  · simp only [scaleY, List.map_map]
    exact List.map_congr_left fun s _ => s.xs_scaleY factor
  · simp only [scaleY, List.map_map, mk.injEq]
    exact List.map_congr_left fun s _ => s.scaleY_scaleY factor other

/-- An exponential rise, a jump down and a fall are turned over, also where the jump is. -/
theorem scaleY_commutes_plucked :
    let plucked : Envelope ℝ := ⟨[⟨⟨0, 0⟩, ⟨1, 1⟩, .exponential (1 / 4)⟩,
      ⟨⟨1, 1⟩, ⟨1, 1 / 2⟩, .linear⟩, ⟨⟨1, 1 / 2⟩, ⟨2, 0⟩, .linear⟩], List.cons_ne_nil _ _⟩
    Joined plucked.segments ∧ Joined (plucked.scaleY (-2)).segments ∧
      plucked.valueAt 1 = 1 / 2 ∧ (plucked.scaleY (-2)).valueAt 1 = -1 := by
  intro plucked
  have joined : Joined plucked.segments := by
    constructor
    · norm_num [plucked]
    · simp [plucked]
  have height : plucked.valueAt 1 = 1 / 2 := by
    norm_num [plucked, valueAt, minX, maxX, first, last, segmentAt, Segment.valueAt,
      Segment.width, Segment.lerp, Scalar.clampUnit]
  -- The scaled envelope is read through the one that it was made from.
  obtain ⟨scaled, _, keeps, _⟩ := scaleY_commutes plucked (-2)
  refine ⟨joined, keeps joined, height, ?_⟩
  rw [scaled, height]
  norm_num

end Envelope

end Melody
