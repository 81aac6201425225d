import Melody.Proofs.Envelope.Extent

/-! The points that stand for a curve lead along it from its start to its end and never go back. -/

namespace Melody

namespace Segment

section Walking

variable {α : Type} [ExactScalar α] {s : Segment α} {control : Point α} {middle t u : α}

/-- Shares of a way that lead up from none to all of it in a number of points. -/
structure Walk (count : Nat) (share : Nat → α) : Prop where
  some : 2 ≤ count
  starts : share 0 = 0
  ends : share (count - 1) = 1
  ordered : ∀ i j, i ≤ j → j < count → share i ≤ share j

namespace Walk

variable {count : Nat} {share : Nat → α} {curve : α → Point α}

/-- No point stands before the start or behind the end. -/
theorem mem (walk : Walk count share) {i : Nat} (counted : i < count) :
    0 ≤ share i ∧ share i ≤ 1 := by
  have low := walk.ordered 0 i (Nat.zero_le i) counted
  have high := walk.ordered i (count - 1) (by omega) (by omega)
  exact ⟨walk.starts ▸ low, walk.ends ▸ high⟩

/-- Points at equal steps make a walk. -/
theorem equal (some : 2 ≤ count) :
    Walk count fun i => (i : α) / ((count - 1 : Nat) : α) where
  some := some
  starts := by rw [Nat.cast_zero, zero_div]
  ends := div_self (Nat.cast_ne_zero.mpr (by omega))
  ordered := fun _ _ before _ =>
    div_le_div_of_nonneg_right (Nat.cast_le.mpr before) (Nat.cast_nonneg _)

/-- A walk begins where the curve does. -/
theorem head? (walk : Walk count share) (curve : α → Point α) :
    ((List.range count).map fun i => curve (share i)).head? = .some (curve 0) := by
  obtain ⟨more, rfl⟩ := Nat.exists_eq_succ_of_ne_zero (Nat.ne_zero_of_lt walk.some)
  rw [List.range_succ_eq_map, List.map_cons, List.head?_cons, walk.starts]

/-- A walk ends where the curve does. -/
theorem getLast? (walk : Walk count share) (curve : α → Point α) :
    ((List.range count).map fun i => curve (share i)).getLast? = .some (curve 1) := by
  obtain ⟨more, rfl⟩ := Nat.exists_eq_succ_of_ne_zero (Nat.ne_zero_of_lt walk.some)
  have last : share more = 1 := walk.ends
  rw [List.range_succ, List.map_append, List.map_singleton, List.getLast?_concat, last]

/-- What holds of any two points along the curve holds of those of a walk. -/
theorem pairwise (walk : Walk count share) {related : Point α → Point α → Prop}
    (along : ∀ t u, 0 ≤ t → t ≤ u → u ≤ 1 → related (curve t) (curve u)) :
    ((List.range count).map fun i => curve (share i)).Pairwise related := by
  refine List.pairwise_map.mpr (List.pairwise_lt_range.imp_of_mem ?_)
  intro i j _ counted before
  have counted := List.mem_range.mp counted
  exact along _ _ (walk.mem (before.trans counted)).1 (walk.ordered i j before.le counted)
    (walk.mem counted).2

/-- What holds of all points along the curve holds of those of a walk. -/
theorem forall_mem (walk : Walk count share) {holds : Point α → Prop}
    (along : ∀ t, 0 ≤ t → t ≤ 1 → holds (curve t)) :
    ∀ p ∈ (List.range count).map fun i => curve (share i), holds p := by
  refine List.forall_mem_map.mpr fun i counted => ?_
  obtain ⟨low, high⟩ := walk.mem (List.mem_range.mp counted)
  exact along _ low high

end Walk

/-- The point of the curve of a segment at a parameter. -/
def along (s : Segment α) (t : α) : Point α :=
  match s.shape with
  | .linear => ⟨lerp s.start.x s.finish.x t, lerp s.start.y s.finish.y t⟩
  | .exponential middle => ⟨lerp s.start.x s.finish.x t, s.exponentialAt middle t⟩
  | .quadratic control =>
    ⟨bezier s.start.x control.x s.finish.x t, bezier s.start.y control.y s.finish.y t⟩

section Ends

/-- A line begins at its first end. -/
@[simp] theorem lerp_zero (p q : α) : lerp p q 0 = p := by
  simp [lerp]

/-- A line ends at its second end. -/
@[simp] theorem lerp_one (p q : α) : lerp p q 1 = q := by
  simp [lerp]

/-- A quadratic curve begins at its first point. -/
@[simp] theorem bezier_zero (p q r : α) : bezier p q r 0 = p := by
  simp [bezier]

/-- A quadratic curve ends at its last point. -/
@[simp] theorem bezier_one (p q r : α) : bezier p q r 1 = r := by
  simp [bezier]

end Ends

/-- A straight line between two values goes from one towards the other. -/
theorem lerp_le_lerp {p q : α} (forward : p ≤ q) (before : t ≤ u) : lerp p q t ≤ lerp p q u :=
  add_le_add_right (mul_le_mul_of_nonneg_left before (sub_nonneg.mpr forward)) p

/-- A line whose ends fall never rises. -/
theorem lerp_le_lerp_of_ge {p q : α} (back : q ≤ p) (before : t ≤ u) : lerp p q u ≤ lerp p q t :=
  add_le_add_right (mul_le_mul_of_nonpos_left before (sub_nonpos.mpr back)) p

/-- A quadratic curve between values that do not go back goes from the first towards the last. -/
theorem bezier_le_bezier {p q r : α} (first : p ≤ q) (second : q ≤ r) (low : 0 ≤ t)
    (before : t ≤ u) (high : u ≤ 1) : bezier p q r t ≤ bezier p q r u := by
  -- What is gained is a sum of products that are not negative.
  have gained : bezier p q r u - bezier p q r t =
      (u - t) * ((2 - (t + u)) * (q - p) + (t + u) * (r - q)) := by
    rw [bezier, bezier, Scalar.one_eq, Scalar.two_eq]
    ring
  have left : 0 ≤ (2 - (t + u)) * (q - p) := mul_nonneg (by linarith) (sub_nonneg.mpr first)
  have right : 0 ≤ (t + u) * (r - q) := mul_nonneg (by linarith) (sub_nonneg.mpr second)
  have gain := mul_nonneg (sub_nonneg.mpr before) (add_nonneg left right)
  rw [← gained] at gain
  exact sub_nonneg.mp gain

/-- Along the curve of a segment the x value never goes back. -/
theorem Onward.along_le (onward : s.Onward) (low : 0 ≤ t) (before : t ≤ u) (high : u ≤ 1) :
    (s.along t).x ≤ (s.along u).x := by
  -- A chord advances evenly; a parabola advances since its control lies between its ends.
  unfold along
  cases shape : s.shape with
  | linear => exact lerp_le_lerp onward.forward before
  | exponential middle => exact lerp_le_lerp onward.forward before
  | quadratic control =>
    obtain ⟨first, second⟩ := onward.control control shape
    exact bezier_le_bezier first second low before high

/-- A curve that has a base rises or falls, and does not have the base of a straight line. -/
theorem base_spec {base : α} (found : s.exponentialBase? middle = some base) :
    s.finish.y - s.start.y ≠ 0 ∧ base ≠ 1 ∧ base =
      ((1 - (middle - s.start.y) / (s.finish.y - s.start.y)) /
        ((middle - s.start.y) / (s.finish.y - s.start.y))) ^ 2 := by
  simp only [exponentialBase?, Option.ite_none_left_eq_some, Option.ite_none_right_eq_some,
    Option.some.injEq] at found
  obtain ⟨rises, far, same⟩ := found
  rw [same, Bool.and_eq_true, decide_eq_true_iff, Scalar.magnitude_eq_abs, Scalar.one_eq] at far
  -- Two conditions guard the base: the segment rises or falls, and the base is not close to one.
  refine ⟨fun flat => rises (Scalar.same_iff.mpr (flat.trans Scalar.zero_eq.symm)), ?_, ?_⟩
  · rintro rfl
    have small : (0 : α) ≤ 1e-9 := by
      rw [ExactScalar.literal]
      norm_num
    rw [sub_self, abs_zero] at far
    exact absurd far.2 (not_lt.mpr small)
  · rw [← same, Scalar.one_eq, sq]

end Walking

section Exponentials

variable {s : Segment ℝ} {middle base t u : ℝ}

/-- The middle value of an exponential curve lies strictly between its ends, unless these are
equally high. -/
def Fitting (s : Segment ℝ) : Prop :=
  ∀ middle, s.shape = .exponential middle → s.start.y ≠ s.finish.y →
    s.start.y < middle ∧ middle < s.finish.y ∨ s.finish.y < middle ∧ middle < s.start.y

/-- Valid segments have fitting middle values. -/
theorem Valid.fitting (valid : s.Valid) : s.Fitting := by
  -- A segment whose middle does not fit has not passed the check of its shape.
  intro middle shape _
  have fits := valid.shape
  rw [shape, checkShape] at fits
  by_contra outside
  rw [if_neg outside] at fits
  contradiction

/-- A curve that is scaled keeps its middle value between its ends, or loses all its height. -/
theorem Fitting.scaleY (fitting : s.Fitting) (factor : ℝ) : (s.scaleY factor).Fitting := by
  intro middle shape rises
  unfold Segment.scaleY at shape
  cases inner : s.shape with
  | linear | quadratic control =>
    rw [inner] at shape
    contradiction
  | exponential before =>
    rw [inner] at shape
    cases shape
    have rose : s.start.y ≠ s.finish.y := fun flat => rises (congrArg (· * factor) flat)
    have between := fitting before inner rose
    -- A negative factor swaps the two orders, and zero would leave no rise.
    rcases lt_trichotomy factor 0 with negative | rfl | positive
    · refine between.symm.imp ?_ ?_
      all_goals exact fun ⟨first, second⟩ =>
        ⟨mul_lt_mul_of_neg_right second negative, mul_lt_mul_of_neg_right first negative⟩
    · exact absurd ((mul_zero _).trans (mul_zero _).symm) rises
    · refine between.imp ?_ ?_
      all_goals exact fun ⟨first, second⟩ =>
        ⟨mul_lt_mul_of_pos_right first positive, mul_lt_mul_of_pos_right second positive⟩

/-- The base of a curve with a fitting middle value is above zero. -/
theorem Fitting.base_pos (fitting : s.Fitting) (shape : s.shape = .exponential middle)
    (found : s.exponentialBase? middle = some base) : 0 < base := by
  obtain ⟨rises, _, rfl⟩ := base_spec found
  -- The middle value takes a share of the rise that is neither none nor all of it.
  have share : 0 < (middle - s.start.y) / (s.finish.y - s.start.y) ∧
      0 < 1 - (middle - s.start.y) / (s.finish.y - s.start.y) := by
    rw [one_sub_div rises, sub_sub_sub_cancel_right]
    rcases fitting middle shape (Ne.symm (sub_ne_zero.mp rises)) with
      ⟨above, below⟩ | ⟨below, above⟩
    · have rise : 0 < s.finish.y - s.start.y := by linarith
      exact ⟨div_pos (by linarith) rise, div_pos (by linarith) rise⟩
    · have fall : s.finish.y - s.start.y < 0 := by linarith
      exact ⟨div_pos_of_neg_of_neg (by linarith) fall, div_pos_of_neg_of_neg (by linarith) fall⟩
  exact pow_pos (div_pos share.2 share.1) 2

/-- An exponential curve begins at the start of its segment. -/
theorem exponentialAt_zero (s : Segment ℝ) (middle : ℝ) :
    s.exponentialAt middle 0 = s.start.y := by
  unfold exponentialAt
  cases s.exponentialBase? middle with
  | none => exact lerp_zero ..
  | some base => simp

/-- An exponential curve ends at the end of its segment. -/
theorem exponentialAt_one (s : Segment ℝ) (middle : ℝ) :
    s.exponentialAt middle 1 = s.finish.y := by
  -- At the end the power has run through the whole base, and the base is not one.
  unfold exponentialAt
  cases found : s.exponentialBase? middle with
  | none => exact lerp_one ..
  | some base =>
    have other : base - 1 ≠ 0 := sub_ne_zero.mpr (base_spec found).2.1
    simp [mul_div_cancel_right₀ _ other]

/-- A curve that is not quadratic rises or falls as a line does to a share that never goes back. -/
theorem Fitting.along_height (fitting : s.Fitting)
    (plain : ∀ control, s.shape ≠ .quadratic control) : ∃ growth : ℝ → ℝ, Monotone growth ∧
      ∀ t, (s.along t).y = lerp s.start.y s.finish.y (growth t) := by
  unfold along
  cases shape : s.shape with
  | linear => exact ⟨id, monotone_id, fun _ => rfl⟩
  | quadratic control => exact absurd shape (plain control)
  | exponential middle =>
    show ∃ growth : ℝ → ℝ, Monotone growth ∧
      ∀ t, s.exponentialAt middle t = lerp s.start.y s.finish.y (growth t)
    unfold exponentialAt
    cases found : s.exponentialBase? middle with
    | none => exact ⟨id, monotone_id, fun _ => rfl⟩
    | some base =>
      refine ⟨fun t => (base ^ t - 1) / (base - 1), fun t u before => ?_, fun t => ?_⟩
      · -- Powers of a base below one fall, and so does what they are divided by.
        rcases lt_or_gt_of_ne (base_spec found).2.1 with below | above
        · have powers := Real.strictAnti_rpow_of_base_lt_one (fitting.base_pos shape found) below
          exact div_le_div_of_nonpos_of_le (sub_nonpos.mpr below.le)
            (sub_le_sub_right (powers.antitone before) 1)
        · have powers := Real.strictMono_rpow_of_base_gt_one above
          exact div_le_div_of_nonneg_right (sub_le_sub_right (powers.monotone before) 1)
            (sub_nonneg.mpr above.le)
      · simp only [Analytic.power_eq_rpow, Scalar.one_eq, lerp, mul_div_assoc]

end Exponentials

section Turning

variable {slope base : ℝ}

/-- The angle of the tangent of an exponential curve at a parameter. -/
noncomputable def angle (slope base t : ℝ) : ℝ :=
  Real.arctan (slope * base ^ t)

/-- The tangent turns one way all along the curve. -/
theorem angle_strict (some : slope ≠ 0) (positive : 0 < base) (other : base ≠ 1) :
    StrictMono (angle slope base) ∨ StrictAnti (angle slope base) := by
  -- The powers go one way, and a falling curve turns the other way than a rising one.
  rcases lt_or_gt_of_ne other with below | above
  · have powers := Real.strictAnti_rpow_of_base_lt_one positive below
    rcases lt_or_gt_of_ne some with falling | rising
    · exact .inl (Real.arctan_strictMono.comp (powers.const_mul_of_neg falling))
    · exact .inr (Real.arctan_strictMono.comp_strictAnti (powers.const_mul rising))
  · have powers := Real.strictMono_rpow_of_base_gt_one above
    rcases lt_or_gt_of_ne some with falling | rising
    · exact .inr (Real.arctan_strictMono.comp_strictAnti (powers.const_mul_of_neg falling))
    · exact .inl (Real.arctan_strictMono.comp (powers.const_mul rising))

/-- The parameter is read off the angle. -/
theorem log_tan_angle (some : slope ≠ 0) (positive : 0 < base) (other : base ≠ 1) (t : ℝ) :
    Real.log (Real.tan (angle slope base t) / slope) / Real.log base = t := by
  have scale : Real.log base ≠ 0 := Real.log_ne_zero_of_pos_of_ne_one positive other
  rw [angle, Real.tan_arctan, mul_div_cancel_left₀ _ some, Real.log_rpow positive,
    mul_div_cancel_right₀ _ scale]

/-- Every share of the turn is made somewhere on the curve. -/
theorem exists_angle (positive : 0 < base) {share : ℝ} (low : 0 ≤ share) (high : share ≤ 1) :
    ∃ t, 0 ≤ t ∧ t ≤ 1 ∧ angle slope base t =
      angle slope base 0 + (angle slope base 1 - angle slope base 0) * share := by
  have continuous : Continuous (angle slope base) :=
    Real.continuous_arctan.comp (continuous_const.mul (Real.continuous_const_rpow positive.ne'))
  have between : angle slope base 0 + (angle slope base 1 - angle slope base 0) * share ∈
      Set.uIcc (angle slope base 0) (angle slope base 1) := by
    -- What is left of the turn is made towards the other end.
    generalize angle slope base 0 = first
    generalize angle slope base 1 = last
    rcases le_total first last with up | down
    · rw [Set.uIcc_of_le up]
      have turn : 0 ≤ last - first := sub_nonneg.mpr up
      have part := mul_le_of_le_one_right turn high
      exact ⟨le_add_of_nonneg_right (mul_nonneg turn low), by linarith⟩
    · rw [Set.uIcc_of_ge down]
      have turn : last - first ≤ 0 := sub_nonpos.mpr down
      have part := le_mul_of_le_one_right turn high
      exact ⟨by linarith, add_le_of_nonpos_right (mul_nonpos_of_nonpos_of_nonneg turn low)⟩
  obtain ⟨t, inside, same⟩ := intermediate_value_uIcc continuous.continuousOn between
  rw [Set.uIcc_of_le zero_le_one] at inside
  exact ⟨t, inside.1, inside.2, same⟩

/-- A point has as large a share of the turn behind it as of the steps. -/
theorem angle_turned (some : slope ≠ 0) (positive : 0 < base) (other : base ≠ 1) {count i : Nat}
    (counted : i < count) :
    (0 ≤ turned slope base count i ∧ turned slope base count i ≤ 1) ∧
      angle slope base (turned slope base count i) = angle slope base 0 +
        (angle slope base 1 - angle slope base 0) * ((i : ℝ) / ((count - 1 : Nat) : ℝ)) := by
  simp only [turned, Scalar.zero_eq, Scalar.one_eq, Analytic.arctangent_eq_arctan,
    Analytic.tangent_eq_tan, Analytic.ln_eq_log]
  by_cases first : i = 0
  · rw [if_pos first, first, Nat.cast_zero, zero_div, mul_zero, add_zero]
    exact ⟨⟨le_rfl, zero_le_one⟩, rfl⟩
  · rw [if_neg first]
    by_cases last : i + 1 = count
    · have whole : (i : ℝ) / ((count - 1 : Nat) : ℝ) = 1 := by
        rw [← last, Nat.add_sub_cancel]
        exact div_self (Nat.cast_ne_zero.mpr first)
      rw [if_pos last, whole, mul_one, add_sub_cancel]
      exact ⟨⟨zero_le_one, le_rfl⟩, rfl⟩
    · rw [if_neg last]
      obtain ⟨low, high⟩ := step_mem (α := ℝ) counted
      obtain ⟨t, above, below, made⟩ := @exists_angle slope base positive _ low high
      -- The angle is that of a parameter, which is what is computed from it.
      have here : Real.arctan slope + (Real.arctan (slope * base) - Real.arctan slope) * (i : ℝ) /
          ((count - 1 : Nat) : ℝ) = angle slope base t := by
        rw [made, angle, angle, Real.rpow_zero, Real.rpow_one, mul_one, mul_div_assoc]
      rw [here, log_tan_angle some positive other, Scalar.clampUnit_eq above below]
      exact ⟨⟨above, below⟩, made⟩

/-- Points at equal steps of the angle walk along the curve. -/
theorem walk_turned (some : slope ≠ 0) (positive : 0 < base) (other : base ≠ 1) {count : Nat}
    (many : 2 ≤ count) : Walk count (turned slope base count) where
  some := many
  starts := by simp [turned]
  ends := by
    rw [turned, if_neg (by omega), if_pos (by omega), Scalar.one_eq]
  ordered := by
    intro i j before counted
    obtain ⟨_, one⟩ := angle_turned some positive other (before.trans_lt counted)
    obtain ⟨_, two⟩ := angle_turned some positive other counted
    have steps : (i : ℝ) / ((count - 1 : Nat) : ℝ) ≤ (j : ℝ) / ((count - 1 : Nat) : ℝ) :=
      (Walk.equal many).ordered i j before counted
    -- The larger share of the turn is farther along, whichever way the tangent turns.
    rcases angle_strict some positive other with up | down
    · have turn : 0 ≤ angle slope base 1 - angle slope base 0 :=
        sub_nonneg.mpr (up.monotone zero_le_one)
      rw [← up.le_iff_le, one, two]
      exact add_le_add_right (mul_le_mul_of_nonneg_left steps turn) _
    · have turn : angle slope base 1 - angle slope base 0 ≤ 0 :=
        sub_nonpos.mpr (down.antitone zero_le_one)
      rw [← down.le_iff_ge, one, two]
      exact add_le_add_right (mul_le_mul_of_nonpos_left steps turn) _

end Turning

section Points

variable {s : Segment ℝ} {middle base : ℝ}

/-- The points of an exponential curve are those of a walk along it. -/
theorem exponentialPoints_walk (positive : 0 < base) (wide : 0 < s.width)
    (found : s.exponentialBase? middle = some base) (fidelity : ℝ) :
    Walk (pointCount (s.exponentialTurn base) fidelity)
      (turned (s.slope base) base (pointCount (s.exponentialTurn base) fidelity)) := by
  -- The slope neither vanishes nor is it divided by zero, since the base is positive and not one.
  obtain ⟨rises, other, _⟩ := base_spec found
  have slope : s.slope base ≠ 0 := by
    rw [Segment.slope, Scalar.one_eq]
    exact div_ne_zero (mul_ne_zero rises (Real.log_ne_zero_of_pos_of_ne_one positive other))
      (mul_ne_zero (sub_ne_zero.mpr other) wide.ne')
  exact walk_turned slope positive other (pointCount_mem ..).1

/-- The curve of a segment leads from its start to its end. -/
theorem along_zero (s : Segment ℝ) : s.along 0 = s.start := by
  unfold along
  cases s.shape with
  | linear => simp
  | exponential middle => simp [exponentialAt_zero]
  | quadratic control => simp

/-- At its last parameter a segment is at its end. -/
theorem along_one (s : Segment ℝ) : s.along 1 = s.finish := by
  unfold along
  cases s.shape with
  | linear => simp
  | exponential middle => simp [exponentialAt_one]
  | quadratic control => simp

/-- The points that stand for a segment are those of a walk along its curve. -/
theorem Fitting.exists_walk (fitting : s.Fitting) (fidelity : ℝ) :
    ∃ count share, Walk count share ∧
      s.approximate fidelity = (List.range count).map fun i => s.along (share i) := by
  have ends : ∃ count share, Walk count share ∧
      [s.start, s.finish] = (List.range count).map fun i => s.along (share i) := by
    refine ⟨2, _, .equal (Nat.le_refl 2), ?_⟩
    simp [List.range_succ, along_zero, along_one]
  unfold approximate
  split
  · exact ends
  · rename_i wide
    rw [Scalar.zero_eq, not_le] at wide
    cases shape : s.shape with
    | linear => exact ends
    | exponential middle =>
      dsimp only
      split
      · exact ends
      · cases found : s.exponentialBase? middle with
        | none =>
          -- What has no base is a straight line.
          rw [exponentialPoints, found]
          exact ends
        | some base =>
          have positive := fitting.base_pos shape found
          refine ⟨_, _, exponentialPoints_walk positive wide found fidelity, ?_⟩
          rw [exponentialPoints_eq found]
          simp only [along, shape]
    | quadratic control =>
      dsimp only
      refine ⟨_, _, .equal (pointCount_mem (s.quadraticTurn control) fidelity).1, ?_⟩
      rw [quadraticPoints_eq]
      simp only [along, shape]

/-- On a curve that is not quadratic each point has the height of the segment at its x value. -/
theorem valueAt_along (wide : 0 < s.width) (plain : ∀ control, s.shape ≠ .quadratic control)
    {t : ℝ} (low : 0 ≤ t) (high : t ≤ 1) : s.valueAt (s.along t).x = (s.along t).y := by
  -- The curve is read at the share of the width that the point stands at.
  have share : (lerp s.start.x s.finish.x t - s.start.x) / s.width = t := by
    rw [lerp, add_sub_cancel_left]
    exact mul_div_cancel_left₀ _ wide.ne'
  rw [valueAt, if_neg (by rw [Scalar.zero_eq]; exact not_le.mpr wide)]
  cases shape : s.shape with
  | linear => simp only [along, shape, share, Scalar.clampUnit_eq low high]
  | exponential middle => simp only [along, shape, share, Scalar.clampUnit_eq low high]
  | quadratic control => exact absurd shape (plain control)

/-- Points that lead from the start of a segment to its end and never go back. -/
structure Traces (s : Segment ℝ) (points : List (Point ℝ)) : Prop where
  first : points.head? = some s.start
  last : points.getLast? = some s.finish
  ordered : points.Pairwise fun p q => p.x ≤ q.x
  within : ∀ p ∈ points, s.start.x ≤ p.x ∧ p.x ≤ s.finish.x

/-- Points on the curve of a segment whose heights go one way, from its start to its end. -/
structure Follows (s : Segment ℝ) (points : List (Point ℝ)) : Prop where
  level : ∀ p ∈ points, s.valueAt p.x = p.y
  rising : s.start.y ≤ s.finish.y → points.Pairwise (fun p q => p.y ≤ q.y) ∧
    ∀ p ∈ points, s.start.y ≤ p.y ∧ p.y ≤ s.finish.y
  falling : s.finish.y ≤ s.start.y → points.Pairwise (fun p q => q.y ≤ p.y) ∧
    ∀ p ∈ points, s.finish.y ≤ p.y ∧ p.y ≤ s.start.y

/-- The points that stand for a segment trace it. -/
theorem Onward.traces (onward : s.Onward) (fitting : s.Fitting) (fidelity : ℝ) :
    s.Traces (s.approximate fidelity) where
  first := by
    -- The walk starts at the parameter zero, and ends at one.
    obtain ⟨count, share, walk, points⟩ := fitting.exists_walk fidelity
    rw [points, walk.head?, along_zero]
  last := by
    obtain ⟨count, share, walk, points⟩ := fitting.exists_walk fidelity
    rw [points, walk.getLast?, along_one]
  ordered := by
    obtain ⟨count, share, walk, points⟩ := fitting.exists_walk fidelity
    rw [points]
    exact walk.pairwise fun t u low before high => onward.along_le low before high
  within := onward.approximate_mem fidelity

/-- The points that stand for a segment with a straight or exponential curve follow it. -/
theorem Fitting.follows (fitting : s.Fitting) (wide : 0 < s.width)
    (plain : ∀ control, s.shape ≠ .quadratic control) (fidelity : ℝ) :
    s.Follows (s.approximate fidelity) := by
  obtain ⟨count, share, walk, points⟩ := fitting.exists_walk fidelity
  obtain ⟨growth, grows, height⟩ := fitting.along_height plain
  -- Along the segment heights go from one end to the other, as fast as the shape lets them.
  have begins : (s.along 0).y = s.start.y := congrArg Point.y s.along_zero
  have ends : (s.along 1).y = s.finish.y := congrArg Point.y s.along_one
  rw [points]
  constructor
  · exact walk.forall_mem fun t low high => valueAt_along wide plain low high
  · intro rises
    have up : ∀ {t u}, t ≤ u → (s.along t).y ≤ (s.along u).y := by
      intro t u before
      rw [height, height]
      exact lerp_le_lerp rises (grows before)
    exact ⟨walk.pairwise fun t u _ before _ => up before,
      walk.forall_mem fun t low high => ⟨begins ▸ up low, ends ▸ up high⟩⟩
  · intro falls
    have down : ∀ {t u}, t ≤ u → (s.along u).y ≤ (s.along t).y := by
      intro t u before
      rw [height, height]
      exact lerp_le_lerp_of_ge falls (grows before)
    exact ⟨walk.pairwise fun t u _ before _ => down before,
      walk.forall_mem fun t low high => ⟨ends ▸ down high, begins ▸ down low⟩⟩

end Points

end Segment

namespace Envelope

open Segment

/-- Every envelope that can be made has fitting middle values. -/
theorem Made.fitting {envelope : Envelope ℝ} (made : envelope.Made) :
    ∀ s ∈ envelope.segments, s.Fitting := by
  -- Construction checks each segment, lines need no middle, and a factor keeps middles between.
  induction made with
  | ofSegments valid made =>
    exact fun s member => ((joined_of_ofSegments valid made).2 s member).fitting
  | polyline points ordered =>
    have valid := (joined_lines (points _ (List.mem_cons_self ..)) ordered).2
    exact fun s member => (valid s member).fitting
  | scaleY _ factor ih => exact List.forall_mem_map.mpr fun s member => (ih s member).scaleY factor

/-- The points that stand for an envelope never go back. -/
theorem Made.approximation_ordered {envelope : Envelope ℝ} (made : envelope.Made) (fidelity : ℝ) :
    (envelope.approximation fidelity).Pairwise fun p q => p.x ≤ q.x := by
  have traces : ∀ s ∈ envelope.segments, s.Traces (s.approximate fidelity) :=
    fun s member => (made.onward s member).traces (made.fitting s member) fidelity
  -- Within a segment the points never go back, and the next one starts where it ends.
  refine List.Pairwise.sublist (distinct_sublist _) (List.pairwise_flatMap.mpr ⟨?_, ?_⟩)
  · exact fun s member => (traces s member).ordered
  · refine made.joined.row.imp_of_mem fun one other before p first q second => ?_
    have ends := ((traces _ one).within p first).2
    have starts := ((traces _ other).within q second).1
    exact ends.trans (before.trans starts)

/-- The points that stand for a segment lead from its start to its end and never go back, on curves
that are not quadratic also in height and with just the values of the segment, so that the events
that play an envelope never go back in time. -/
theorem approximations_advance :
    (∀ s : Segment ℝ, s.Valid → 0 < s.width → ∀ fidelity : ℝ, s.Traces (s.approximate fidelity) ∧
      ((∀ control, s.shape ≠ .quadratic control) → s.Follows (s.approximate fidelity))) ∧
    ∀ envelope : Envelope ℝ, envelope.Made → ∀ transform : Transform ℝ, 0 < transform.scale →
      ∀ fidelity : ℝ,
        ((envelope.events transform fidelity).map ControlEvent.time).Pairwise (· ≤ ·) := by
  constructor
  · intro s valid wide fidelity
    exact ⟨valid.onward.traces valid.fitting fidelity,
      fun plain => valid.fitting.follows wide plain fidelity⟩
  · intro envelope made transform positive fidelity
    rw [events, map_time_eventsAfter, List.pairwise_map]
    exact (made.approximation_ordered fidelity).imp (Transform.time_le_iff positive).mpr

/-- An exponential rise and a quadratic fall behind it are traced, and played without going back. -/
theorem approximations_advance_bent :
    let rise : Segment ℝ := ⟨⟨0, 0⟩, ⟨1, 1⟩, .exponential (1 / 10)⟩
    let fall : Segment ℝ := ⟨⟨1, 1⟩, ⟨2, 0⟩, .quadratic ⟨2, 1⟩⟩
    (rise.Valid ∧ rise.Traces (rise.approximate 20) ∧ rise.Follows (rise.approximate 20)) ∧
      (fall.Valid ∧ fall.Traces (fall.approximate 20)) ∧
      ∃ envelope, ofSegments [rise, fall] = .ok envelope ∧
        ((envelope.events ⟨10, 2⟩ 20).map ControlEvent.time).Pairwise (· ≤ ·) := by
  intro rise fall
  have up : rise.Valid := by
    constructor <;> norm_num [rise, checkShape]
  have down : fall.Valid := by
    constructor <;> norm_num [fall, checkShape, ExactScalar.finite]
  obtain ⟨traces, follows⟩ := approximations_advance.1 rise up (by norm_num [rise, width]) 20
  have falls := (approximations_advance.1 fall down (by norm_num [fall, width]) 20).1
  -- Both segments are valid, and stand one behind the other.
  have valid : ∀ s ∈ [rise, fall], s.Valid :=
    List.forall_mem_cons.mpr ⟨up, List.forall_mem_singleton.mpr down⟩
  have apart : [rise, fall].Pairwise Apart :=
    List.pairwise_pair.mpr (.inl le_rfl)
  obtain ⟨envelope, made⟩ := (ofSegments_exact valid).1.2 ⟨List.cons_ne_nil _ _, apart⟩
  have plays := approximations_advance.2 envelope (.ofSegments valid made) ⟨10, 2⟩ two_pos 20
  exact ⟨⟨up, traces, follows (by simp [rise])⟩, ⟨down, falls⟩, envelope, made, plays⟩

end Envelope

end Melody
