import Mathlib
import Melody.Proofs.Envelope.Automation
import Melody.Proofs.Envelope.Turn

/-! The points that stand for an envelope lie within its extent, and so does its automation. -/

namespace Melody

variable {α : Type} [ExactScalar α]

/-- A limited value lies within the unit interval. -/
theorem Scalar.clampUnit_mem (x : α) : 0 ≤ clampUnit x ∧ clampUnit x ≤ 1 := by
  rw [clampUnit, smaller_eq_min, larger_eq_max, zero_eq, one_eq]
  exact ⟨le_min (le_max_right x 0) zero_le_one, min_le_right _ _⟩

namespace Segment

variable {s : Segment α} {p q r t : α}

/-- On its way from one value to a later one a straight line stays between the two. -/
theorem lerp_mem (forward : p ≤ r) (low : 0 ≤ t) (high : t ≤ 1) :
    p ≤ lerp p r t ∧ lerp p r t ≤ r := by
  have rise : 0 ≤ r - p := sub_nonneg.mpr forward
  have part : (r - p) * t ≤ r - p := mul_le_of_le_one_right rise high
  exact ⟨le_add_of_nonneg_right (mul_nonneg rise low), by rw [lerp]; linarith⟩

/-- A quadratic curve between values that do not go back stays between its ends. -/
theorem bezier_mem (first : p ≤ q) (second : q ≤ r) (low : 0 ≤ t) (high : t ≤ 1) :
    p ≤ bezier p q r t ∧ bezier p q r t ≤ r := by
  have left : 0 ≤ 1 - t := sub_nonneg.mpr high
  have mixed : 0 ≤ 2 * (1 - t) * t := mul_nonneg (mul_nonneg zero_le_two left) low
  -- The weights of the three values are not negative and add up to one.
  have above : bezier p q r t = p + (2 * (1 - t) * t * (q - p) + t * t * (r - p)) := by
    rw [bezier, Scalar.one_eq, Scalar.two_eq]
    ring
  have below : bezier p q r t = r - ((1 - t) * (1 - t) * (r - p) + 2 * (1 - t) * t * (r - q)) := by
    rw [bezier, Scalar.one_eq, Scalar.two_eq]
    ring
  have whole : 0 ≤ r - p := sub_nonneg.mpr (first.trans second)
  constructor
  · rw [above]
    exact le_add_of_nonneg_right (add_nonneg (mul_nonneg mixed (sub_nonneg.mpr first))
      (mul_nonneg (mul_nonneg low low) whole))
  · rw [below]
    exact sub_le_self _ (add_nonneg (mul_nonneg (mul_nonneg left left) whole)
      (mul_nonneg mixed (sub_nonneg.mpr second)))

/-- A segment that starts at zero or later and does not go back, nor does its control point. -/
structure Onward (s : Segment α) : Prop where
  start : 0 ≤ s.start.x
  forward : s.start.x ≤ s.finish.x
  control : ∀ control, s.shape = .quadratic control →
    s.start.x ≤ control.x ∧ control.x ≤ s.finish.x

/-- Valid segments do not go back. -/
theorem Valid.onward (valid : s.Valid) : s.Onward where
  start := valid.start
  forward := valid.forward
  control := by
    intro control quadratic
    have fits := valid.shape
    rw [quadratic, checkShape] at fits
    -- The check of the control point fails on either side of the segment.
    split at fits
    · contradiction
    · split at fits
      · contradiction
      · rename_i within
        rw [not_or, not_lt, not_lt] at within
        exact within

/-- Scaling heights moves no point to the side. -/
theorem Onward.scaleY (onward : s.Onward) (factor : α) : (s.scaleY factor).Onward where
  start := onward.start
  forward := onward.forward
  control := by
    intro control quadratic
    unfold Segment.scaleY at quadratic
    -- Scaling heights leaves the control point at its place.
    cases shape : s.shape with
    | linear | exponential middle =>
      rw [shape] at quadratic
      contradiction
    | quadratic inner =>
      rw [shape] at quadratic
      cases quadratic
      exact onward.control inner shape

/-- One of some points at equal steps stands at a share of the whole. -/
theorem step_mem {i count : Nat} (counted : i < count) :
    (0 : α) ≤ (i : α) / ((count - 1 : Nat) : α) ∧ (i : α) / ((count - 1 : Nat) : α) ≤ 1 := by
  have bound : (i : α) ≤ ((count - 1 : Nat) : α) := Nat.cast_le.mpr (Nat.le_sub_one_of_lt counted)
  exact ⟨div_nonneg (Nat.cast_nonneg _) (Nat.cast_nonneg _),
    div_le_one_of_le₀ bound (Nat.cast_nonneg _)⟩

/-- The ends of a segment lie within its width. -/
theorem Onward.ends_mem (onward : s.Onward) :
    ∀ p ∈ [s.start, s.finish], s.start.x ≤ p.x ∧ p.x ≤ s.finish.x := by
  intro p member
  rcases List.mem_pair.mp member with rfl | rfl
  · exact ⟨le_rfl, onward.forward⟩
  · exact ⟨onward.forward, le_rfl⟩

/-- The points of an exponential curve lie within its width. -/
theorem Onward.exponentialPoints_mem (onward : s.Onward) (middle fidelity : α) :
    ∀ p ∈ s.exponentialPoints middle fidelity, s.start.x ≤ p.x ∧ p.x ≤ s.finish.x := by
  unfold exponentialPoints
  split
  · exact onward.ends_mem
  · intro p member
    obtain ⟨i, _, rfl⟩ := List.mem_map.mp member
    -- Between its ends a point stands at a limited share of the width, whatever its angle.
    have share : ∀ t : α, (t = 0.0 ∨ t = 1.0 ∨ ∃ x, t = Scalar.clampUnit x) → 0 ≤ t ∧ t ≤ 1 := by
      rintro t (rfl | rfl | ⟨x, rfl⟩)
      · simp
      · simp
      · exact Scalar.clampUnit_mem x
    refine (fun within => lerp_mem onward.forward within.1 within.2) (share _ ?_)
    unfold turned
    dsimp only
    split
    · exact Or.inl rfl
    · split
      · exact Or.inr (Or.inl rfl)
      · exact Or.inr (Or.inr ⟨_, rfl⟩)

/-- The points of a quadratic curve lie within its width. -/
theorem Onward.quadraticPoints_mem (onward : s.Onward) {control : Point α}
    (quadratic : s.shape = .quadratic control) (fidelity : α) :
    ∀ p ∈ s.quadraticPoints control fidelity, s.start.x ≤ p.x ∧ p.x ≤ s.finish.x := by
  intro p member
  obtain ⟨i, counted, rfl⟩ := List.mem_map.mp member
  obtain ⟨before, behind⟩ := onward.control control quadratic
  obtain ⟨low, high⟩ := step_mem (α := α) (List.mem_range.mp counted)
  exact bezier_mem before behind low high

/-- The points that stand for a segment lie within its width. -/
theorem Onward.approximate_mem (onward : s.Onward) (fidelity : α) :
    ∀ p ∈ s.approximate fidelity, s.start.x ≤ p.x ∧ p.x ≤ s.finish.x := by
  unfold approximate
  -- Jumps, lines and curves that are too flat have their ends only.
  split
  · exact onward.ends_mem
  · split
    · exact onward.ends_mem
    · split
      · exact onward.ends_mem
      · exact onward.exponentialPoints_mem _ fidelity
    · rename_i quadratic
      exact onward.quadraticPoints_mem quadratic fidelity

/-- The first of the points that stand for a segment is where it starts. -/
theorem approximate_head (s : Segment α) (fidelity : α) :
    ∃ p later, s.approximate fidelity = p :: later ∧ p.x = s.start.x := by
  -- A curve has at least two points, the first of which lies none of the way along it.
  have front : ∀ (turn : α) (place : Nat → Point α), ∃ later,
      (List.range (pointCount turn fidelity)).map place = place 0 :: later := by
    intro turn place
    have some : 0 < pointCount turn fidelity :=
      Nat.zero_lt_two.trans_le (pointCount_mem turn fidelity).1
    obtain ⟨count, more⟩ := Nat.exists_eq_succ_of_ne_zero some.ne'
    rw [more, List.range_succ_eq_map, List.map_cons]
    exact ⟨_, rfl⟩
  unfold approximate
  split
  · exact ⟨s.start, _, rfl, rfl⟩
  · split
    · exact ⟨s.start, _, rfl, rfl⟩
    · split
      · exact ⟨s.start, _, rfl, rfl⟩
      · unfold exponentialPoints
        split
        · exact ⟨s.start, _, rfl, rfl⟩
        · obtain ⟨later, points⟩ := front _ _
          exact ⟨_, later, points, by simp [turned, lerp]⟩
    · obtain ⟨later, points⟩ := front _ _
      exact ⟨_, later, points, by simp [bezier]⟩

end Segment

namespace Envelope

variable {envelope : Envelope α}

/-- The segments of every envelope that can be made do not go back. -/
theorem Made.onward (made : envelope.Made) : ∀ s ∈ envelope.segments, s.Onward := by
  -- Construction checks each segment, lines have no control, and a factor keeps all times.
  induction made with
  | ofSegments valid made =>
    exact fun s member => ((joined_of_ofSegments valid made).2 s member).onward
  | polyline points ordered =>
    have valid := (joined_lines (points _ (List.mem_cons_self ..)) ordered).2
    exact fun s member => (valid s member).onward
  | scaleY _ factor ih => exact List.forall_mem_map.mpr fun s member => (ih s member).scaleY factor

/-- An envelope ends at the same x value when its heights are scaled. -/
theorem maxX_scaleY (envelope : Envelope α) (factor : α) :
    (envelope.scaleY factor).maxX = envelope.maxX := by
  simp [maxX, last, scaleY, Segment.scaleY, Point.scaleY]

/-- Joined segments end where the last of them does, or before. -/
theorem Joined.finish_le {segments : List (Segment α)} (joined : Joined segments)
    (some : segments ≠ []) : ∀ s ∈ segments, s.finish.x ≤ (segments.getLast some).finish.x := by
  induction segments with
  | nil => exact List.forall_mem_nil _
  | cons first later ih =>
    -- The next segment starts no earlier than this one ends, and then goes on.
    cases later with
    | nil => simp
    | cons next rest =>
      rw [List.getLast_cons (List.cons_ne_nil next rest)]
      have others := ih joined.tail (List.cons_ne_nil next rest)
      refine List.forall_mem_cons.mpr ⟨?_, others⟩
      have follows := joined.behind next (List.mem_cons_self ..)
      have forward := joined.tail.forward next (List.mem_cons_self ..)
      exact follows.trans (forward.trans (others next (List.mem_cons_self ..)))

/-- Joined segments start where the first of them does, or behind that. -/
theorem Made.minX_le (made : envelope.Made) :
    ∀ s ∈ envelope.segments, envelope.minX ≤ s.start.x := by
  have joined := made.joined
  have onward := made.onward
  obtain ⟨segments, nonempty⟩ := envelope
  cases segments with
  | nil => exact absurd rfl nonempty
  | cons first later =>
    -- All later segments stand behind the first.
    refine List.forall_mem_cons.mpr ⟨le_rfl, fun s member => ?_⟩
    exact (onward first (List.mem_cons_self ..)).forward.trans (joined.behind s member)

/-- No envelope starts before zero. -/
theorem Made.minX_nonneg (made : envelope.Made) : 0 ≤ envelope.minX :=
  (made.onward _ (List.head_mem envelope.nonempty)).start

/-- No envelope ends before it starts. -/
theorem Made.minX_le_maxX (made : envelope.Made) : envelope.minX ≤ envelope.maxX := by
  have inside := List.getLast_mem envelope.nonempty
  exact (made.minX_le _ inside).trans (made.onward _ inside).forward

/-- The points that stand for an envelope lie between its start and its end. -/
theorem Made.approximation_mem (made : envelope.Made) (fidelity : α) :
    ∀ p ∈ envelope.approximation fidelity, envelope.minX ≤ p.x ∧ p.x ≤ envelope.maxX := by
  intro p member
  obtain ⟨s, inside, point⟩ := List.mem_flatMap.mp ((distinct_sublist _).subset member)
  obtain ⟨low, high⟩ := (made.onward s inside).approximate_mem fidelity p point
  exact ⟨(made.minX_le s inside).trans low,
    high.trans (made.joined.finish_le envelope.nonempty s inside)⟩

/-- Automation that plays an envelope from a time on does so from its start to its end. -/
theorem Made.events_within (made : envelope.Made) (time fidelity : α) :
    ∀ event ∈ envelope.events (.startingAt time) fidelity,
      time + envelope.minX ≤ event.time ∧ event.time ≤ time + envelope.maxX := by
  intro event member
  -- The events come at the times of the points.
  have timed : event.time ∈ (envelope.events (.startingAt time) fidelity).map ControlEvent.time :=
    List.mem_map_of_mem member
  rw [events, map_time_eventsAfter] at timed
  obtain ⟨point, approximates, same⟩ := List.mem_map.mp timed
  obtain ⟨low, high⟩ := made.approximation_mem fidelity point approximates
  rw [← same, Transform.time_startingAt]
  exact ⟨add_le_add_right low time, add_le_add_right high time⟩

/-- The first of the points that stand for an envelope is where it starts. -/
theorem approximation_head (envelope : Envelope α) (fidelity : α) :
    ∃ p later, envelope.approximation fidelity = p :: later ∧ p.x = envelope.minX := by
  obtain ⟨segments, nonempty⟩ := envelope
  cases segments with
  | nil => exact absurd rfl nonempty
  | cons s rest =>
    -- The first point of the first segment is never left out.
    obtain ⟨p, later, points, start⟩ := s.approximate_head fidelity
    refine ⟨p, distinctAfter p (later ++ rest.flatMap (·.approximate fidelity)), ?_, start⟩
    rw [approximation, List.flatMap_cons, points]
    rfl

end Envelope

end Melody
