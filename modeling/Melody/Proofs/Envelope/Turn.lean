import Mathlib.Order.Lattice
import Melody.Envelope.Sampling

/-! The turn of the tangent of a curve decides how many points stand for it. -/

namespace Melody.Segment

variable {α : Type} [Analytic α] {s : Segment α} {middle base turn fidelity : α} {count : Nat}

section Exponentials

/-- An exponential curve that is no straight line has points at their parameters. -/
theorem exponentialPoints_eq (found : s.exponentialBase? middle = some base) (fidelity : α) :
    s.exponentialPoints middle fidelity =
      (List.range (pointCount (s.exponentialTurn base) fidelity)).map fun (i : Nat) =>
        let t := turned (s.slope base) base (pointCount (s.exponentialTurn base) fidelity) i
        ⟨lerp s.start.x s.finish.x t, s.exponentialAt middle t⟩ := by
  unfold exponentialPoints
  rw [found]

end Exponentials

section Quadratics

/-- A quadratic curve has points at equal steps of its parameter. -/
theorem quadraticPoints_eq (s : Segment α) (control : Point α) (fidelity : α) :
    s.quadraticPoints control fidelity =
      (List.range (pointCount (s.quadraticTurn control) fidelity)).map fun (i : Nat) =>
        let t := (i : α) / ((pointCount (s.quadraticTurn control) fidelity - 1 : Nat) : α)
        ⟨bezier s.start.x control.x s.finish.x t, bezier s.start.y control.y s.finish.y t⟩ :=
  rfl

end Quadratics

section Counts

/-- What is counted is at least two and at most what any segment may have. -/
theorem pointCount?_mem (counted : pointCount? turn fidelity = some count) :
    2 ≤ count ∧ count ≤ maxPoints := by
  obtain ⟨_, same⟩ := Option.ite_none_right_eq_some.mp counted
  cases same
  exact ⟨Nat.le_min.mpr ⟨Nat.le_max_right _ _, by decide⟩, Nat.min_le_right _ _⟩

/-- What is counted is the number of points. -/
theorem pointCount_of_counted (counted : pointCount? turn fidelity = some count) :
    pointCount turn fidelity = count := by
  rw [pointCount, counted]
  rfl

/-- A curve is given at least its two ends and no more points than any segment. -/
theorem pointCount_mem (turn fidelity : α) :
    2 ≤ pointCount turn fidelity ∧ pointCount turn fidelity ≤ maxPoints := by
  -- What is not counted has the most points, which are more than two.
  cases counted : pointCount? turn fidelity with
  | none =>
    rw [pointCount, counted]
    decide
  | some count =>
    rw [pointCount_of_counted counted]
    exact pointCount?_mem counted

/-- A segment is given the number of points for its turn, or its two ends. -/
theorem length_approximate (s : Segment α) (fidelity : α) : (s.approximate fidelity).length =
    (s.turn?.map fun turn => pointCount turn fidelity).getD 2 := by
  unfold approximate turn?
  -- Both follow the same cases: no width, a line, a curve too flat to turn, and a turn.
  by_cases jump : s.width ≤ 0.0
  · rw [if_pos jump, if_pos jump]
    rfl
  · rw [if_neg jump, if_neg jump]
    cases s.shape with
    | linear => rfl
    | exponential middle =>
      dsimp only
      split
      · rfl
      · cases found : s.exponentialBase? middle with
        | none =>
          rw [exponentialPoints, found]
          rfl
        | some base =>
          rw [exponentialPoints_eq found, List.length_map, List.length_range]
          rfl
    | quadratic control =>
      dsimp only
      rw [quadraticPoints_eq, List.length_map, List.length_range]
      rfl

/-- There are no points where the turn of a segment cannot be counted. -/
theorem approximate?_eq_none : s.approximate? fidelity = none ↔
    ∃ turn, s.turn? = some turn ∧ pointCount? turn fidelity = none := by
  unfold approximate? isCountable
  cases s.turn? with
  | none => simp
  | some turn => cases counted : pointCount? turn fidelity <;> simp [counted]

/-- A segment whose turn can be counted has the number of points for it. -/
theorem length_of_approximate? {points : List (Point α)}
    (found : s.approximate? fidelity = some points) (turns : s.turn? = some turn) :
    pointCount? turn fidelity = some points.length := by
  -- There are points only if the turn was counted, and then as many as were counted.
  unfold approximate? isCountable at found
  rw [turns] at found
  cases counted : pointCount? turn fidelity with
  | none => simp [counted] at found
  | some count =>
    obtain rfl : s.approximate fidelity = points := by simpa [counted] using found
    rw [length_approximate, turns, Option.map_some, Option.getD_some, pointCount_of_counted counted]

/-- A segment with points has two at least and no more than any may have. -/
theorem length_mem_of_approximate? {points : List (Point α)}
    (found : s.approximate? fidelity = some points) :
    2 ≤ points.length ∧ points.length ≤ maxPoints := by
  cases turns : s.turn? with
  | none =>
    -- Its two ends stand for it.
    obtain rfl : s.approximate fidelity = points := by
      simpa [approximate?, isCountable, turns] using found
    rw [length_approximate, turns, Option.map_none, Option.getD_none]
    decide
  | some turn => exact pointCount?_mem (length_of_approximate? found turns)

end Counts

end Melody.Segment
