import Mathlib.Data.List.Destutter
import Melody.Proofs.Envelope.Approximation

/-! Points that are spread over the segments of an envelope cover it, in order and corner by
corner, with few more of them than were asked for. -/

namespace Melody

namespace Envelope

section Distinct

variable {α : Type} [ExactScalar α] {row points : List (Point α)}

/-- Leaving out repeated points is what the base library does with neighbours that are equal. -/
theorem cons_distinctAfter (kept : Point α) (points : List (Point α)) :
    kept :: distinctAfter kept points = points.destutter' (· ≠ ·) kept := by
  induction points generalizing kept with
  | nil => rfl
  | cons point later ih =>
    rw [distinctAfter]
    -- Points are compared by both coordinates, as in an exact field equality is.
    by_cases same : kept = point
    · rw [if_pos (Point.same_iff.mpr same), ih, List.destutter'_cons_neg later (not_not.mpr same)]
    · rw [if_neg (mt Point.same_iff.mp same), ih, List.destutter'_cons_pos later same]

/-- No two neighbours are left equal. -/
theorem isChain_distinct (points : List (Point α)) : (distinct points).IsChain (· ≠ ·) := by
  cases points with
  | nil => exact .nil
  | cons first later =>
    rw [distinct, cons_distinctAfter]
    exact List.isChain_destutter' ..

/-- The first point is kept. -/
theorem head?_distinct (points : List (Point α)) : (distinct points).head? = points.head? := by
  cases points <;> rfl

/-- Every point is kept or stands where one that equals it is kept, in the same order. -/
theorem exists_places (points : List (Point α)) :
    ∃ place : ℕ → ℕ, Monotone place ∧ ∀ i, (distinct points)[place i]? = points[i]? := by
  cases points with
  | nil => exact ⟨id, monotone_id, fun _ => rfl⟩
  | cons first later =>
    rw [distinct]
    -- The induction is on the points behind the first, which may be left out or kept.
    induction later generalizing first with
    | nil => exact ⟨id, monotone_id, fun _ => rfl⟩
    | cons next rest ih =>
      obtain ⟨place, grows, found⟩ := ih next
      rw [distinctAfter]
      by_cases same : first = next
      · subst same
        rw [if_pos (Point.same_iff.mpr rfl)]
        refine ⟨fun i => place (i - 1), fun i j before => grows (Nat.sub_le_sub_right before 1), ?_⟩
        rintro (_ | i)
        · exact found 0
        · exact found i
      · rw [if_neg (mt Point.same_iff.mp same)]
        refine ⟨fun i => if i = 0 then 0 else place (i - 1) + 1, ?_, ?_⟩
        · intro i j before
          dsimp only
          split
          · exact Nat.zero_le _
          · rw [if_neg (by omega)]
            exact Nat.succ_le_succ (grows (Nat.sub_le_sub_right before 1))
        · rintro (_ | i)
          · rfl
          · exact found i

/-- The last point is kept. -/
theorem getLast?_distinct (points : List (Point α)) :
    (distinct points).getLast? = points.getLast? := by
  cases points with
  | nil => rfl
  | cons first later =>
    rw [distinct]
    induction later generalizing first with
    | nil => rfl
    | cons next rest ih =>
      rw [distinctAfter, List.getLast?_cons_cons]
      -- Leaving out the first of two equal points does not change the last.
      by_cases same : first = next
      · rw [if_pos (Point.same_iff.mpr same), same]
        exact ih next
      · rw [if_neg (mt Point.same_iff.mp same), List.getLast?_cons_cons]
        exact ih next

/-- A row of some of the points in which no two neighbours are equal is kept. -/
theorem sublist_distinct (part : row.Sublist points) (apart : row.IsChain (· ≠ ·)) :
    row.Sublist (distinct points) := by
  cases points with
  | nil => exact part
  | cons first later =>
    rw [distinct]
    induction later generalizing first row with
    | nil => exact part
    | cons next rest ih =>
      rw [distinctAfter]
      by_cases same : first = next
      · subst same
        rw [if_pos (Point.same_iff.mpr rfl)]
        -- The row has at most one of the two equal points.
        refine ih apart first ?_
        cases part with
        | cons _ part => exact part
        | cons_cons _ part =>
          cases part with
          | cons _ part => exact part.cons_cons first
          | cons_cons _ _ => exact absurd rfl apart.rel
      · rw [if_neg (mt Point.same_iff.mp same)]
        cases part with
        | cons _ part => exact (ih apart next part).cons first
        | cons_cons _ part => exact (ih apart.tail next part).cons_cons first

end Distinct

end Envelope

namespace Segment

section Spreading

variable {α : Type} [ExactScalar α] {s : Segment α} {count : Nat} {t : α}

/-- The point at a share of the width of a segment, which is an end of the segment or lies on its
curve. -/
def pointAt (s : Segment α) (t : α) : Point α :=
  if t = 0 then s.start
  else if t = 1 then s.finish
  else ⟨lerp s.start.x s.finish.x t, s.valueAt (lerp s.start.x s.finish.x t)⟩

/-- At no share of its width a segment is at its start. -/
@[simp] theorem pointAt_zero (s : Segment α) : s.pointAt 0 = s.start :=
  if_pos rfl

/-- At the whole of its width a segment is at its end. -/
@[simp] theorem pointAt_one (s : Segment α) : s.pointAt 1 = s.finish := by
  rw [pointAt, if_neg one_ne_zero, if_pos rfl]

/-- The place of a point follows its share of the width, at the ends too. -/
theorem pointAt_x (s : Segment α) (t : α) : (s.pointAt t).x = lerp s.start.x s.finish.x t := by
  unfold pointAt
  -- The ends are written out in the definition, and agree with the line between them.
  split
  · rename_i zero
    rw [zero, lerp_zero]
  · split
    · rename_i one
      rw [one, lerp_one]
    · rfl

/-- Strictly within a segment its points lie on its curve. -/
theorem valueAt_pointAt (behind : s.start.x < (s.pointAt t).x)
    (before : (s.pointAt t).x < s.finish.x) : s.valueAt (s.pointAt t).x = (s.pointAt t).y := by
  -- A point that is strictly within is neither of the ends.
  have low : t ≠ 0 := by
    rintro rfl
    simp at behind
  have high : t ≠ 1 := by
    rintro rfl
    simp at before
  rw [pointAt, if_neg low, if_neg high]

/-- Points that are spread over a segment stand at equal shares of its width. -/
theorem spread_eq (s : Segment α) (many : 2 ≤ count) : s.spread count =
    (List.range count).map fun (i : Nat) => s.pointAt ((i : α) / ((count - 1 : Nat) : α)) := by
  -- There are as many steps as points but one.
  have steps : ((count - 1 : Nat) : α) ≠ 0 := Nat.cast_ne_zero.mpr (by omega)
  refine List.map_congr_left fun i counted => ?_
  have counted := List.mem_range.mp counted
  by_cases start : i = 0
  · rw [if_pos start, start, Nat.cast_zero, zero_div, pointAt_zero]
  · rw [if_neg start]
    by_cases finish : i + 1 = count
    · have whole : i = count - 1 := by omega
      rw [if_pos finish, whole, div_self steps, pointAt_one]
    · have some : (i : α) / ((count - 1 : Nat) : α) ≠ 0 :=
        div_ne_zero (Nat.cast_ne_zero.mpr start) steps
      have part : (i : α) / ((count - 1 : Nat) : α) ≠ 1 := by
        rw [Ne, div_eq_one_iff_eq steps, Nat.cast_inj]
        omega
      have place : s.start.x + s.width / ((count - 1 : Nat) : α) * (i : α) =
          lerp s.start.x s.finish.x ((i : α) / ((count - 1 : Nat) : α)) := by
        rw [lerp, width]
        ring
      rw [if_neg finish, pointAt, if_neg some, if_neg part, place]

/-- As many points are spread over a segment as are asked for. -/
theorem length_spread (s : Segment α) (count : Nat) : (s.spread count).length = count := by
  rw [spread, List.length_map, List.length_range]

/-- Points that are spread over a segment lie within its width. -/
theorem spread_mem (forward : s.start.x ≤ s.finish.x) (many : 2 ≤ count) :
    ∀ p ∈ s.spread count, s.start.x ≤ p.x ∧ p.x ≤ s.finish.x := by
  rw [spread_eq s many]
  -- Equal shares lie between none and the whole.
  refine (Walk.equal many).forall_mem fun t low high => ?_
  rw [pointAt_x]
  exact lerp_mem forward low high

/-- Points that are spread over a segment never go back. -/
theorem spread_ordered (forward : s.start.x ≤ s.finish.x) (many : 2 ≤ count) :
    (s.spread count).Pairwise fun p q => p.x ≤ q.x := by
  rw [spread_eq s many]
  refine (Walk.equal many).pairwise fun t u _ before _ => ?_
  rw [pointAt_x, pointAt_x]
  exact lerp_le_lerp forward before

/-- Over some width points are spread one behind the other. -/
theorem spread_strict (wide : 0 < s.width) (many : 2 ≤ count) :
    (s.spread count).Pairwise fun p q => p.x < q.x := by
  have steps : (0 : α) < ((count - 1 : Nat) : α) := Nat.cast_pos.mpr (by omega)
  rw [spread_eq s many, List.pairwise_map]
  refine List.pairwise_lt_range.imp fun before => ?_
  rw [pointAt_x, pointAt_x]
  -- Each share is larger than the one before, and the width is not zero.
  have share := div_lt_div_of_pos_right (Nat.cast_lt.mpr before) steps
  exact add_lt_add_right (mul_lt_mul_of_pos_left share wide) _

/-- Strictly within a segment the points that are spread over it lie on its curve. -/
theorem spread_level (many : 2 ≤ count) : ∀ p ∈ s.spread count, s.start.x < p.x →
    p.x < s.finish.x → s.valueAt p.x = p.y := by
  rw [spread_eq s many]
  refine (Walk.equal many).forall_mem fun t _ _ => ?_
  exact valueAt_pointAt

/-- The first point that is spread over a segment is its start. -/
theorem head?_spread (s : Segment α) (many : 2 ≤ count) :
    (s.spread count).head? = some s.start := by
  rw [spread_eq s many, (Walk.equal many).head?, pointAt_zero]

/-- The last point that is spread over a segment is its end. -/
theorem getLast?_spread (s : Segment α) (many : 2 ≤ count) :
    (s.spread count).getLast? = some s.finish := by
  rw [spread_eq s many, (Walk.equal many).getLast?, pointAt_one]

/-- The ends of a segment are among the points that are spread over it. -/
theorem ends_sublist_spread (s : Segment α) (many : 2 ≤ count) :
    [s.start, s.finish].Sublist (s.spread count) := by
  have long := s.length_spread count
  have first := s.head?_spread many
  have last := s.getLast?_spread many
  -- With two points or more the first and the last are different ones.
  cases points : s.spread count with
  | nil => rw [points] at first; contradiction
  | cons p rest =>
    rw [points] at first last long
    cases first
    cases rest with
    | nil => simp at long; omega
    | cons q more =>
      rw [List.getLast?_cons_cons] at last
      exact (List.singleton_sublist.mpr (List.mem_of_getLast? last)).cons_cons _

end Spreading

end Segment

namespace Envelope

open Segment

section Lookup

variable {α : Type} [ExactScalar α] {envelope : Envelope α} {s : Segment α} {x : α}

/-- Between its ends a segment is the one that counts. -/
theorem Made.segmentAt_eq (made : envelope.Made) (member : s ∈ envelope.segments)
    (after : s.start.x ≤ x) (before : x < s.finish.x) : envelope.segmentAt x = s := by
  have row := made.joined.row
  obtain ⟨front, later, split⟩ := List.append_of_mem member
  rw [split, List.pairwise_append, List.pairwise_cons] at row
  -- No later segment has started.
  have none : later.reverse.find? (fun t => decide (t.start.x ≤ x)) = none := by
    refine List.find?_eq_none.mpr fun t behind => ?_
    have starts := row.2.1.1 t (List.mem_reverse.mp behind)
    simpa using before.trans_le starts
  rw [segmentAt, split, List.reverse_append, List.reverse_cons, List.append_assoc,
    List.find?_append, none, List.singleton_append, List.find?_cons_of_pos (by simpa using after)]
  rfl

/-- Between the ends of a segment an envelope has its height. -/
theorem Made.valueAt_eq (made : envelope.Made) (member : s ∈ envelope.segments)
    (after : s.start.x ≤ x) (before : x < s.finish.x) : envelope.valueAt x = s.valueAt x := by
  have low : envelope.minX ≤ x := (made.minX_le s member).trans after
  have high : x ≤ envelope.maxX :=
    before.le.trans (made.joined.finish_le envelope.nonempty s member)
  rw [Envelope.valueAt, Scalar.smaller_eq_min, Scalar.larger_eq_max, max_eq_left low,
    min_eq_left high, made.segmentAt_eq member after before]

/-- A segment shares no place between its ends with another one. -/
theorem Made.eq_of_within (made : envelope.Made) {t : Segment α} (one : s ∈ envelope.segments)
    (other : t ∈ envelope.segments) (behind : s.start.x < x) (before : x < s.finish.x)
    (low : t.start.x ≤ x) (high : x ≤ t.finish.x) : t = s := by
  -- Two segments of an envelope lie apart, while both reach over the same place inside of one.
  by_contra apart
  have symm : Std.Symm (Apart (α := α)) := ⟨fun _ _ => Apart.symm⟩
  have row : envelope.segments.Pairwise Apart := made.joined.row.imp Or.inl
  rcases row.forall one other (Ne.symm apart) with first | second
  · exact absurd (before.trans_le first) (not_lt.mpr low)
  · exact absurd (behind.trans_le high) (not_lt.mpr second)

end Lookup

section Shares

variable {envelope : Envelope ℝ} {resolution least : Nat}

/-- A segment is given no fewer points than asked for, and at least its ends. -/
theorem le_shareOf (envelope : Envelope ℝ) (s : Segment ℝ) (resolution least : Nat) :
    max least 2 ≤ envelope.shareOf s resolution least :=
  max_le_max_right 2 (le_max_right _ _)

/-- A segment is given its two ends at least. -/
theorem two_le_shareOf (envelope : Envelope ℝ) (s : Segment ℝ) (resolution least : Nat) :
    2 ≤ envelope.shareOf s resolution least :=
  le_max_right _ _

/-- A count is rounded up by a half at most. -/
theorem rounded_le {x : ℝ} (nonneg : 0 ≤ x) : (Scalar.rounded x : ℝ) ≤ x + 1 / 2 := by
  have up : (0 : ℝ) ≤ x + 1 / 2 := by linarith
  calc
    (Scalar.rounded x : ℝ) ≤ (⌊x + 1 / 2⌋₊ : ℝ) := Nat.cast_le.mpr (min_le_right _ _)
    _ ≤ x + 1 / 2 := Nat.floor_le up

/-- A segment is given little more than its share of the resolution and the least number. -/
theorem shareOf_le (resolution least : Nat) (long : 0 ≤ envelope.length) {s : Segment ℝ}
    (wide : 0 ≤ s.width) :
    (envelope.shareOf s resolution least : ℝ) ≤
      resolution * (s.width / envelope.length) + ((max least 2 : ℕ) + 1 / 2) := by
  have part : (0 : ℝ) ≤ resolution * (s.width / envelope.length) :=
    mul_nonneg (Nat.cast_nonneg _) (div_nonneg wide long)
  have share : ((if 0.0 < envelope.length then
      Scalar.rounded ((resolution : ℝ) * s.width / envelope.length) else 0 : ℕ) : ℝ) ≤
        resolution * (s.width / envelope.length) + 1 / 2 := by
    split
    · rw [mul_div_assoc]
      exact rounded_le part
    · rw [Nat.cast_zero]
      linarith
  -- The larger of two counts is at most their sum.
  have sum : ∀ n : ℕ, max (max n least) 2 ≤ n + max least 2 := by omega
  calc
    (envelope.shareOf s resolution least : ℝ) ≤ _ := Nat.cast_le.mpr (sum _)
    _ ≤ resolution * (s.width / envelope.length) + 1 / 2 + (max least 2 : ℕ) := by
      rw [Nat.cast_add]
      exact add_le_add_left share _
    _ = _ := by ring

/-- All segments together are given little more than their shares and the least numbers. -/
theorem sum_shareOf_le (resolution least : Nat) (long : 0 ≤ envelope.length)
    (segments : List (Segment ℝ)) (wide : ∀ s ∈ segments, 0 ≤ s.width) :
    ((segments.map fun s => envelope.shareOf s resolution least).sum : ℝ) ≤
      resolution * ((segments.map width).sum / envelope.length) +
        segments.length * ((max least 2 : ℕ) + 1 / 2) := by
  induction segments with
  | nil => simp
  | cons s later ih =>
    obtain ⟨first, others⟩ := List.forall_mem_cons.mp wide
    -- The shares add up to the resolution, and each segment rounds its own.
    have one := shareOf_le resolution least long first
    have rest := ih others
    rw [List.map_cons, List.sum_cons, List.map_cons, List.sum_cons, List.length_cons, add_div]
    rw [Nat.cast_add, Nat.cast_succ, mul_add, add_mul, one_mul]
    linarith

/-- Joined segments are as wide as from the start of the first to the end of the last. -/
theorem Joined.sum_width {s : Segment ℝ} {later : List (Segment ℝ)} (joined : Joined (s :: later)) :
    ((s :: later).map width).sum =
      ((s :: later).getLast (List.cons_ne_nil s later)).finish.x - s.start.x := by
  -- The inner ends cancel each other, since neighbours meet.
  induction later generalizing s with
  | nil => simp [width]
  | cons next rest ih =>
    have meets : next.start = s.finish := joined.meets.rel
    rw [List.map_cons, List.sum_cons, ih joined.tail,
      List.getLast_cons (List.cons_ne_nil next rest), meets, width]
    ring

end Shares

section Whole

/-- The starts and ends of the segments, one after the other. -/
def corners {α : Type} (envelope : Envelope α) : List (Point α) :=
  envelope.segments.flatMap fun s => [s.start, s.finish]

/-- Points that lead from the start of an envelope to its end by way of all its corners, with at
least a given number of them along every segment that has some width. -/
structure Covers (envelope : Envelope ℝ) (least : Nat) (points : List (Point ℝ)) : Prop where
  ordered : points.Pairwise fun p q => p.x ≤ q.x
  apart : points.IsChain (· ≠ ·)
  first : points.head? = some envelope.first.start
  last : points.getLast? = some envelope.last.finish
  corners : ∃ place : ℕ → ℕ, Monotone place ∧ ∀ i, points[place i]? = envelope.corners[i]?
  dense : ∀ s ∈ envelope.segments, 0 < s.width → ∃ row : List (Point ℝ), row.Sublist points ∧
    (row.Pairwise fun p q => p.x < q.x) ∧ (∀ p ∈ row, s.start.x ≤ p.x ∧ p.x ≤ s.finish.x) ∧
    least ≤ row.length
  level : ∀ s ∈ envelope.segments, ∀ p ∈ points, s.start.x < p.x → p.x < s.finish.x →
    s.valueAt p.x = p.y ∧ envelope.valueAt p.x = p.y

/-- The points that are spread over the segments, those that repeat the one before included. -/
def spreads {α : Type} [Analytic α] (envelope : Envelope α) (resolution least : Nat) :
    List (Point α) :=
  envelope.segments.flatMap fun s => s.spread (envelope.shareOf s resolution least)

variable {envelope : Envelope ℝ} {resolution least : Nat}

/-- The first of all the points is the start of the envelope. -/
theorem head?_spreads (envelope : Envelope ℝ) (resolution least : Nat) :
    (envelope.spreads resolution least).head? = some envelope.first.start := by
  have begins := List.cons_head_tail envelope.nonempty
  rw [spreads, ← begins, List.flatMap_cons, List.head?_append, head?_spread _ (two_le_shareOf ..)]
  rfl

/-- The last of all the points is the end of the envelope. -/
theorem getLast?_spreads (envelope : Envelope ℝ) (resolution least : Nat) :
    (envelope.spreads resolution least).getLast? = some envelope.last.finish := by
  have ends := List.dropLast_append_getLast envelope.nonempty
  rw [spreads, ← ends, List.flatMap_append, List.flatMap_singleton, List.getLast?_append,
    getLast?_spread _ (two_le_shareOf ..)]
  rfl

/-- The corners of an envelope are among the points that are spread over it. -/
theorem corners_sublist_spreads (envelope : Envelope ℝ) (resolution least : Nat) :
    envelope.corners.Sublist (envelope.spreads resolution least) :=
  List.Sublist.flatMap_right _ fun s _ => s.ends_sublist_spread (two_le_shareOf ..)

/-- The points of a segment are among those of all segments. -/
theorem spread_sublist_spreads {s : Segment ℝ} (member : s ∈ envelope.segments) :
    (s.spread (envelope.shareOf s resolution least)).Sublist
      (envelope.spreads resolution least) := by
  -- The segment alone is part of all segments.
  have one := (List.singleton_sublist.mpr member).flatMap fun s =>
    s.spread (envelope.shareOf s resolution least)
  rwa [List.flatMap_singleton] at one

/-- The points that are spread over the segments number little more than was asked for. -/
theorem Made.length_spreads_le (made : envelope.Made) (resolution least : Nat) :
    ((envelope.spreads resolution least).length : ℝ) ≤
      resolution + envelope.segments.length * ((max least 2 : ℕ) + 1 / 2) := by
  have long : 0 ≤ envelope.length := sub_nonneg.mpr made.minX_le_maxX
  have joined := made.joined
  have total := sum_shareOf_le resolution least long envelope.segments fun s member =>
    sub_nonneg.mpr (joined.forward s member)
  -- The widths add up to the length, and without any there are no shares.
  have whole : (envelope.segments.map width).sum / envelope.length ≤ 1 := by
    obtain ⟨segments, nonempty⟩ := envelope
    cases segments with
    | nil => exact absurd rfl nonempty
    | cons s later =>
      rw [joined.sum_width]
      exact div_self_le_one _
  have shares := mul_le_of_le_one_right (Nat.cast_nonneg resolution : (0 : ℝ) ≤ resolution) whole
  have count : (envelope.spreads resolution least).length =
      (envelope.segments.map fun s => envelope.shareOf s resolution least).sum := by
    simp only [spreads, List.length_flatMap, length_spread]
  rw [count]
  linarith

/-- The points that are spread over a made envelope never go back. -/
theorem Made.spreads_ordered (made : envelope.Made) (resolution least : Nat) :
    (envelope.spreads resolution least).Pairwise fun p q => p.x ≤ q.x := by
  have joined := made.joined
  have within : ∀ s ∈ envelope.segments, ∀ p ∈ s.spread (envelope.shareOf s resolution least),
      s.start.x ≤ p.x ∧ p.x ≤ s.finish.x :=
    fun s member => spread_mem (joined.forward s member) (two_le_shareOf ..)
  -- Within a segment points do not go back, and the segments follow each other.
  refine List.pairwise_flatMap.mpr ⟨fun s member => ?_, ?_⟩
  · exact spread_ordered (joined.forward s member) (two_le_shareOf ..)
  · refine joined.row.imp_of_mem fun one other before p first q second => ?_
    exact (within _ one p first).2.trans (before.trans (within _ other q second).1)

/-- Strictly within a segment the points that are spread over all of them lie on its curve. -/
theorem Made.spreads_level (made : envelope.Made) {s : Segment ℝ} (member : s ∈ envelope.segments)
    {p : Point ℝ} (point : p ∈ envelope.spreads resolution least) (behind : s.start.x < p.x)
    (before : p.x < s.finish.x) : s.valueAt p.x = p.y := by
  obtain ⟨t, other, spread⟩ := List.mem_flatMap.mp point
  obtain ⟨low, high⟩ :=
    spread_mem (made.joined.forward t other) (two_le_shareOf ..) p spread
  -- No other segment has this place strictly within it.
  obtain rfl := made.eq_of_within member other behind before low high
  exact spread_level (two_le_shareOf ..) p spread behind before

/-- The points that are spread over an envelope cover it. -/
theorem Made.covers (made : envelope.Made) (resolution least : Nat) :
    envelope.Covers (max least 2) (envelope.smartSample resolution least) := by
  have sample : envelope.smartSample resolution least =
      Envelope.distinct (envelope.spreads resolution least) := rfl
  have part := distinct_sublist (envelope.spreads resolution least)
  rw [sample]
  -- Leaving out repeated points keeps all that was spread in its order.
  constructor
  case ordered => exact (made.spreads_ordered resolution least).sublist part
  case apart => exact isChain_distinct _
  case first => rw [head?_distinct, head?_spreads]
  case last => rw [getLast?_distinct, getLast?_spreads]
  case corners =>
    obtain ⟨place, grows, found⟩ := exists_places (envelope.spreads resolution least)
    obtain ⟨embed, same⟩ := List.sublist_iff_exists_orderEmbedding_getElem?_eq.mp
      (corners_sublist_spreads envelope resolution least)
    exact ⟨place ∘ embed, grows.comp embed.monotone, fun i => (found _).trans (same i).symm⟩
  case dense =>
    intro s member wide
    have many := two_le_shareOf envelope s resolution least
    have strict := spread_strict wide many
    have chain := (strict.imp fun less same => less.ne (congrArg Point.x same)).isChain
    refine ⟨s.spread (envelope.shareOf s resolution least), ?_, strict,
      spread_mem (made.joined.forward s member) many, ?_⟩
    · exact sublist_distinct (spread_sublist_spreads member) chain
    · rw [length_spread]
      exact le_shareOf envelope s resolution least
  case level =>
    intro s member p point behind before
    have level := made.spreads_level member (part.subset point) behind before
    exact ⟨level, (made.valueAt_eq member behind.le before).trans level⟩

/-- The points that are spread over an envelope of any segments cover it, however many are asked
for, and number little more than that and the least number for each segment. -/
theorem smartSample_covers (made : envelope.Made) (resolution least : Nat) :
    envelope.Covers (max least 2) (envelope.smartSample resolution least) ∧
      ((envelope.smartSample resolution least).length : ℝ) ≤
        resolution + envelope.segments.length * ((max least 2 : ℕ) + 1 / 2) := by
  have fewer := (distinct_sublist (envelope.spreads resolution least)).length_le
  exact ⟨made.covers resolution least,
    (Nat.cast_le.mpr fewer).trans (made.length_spreads_le resolution least)⟩

/-- An envelope that jumps between a rise and a fall is covered with no more points than allowed. -/
theorem smartSample_covers_plucked :
    let plucked : Envelope ℝ := polyline ⟨0, 0⟩ ⟨1, 1⟩ [⟨1, 1 / 2⟩, ⟨4, 0⟩]
    plucked.Made ∧ plucked.Covers 3 (plucked.smartSample 9 3) ∧
      ((plucked.smartSample 9 3).length : ℝ) ≤ 39 / 2 := by
  -- Three lines, of which the second takes no time, share nine points and have three at least.
  intro plucked
  have made : plucked.Made := by
    refine .polyline ?_ ?_
    · norm_num
    · norm_num
  obtain ⟨covers, few⟩ := smartSample_covers made 9 3
  have bound : ((9 : ℕ) : ℝ) + plucked.segments.length * ((max 3 2 : ℕ) + 1 / 2) = 39 / 2 := by
    norm_num [plucked, polyline, lines]
  exact ⟨made, covers, few.trans bound.le⟩

end Whole

end Envelope

end Melody
