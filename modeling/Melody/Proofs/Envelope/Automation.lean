import Mathlib
import Melody.Envelope.Automation
import Melody.Proofs.Envelope.Construction

/-! Automation that plays an envelope of straight lines gives its curve at every time. -/

namespace Melody

variable {α : Type} [ExactScalar α]

namespace ControlEvent

/-- The value at a time of a parameter that has had one value since an earlier time and takes events
one after the other, where a jump sets the value and a ramp leads to it from the event before. -/
def read (value since : α) : List (ControlEvent α) → α → α
  | [], _ => value
  | .jump next time :: later, t => if time ≤ t then read next time later t else value
  | .ramp next time :: later, t =>
    if time ≤ t then read next time later t
    else value + (next - value) * ((t - since) / (time - since))

/-- An event that is over has given the parameter its value. -/
theorem read_cons_of_le {value since t : α} {event : ControlEvent α}
    {later : List (ControlEvent α)} (past : event.time ≤ t) :
    read value since (event :: later) t = read event.value event.time later t := by
  cases event with
  | jump next time => exact if_pos past
  | ramp next time => exact if_pos past

end ControlEvent

namespace Transform

variable {transform : Transform α} {x y : α}

/-- An envelope that starts at a time has each x value that much later. -/
theorem time_startingAt (time x : α) : (startingAt time).time x = time + x := by
  rw [Transform.time, startingAt, Scalar.one_eq, mul_one]

/-- Times are in the order of their x values. -/
theorem time_le_iff (positive : 0 < transform.scale) :
    transform.time x ≤ transform.time y ↔ x ≤ y := by
  rw [time, time, add_le_add_iff_left]
  exact mul_le_mul_iff_left₀ positive

/-- Times are in the strict order of their x values. -/
theorem time_lt_iff (positive : 0 < transform.scale) :
    transform.time x < transform.time y ↔ x < y :=
  lt_iff_lt_of_le_iff_le (time_le_iff positive)

/-- The share of a stretch of time is that of x values. -/
theorem time_share (positive : 0 < transform.scale) (first last x : α) :
    (transform.time x - transform.time first) / (transform.time last - transform.time first) =
      (x - first) / (last - first) := by
  have stretch : ∀ z, transform.time z - transform.time first = (z - first) * transform.scale :=
    fun z => by rw [time, time]; ring
  rw [stretch, stretch, mul_div_mul_right _ _ positive.ne']

end Transform

namespace Segment

variable {s : Segment α} {x : α}

/-- A straight line is approximated by its ends. -/
theorem approximate_linear (linear : s.shape = .linear) (fidelity : α) :
    s.approximate fidelity = [s.start, s.finish] := by
  rw [approximate, linear]
  split <;> rfl

/-- On its way a straight line has the height of its share of the width. -/
theorem valueAt_linear (linear : s.shape = .linear) (after : s.start.x ≤ x)
    (before : x < s.finish.x) : s.valueAt x =
      s.start.y + (s.finish.y - s.start.y) * ((x - s.start.x) / (s.finish.x - s.start.x)) := by
  have wide : 0 < s.finish.x - s.start.x := sub_pos.mpr (after.trans_lt before)
  -- Strictly before the end the share of the width is one that needs no clamping.
  have low : 0 ≤ (x - s.start.x) / s.width := div_nonneg (sub_nonneg.mpr after) wide.le
  have high : (x - s.start.x) / s.width ≤ 1 :=
    (div_le_one wide).mpr (sub_le_sub_right before.le _)
  rw [valueAt, if_neg (by rw [Scalar.zero_eq]; exact not_le.mpr wide), linear]
  show lerp _ _ _ = _
  rw [Scalar.clampUnit_eq low high]
  rfl

/-- A straight line ends at the height of its end. -/
theorem valueAt_finish (linear : s.shape = .linear) : s.valueAt s.finish.x = s.finish.y := by
  rw [valueAt]
  -- Without a width the end is read at once, and otherwise as the whole share.
  split
  · rfl
  · rename_i wide
    rw [Scalar.zero_eq, not_le] at wide
    have whole : (s.finish.x - s.start.x) / s.width = 1 := div_self wide.ne'
    rw [linear, whole]
    show lerp _ _ _ = _
    rw [Scalar.clampUnit_eq zero_le_one le_rfl, lerp, mul_one, add_sub_cancel]

end Segment

namespace Envelope

open Segment

/-- The height at an x value of the curve that leads from a point through segments. -/
def heightFrom (p : Point α) : List (Segment α) → α → α
  | [], _ => p.y
  | s :: later, x => if s.finish.x ≤ x then heightFrom s.finish later x else s.valueAt x

section Curve

variable {s : Segment α} {later segments : List (Segment α)} {x : α}

/-- The last of joined segments that has started has the height of the curve. -/
theorem exists_last (joined : Joined (s :: later))
    (linear : ∀ t ∈ s :: later, t.shape = .linear) (after : s.start.x ≤ x)
    (before : ∀ last ∈ (s :: later).getLast?, x ≤ last.finish.x) (p : Point α) :
    ∃ t, (s :: later).reverse.find? (fun t => decide (t.start.x ≤ x)) = some t ∧
      t.valueAt x = heightFrom p (s :: later) x := by
  induction later generalizing s p with
  | nil =>
    refine ⟨s, by simp [after], ?_⟩
    -- The only segment has not ended before, and has its last height where it ends.
    by_cases past : s.finish.x ≤ x
    · have same : x = s.finish.x := le_antisymm (before s rfl) past
      rw [heightFrom, if_pos past, same]
      exact valueAt_finish (linear s (List.mem_singleton.mpr rfl))
    · rw [heightFrom, if_neg past]
  | cons next rest ih =>
    rw [List.reverse_cons, List.find?_append, heightFrom]
    by_cases past : s.finish.x ≤ x
    · -- The next segment has started, as it does so where this one ends.
      have started : next.start.x ≤ x := joined.meets.rel ▸ past
      obtain ⟨t, found, height⟩ := ih joined.tail (List.forall_mem_cons.mp linear).2 started
        (by simpa using before) s.finish
      rw [found, if_pos past]
      exact ⟨t, rfl, height⟩
    · have none : (next :: rest).reverse.find? (fun t => decide (t.start.x ≤ x)) = none := by
        refine List.find?_eq_none.mpr fun t member => ?_
        have behind := joined.behind t (List.mem_reverse.mp member)
        simpa using (not_le.mp past).trans_le behind
      rw [none, if_neg past]
      exact ⟨s, by simp [after], rfl⟩

/-- Within its extent an envelope of joined straight lines has the height of its curve. -/
theorem valueAt_eq {envelope : Envelope α} (joined : Joined envelope.segments)
    (linear : ∀ t ∈ envelope.segments, t.shape = .linear) (low : envelope.minX ≤ x)
    (high : x ≤ envelope.maxX) (p : Point α) :
    envelope.valueAt x = heightFrom p envelope.segments x := by
  obtain ⟨segments, nonempty⟩ := envelope
  cases segments with
  | nil => exact absurd rfl nonempty
  | cons s later =>
    -- The last segment that has begun is the one that the list is read at.
    have ends : ∀ last ∈ (s :: later).getLast?, x ≤ last.finish.x := by
      intro last found
      rw [List.getLast?_eq_some_getLast nonempty] at found
      cases found
      exact high
    obtain ⟨t, found, height⟩ := exists_last joined linear low ends p
    have within : Scalar.smaller (Scalar.larger x (minX ⟨s :: later, nonempty⟩))
        (maxX ⟨s :: later, nonempty⟩) = x := by
      rw [Scalar.smaller_eq_min, Scalar.larger_eq_max, max_eq_left low, min_eq_left high]
    rw [valueAt, within, segmentAt, found]
    exact height

end Curve

section Events

variable {transform : Transform α} {segments : List (Segment α)} {p : Point α} {x : α}

/-- The events that lead from a point through joined straight lines give their curve. -/
theorem read_eventsAfter (positive : 0 < transform.scale) (joined : Joined segments)
    (linear : ∀ s ∈ segments, s.shape = .linear) (begins : ∀ s ∈ segments.head?, s.start = p)
    (after : p.x ≤ x) (fidelity : α) :
    ControlEvent.read p.y (transform.time p.x) (eventsAfter transform (some (transform.time p.x))
      (distinctAfter p (segments.flatMap (·.approximate fidelity)))) (transform.time x) =
        heightFrom p segments x := by
  -- Over the segments, with the last point that has been reached as the one before them.
  induction segments generalizing p with
  | nil => rfl
  | cons s later ih =>
    obtain ⟨line, lines⟩ := List.forall_mem_cons.mp linear
    obtain rfl : s.start = p := begins s rfl
    have next : ∀ t ∈ later.head?, t.start = s.finish := by
      intro t head
      cases later with
      | nil => cases head
      | cons _ _ =>
        cases head
        exact joined.meets.rel
    -- The start of a segment repeats the point that it follows.
    rw [List.flatMap_cons, approximate_linear line, List.cons_append, distinctAfter,
      if_pos (Point.same_iff.mpr rfl), List.cons_append, List.nil_append, distinctAfter,
      heightFrom]
    by_cases still : s.start = s.finish
    · -- A segment without any extent gives no event.
      rw [if_pos (Point.same_iff.mpr still), if_pos (still ▸ after), still]
      exact ih joined.tail lines next (still ▸ after)
    · rw [if_neg (fun same => still (Point.same_iff.mp same)), eventsAfter]
      by_cases past : s.finish.x ≤ x
      · -- A ramp that is over has led to its end, as a jump has.
        rw [if_pos past, ← ih joined.tail lines next past]
        split
        · exact ControlEvent.read_cons_of_le ((Transform.time_le_iff positive).mpr past)
        · exact ControlEvent.read_cons_of_le ((Transform.time_le_iff positive).mpr past)
      · -- The event that is on its way is a ramp, since it comes later than the point.
        have before := not_le.mp past
        have ramps := (Transform.time_lt_iff positive).mpr (after.trans_lt before)
        rw [if_neg past, if_pos ramps, ControlEvent.read,
          if_neg (fun le => past ((Transform.time_le_iff positive).mp le)),
          Transform.time_share positive, valueAt_linear line after before]

/-- The events come at the times of their points. -/
theorem map_time_eventsAfter (transform : Transform α) (previous : Option α)
    (points : List (Point α)) :
    (eventsAfter transform previous points).map ControlEvent.time =
      points.map fun point => transform.time point.x := by
  -- Whether an event jumps or slides does not change its time.
  induction points generalizing previous with
  | nil => rfl
  | cons point later ih =>
    cases previous with
    | none => rw [eventsAfter, List.map_cons, List.map_cons, ih, ControlEvent.time]
    | some previous =>
      rw [eventsAfter, List.map_cons, List.map_cons, ih]
      split <;> rfl

/-- Leaving out repeated points behind another one adds none. -/
theorem distinctAfter_sublist (kept : Point α) (points : List (Point α)) :
    (distinctAfter kept points).Sublist points := by
  induction points generalizing kept with
  | nil => exact .slnil
  | cons point later ih =>
    rw [distinctAfter]
    -- A point is either dropped or becomes the one that the next is compared with.
    split
    · exact (ih kept).cons point
    · exact (ih point).cons_cons point

/-- Leaving out repeated points adds none. -/
theorem distinct_sublist (points : List (Point α)) : (distinct points).Sublist points := by
  cases points with
  | nil => exact .slnil
  | cons point later => exact (distinctAfter_sublist point later).cons_cons point

/-- The ends of joined straight lines come one after the other. -/
theorem approximations_ordered (joined : Joined segments)
    (linear : ∀ s ∈ segments, s.shape = .linear) (fidelity : α) :
    (segments.flatMap (·.approximate fidelity)).Pairwise fun p q => p.x ≤ q.x := by
  -- A line is approximated by its two ends.
  have ends : ∀ {s : Segment α}, s ∈ segments → ∀ p ∈ s.approximate fidelity,
      s.start.x ≤ p.x ∧ p.x ≤ s.finish.x := by
    intro s member p point
    have forward := joined.forward s member
    rw [approximate_linear (linear s member)] at point
    rcases List.mem_pair.mp point with rfl | rfl
    · exact ⟨le_rfl, forward⟩
    · exact ⟨forward, le_rfl⟩
  refine List.pairwise_flatMap.mpr ⟨fun s member => ?_, ?_⟩
  · rw [approximate_linear (linear s member)]
    exact List.pairwise_pair.mpr (joined.forward s member)
  · refine joined.row.imp_of_mem fun one other before p first q second => ?_
    exact (ends one p first).2.trans (before.trans (ends other q second).1)

end Events

/-- The automation that plays an envelope of straight lines, jumps among them, gives its curve at
every time of its extent whatever value the parameter had before, and its times never go back. -/
theorem read_events {envelope : Envelope α} (made : envelope.Made)
    (linear : ∀ s ∈ envelope.segments, s.shape = .linear) {transform : Transform α}
    (positive : 0 < transform.scale) (fidelity : α) :
    (∀ value since x, envelope.minX ≤ x → x ≤ envelope.maxX →
        ControlEvent.read value since (envelope.events transform fidelity) (transform.time x) =
          envelope.valueAt x) ∧
      ((envelope.events transform fidelity).map ControlEvent.time).Pairwise (· ≤ ·) := by
  have joined := made.joined
  constructor
  · intro value since x low high
    obtain ⟨segments, nonempty⟩ := envelope
    cases segments with
    | nil => exact absurd rfl nonempty
    | cons s later =>
      have line := linear s (List.mem_cons_self ..)
      have begun : (ControlEvent.jump s.start.y (transform.time s.start.x)).time ≤
          transform.time x := (Transform.time_le_iff positive).mpr low
      -- The first event is the jump to the first point, from which the others lead on.
      have played := read_eventsAfter positive joined linear (p := s.start) (by rintro _ ⟨⟩; rfl)
        low fidelity
      rw [List.flatMap_cons, approximate_linear line, List.cons_append, distinctAfter,
        if_pos (Point.same_iff.mpr rfl)] at played
      rw [valueAt_eq joined linear low high s.start, ← played, events, approximation,
        List.flatMap_cons, approximate_linear line, List.cons_append, distinct, eventsAfter]
      exact ControlEvent.read_cons_of_le begun
  · rw [events, map_time_eventsAfter, List.pairwise_map]
    have ordered := (approximations_ordered joined linear fidelity).sublist (distinct_sublist _)
    exact ordered.imp (Transform.time_le_iff positive).mpr

/-- Where an envelope jumps between a rise and a fall, its automation gives the value after the
jump. -/
theorem read_events_plucked :
    let plucked : Envelope ℝ := polyline ⟨0, 0⟩ ⟨1, 1⟩ [⟨1, 1 / 2⟩, ⟨2, 0⟩]
    plucked.Made ∧ (∀ s ∈ plucked.segments, s.shape = .linear) ∧
      ControlEvent.read 1 0 (plucked.events ⟨10, 2⟩ 10) 12 = 1 / 2 := by
  intro plucked
  have made : plucked.Made := by
    refine .polyline ?_ ?_
    · norm_num
    · norm_num
  have linear : ∀ s ∈ plucked.segments, s.shape = .linear := by
    simp [plucked, polyline, lines]
  have low : plucked.minX ≤ 1 := by norm_num [plucked, polyline, lines, minX, first]
  have high : 1 ≤ plucked.maxX := by norm_num [plucked, polyline, lines, maxX, last]
  have positive : 0 < (⟨10, 2⟩ : Transform ℝ).scale := by norm_num
  have time : (⟨10, 2⟩ : Transform ℝ).time 1 = 12 := by norm_num [Transform.time]
  -- At the jump the later of the two segments is read.
  have height : plucked.valueAt 1 = 1 / 2 := by
    rw [valueAt_eq made.joined linear low high ⟨0, 0⟩]
    norm_num [plucked, polyline, lines, heightFrom, Segment.valueAt, Segment.width, Segment.lerp,
      Scalar.clampUnit]
  refine ⟨made, linear, ?_⟩
  rw [← height, ← time]
  exact (read_events made linear positive 10).1 1 0 1 low high

end Envelope

end Melody
