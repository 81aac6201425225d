import Melody.Osc.Timetag
import Melody.Proofs.Scalar.Multiple
import Melody.Proofs.Scalar.Scaling

/-! Timetags follow the order of the times they are made from and tell the nanosecond of each of
them, from the start of 1970 to the end of the era. -/

namespace Melody.Osc.Timetag

open Duration (perSecond)

section Fractions

variable {count count' : Nat}

/-- A second has `2 ^ 32` fractions. -/
@[simp] theorem unit_eq : unit = 4294967296 :=
  rfl

/-- The nearest fraction is the whole part of the exact one and a half. -/
theorem fractionOf_eq (count : Nat) :
    fractionOf count = (2 * (count * unit) + perSecond) / (2 * perSecond) := by
  unfold fractionOf Decimal.roundQuotient
  dsimp only
  split_ifs with low high <;> simp only [unit_eq, perSecond] at * <;> omega

/-- Later nanoseconds have no smaller fractions. -/
theorem fractionOf_mono (before : count ≤ count') : fractionOf count ≤ fractionOf count' := by
  rw [fractionOf_eq, fractionOf_eq]
  gcongr

/-- The fraction of the last nanosecond of a second is rounded within the second. -/
theorem fractionOf_lt (below : count < perSecond) : fractionOf count < unit := by
  rw [fractionOf_eq]
  simp only [unit_eq, perSecond] at below ⊢
  omega

/-- A fraction is so much shorter than a nanosecond that it tells which one it is of. -/
theorem round_fractionOf (count : Nat) :
    round ((fractionOf count : ℚ) * perSecond / unit) = count := by
  -- The fraction is at most half a unit off, which is less than half a nanosecond.
  have low : 2 * perSecond * fractionOf count ≤ 2 * (count * unit) + perSecond := by
    rw [fractionOf_eq]
    exact Nat.mul_div_le _ _
  have high : 2 * (count * unit) < 2 * perSecond * fractionOf count + perSecond := by
    rw [fractionOf_eq]
    simp only [unit_eq, perSecond]
    omega
  have low : (2 * perSecond * fractionOf count : ℚ) ≤ 2 * (count * unit) + perSecond := by
    exact_mod_cast low
  have high : (2 * (count * unit) : ℚ) < 2 * perSecond * fractionOf count + perSecond := by
    exact_mod_cast high
  simp only [unit_eq, perSecond] at low high ⊢
  rw [round_eq_iff]
  push_cast at low high ⊢
  constructor <;> linarith

end Fractions

section Walls

/-- The place of a timetag in the order of seconds and, within a second, of fractions. -/
def place (tag : Timetag) : Nat ×ₗ Nat :=
  toLex (tag.seconds, tag.fraction)

/-- The first wall clock time whose second an era has no number for. -/
def eraEnd : Int :=
  ((unit : Int) - unixOffset) * perSecond

/-- The wall clock time nearest to a timetag. -/
def toWall (tag : Timetag) : Int :=
  ((tag.seconds : Int) - unixOffset) * perSecond + round ((tag.fraction : ℚ) * perSecond / unit)

variable {wall wall' : Int}

/-- Before the end of the era the number of seconds does not wrap around. -/
theorem seconds_ofWall (within : wall < eraEnd) :
    (ofWall wall).seconds = wall.toNat / perSecond + unixOffset := by
  refine Nat.mod_eq_of_lt ?_
  simp only [eraEnd, unit_eq, unixOffset, perSecond, Duration.wholeSeconds] at within ⊢
  omega

/-- The fraction of a tag is that of the nanoseconds beyond whole seconds. -/
@[simp] theorem fraction_ofWall (wall : Int) :
    (ofWall wall).fraction = fractionOf (wall.toNat % perSecond) :=
  rfl

/-- A fraction is less than a second. -/
theorem fraction_lt (wall : Int) : (ofWall wall).fraction < unit :=
  fractionOf_lt (Nat.mod_lt _ (by decide))

/-- Timetags are in the order of the wall clock. -/
theorem place_ofWall_mono (before : wall ≤ wall') (within : wall' < eraEnd) :
    place (ofWall wall) ≤ place (ofWall wall') := by
  have earlier : wall.toNat ≤ wall'.toNat := Int.toNat_le_toNat before
  rw [place, place, seconds_ofWall (before.trans_lt within), seconds_ofWall within,
    Prod.Lex.toLex_le_toLex, fraction_ofWall, fraction_ofWall]
  rcases (Nat.div_le_div_right earlier : _ ≤ wall'.toNat / perSecond).lt_or_eq with sooner | same
  · exact Or.inl (Nat.add_lt_add_right sooner unixOffset)
  · -- Within one second the rest of the time decides.
    refine Or.inr ⟨congrArg (· + unixOffset) same, fractionOf_mono ?_⟩
    have parts := Nat.div_add_mod wall.toNat perSecond
    have parts' := Nat.div_add_mod wall'.toNat perSecond
    rw [same] at parts
    omega

/-- A wall clock time of the era is told by its timetag. -/
theorem toWall_ofWall (known : 0 ≤ wall) (within : wall < eraEnd) :
    toWall (ofWall wall) = wall := by
  have parts := Int.mul_ediv_add_emod wall perSecond
  rw [toWall, seconds_ofWall within, fraction_ofWall, round_fractionOf]
  push_cast
  rw [Int.toNat_of_nonneg known, add_sub_cancel_right, mul_comm]
  exact parts

end Walls

section Times

open Binary64

variable {epoch wall : Int} {time : Float}

/-- A double is a length of time if its nearest number of nanoseconds is that of one. -/
theorem exists_ofSeconds?_iff {distance : Int} :
    (∃ d, Duration.ofSeconds? time = some d ∧ (d.nanoseconds : Int) = distance) ↔
      time.isFinite = true ∧ 0 ≤ value time ∧ RoundsTo (value time * perSecond) distance ∧
        |distance| < UInt64.size * perSecond := by
  unfold Duration.ofSeconds?
  -- The conversion fails for what is no number or below zero, and beyond the range of durations.
  constructor
  · rintro ⟨d, long, rfl⟩
    split at long
    · rename_i count found
      obtain ⟨small, same⟩ := Option.ite_none_right_eq_some.mp long
      cases same
      obtain ⟨finite, low, rounds⟩ := multiple?_eq_some_iff.mp found
      refine ⟨finite, low, rounds, ?_⟩
      rw [Nat.abs_cast]
      exact_mod_cast small
    · cases long
  · rintro ⟨finite, low, rounds, near⟩
    obtain ⟨count, rfl⟩ := Int.eq_ofNat_of_zero_le (rounds.nonneg (by positivity))
    rw [Nat.abs_cast] at near
    rw [multiple?_eq_some_iff.mpr ⟨finite, low, rounds⟩]
    exact ⟨⟨count⟩, if_pos (by exact_mod_cast near), rfl⟩

/-- The times on the clock are those whose seconds fit a machine word. -/
def OnClock (wall : Int) : Prop :=
  Int64.minValue.toInt ≤ wall / perSecond ∧ wall / perSecond ≤ Int64.maxValue.toInt

/-- The clock shows a time as long after the epoch, or before it when the time is below zero. -/
theorem wall?_iff_ofSeconds? : wall? epoch time = some wall ↔ OnClock wall ∧
    if (0.0 : Float) ≤ time then
      ∃ d, Duration.ofSeconds? time = some d ∧ (d.nanoseconds : Int) = wall - epoch
    else ∃ d, Duration.ofSeconds? (-time) = some d ∧ (d.nanoseconds : Int) = -(wall - epoch) := by
  unfold wall? OnClock
  -- Times before the epoch are counted backwards from it.
  split <;>
  · simp only [Option.bind_eq_bind, Option.bind_eq_some_iff, Option.map_eq_some_iff,
      Option.ite_none_right_eq_some, Option.some.injEq]
    constructor
    · rintro ⟨_, ⟨d, long, rfl⟩, range, rfl⟩
      exact ⟨range, d, long, by omega⟩
    · rintro ⟨range, d, long, distance⟩
      exact ⟨wall, ⟨d, long, by omega⟩, range, rfl⟩

/-- The clock shows a finite time at the nearest nanosecond, if that lies within its range. -/
theorem wall?_eq_some_iff : wall? epoch time = some wall ↔
    time.isFinite = true ∧ RoundsTo (value time * perSecond) (wall - epoch) ∧
      |wall - epoch| < UInt64.size * perSecond ∧ OnClock wall := by
  rw [wall?_iff_ofSeconds?, and_comm]
  split
  · rename_i low
    rw [exists_ofSeconds?_iff]
    constructor
    · rintro ⟨⟨finite, _, rounds, near⟩, range⟩
      exact ⟨finite, rounds, near, range⟩
    · rintro ⟨finite, rounds, near, range⟩
      exact ⟨⟨finite, (nonneg_iff_value finite).mp low, rounds, near⟩, range⟩
  · rename_i below
    -- A time below zero is measured by its negation, which is rounded alike.
    rw [exists_ofSeconds?_iff, isFinite_negation_iff, abs_neg]
    constructor
    · rintro ⟨⟨finite, _, rounds, near⟩, range⟩
      have rounds := rounds.neg
      rw [value_negation finite, neg_mul, neg_neg, neg_neg] at rounds
      exact ⟨finite, rounds, near, range⟩
    · rintro ⟨finite, rounds, near, range⟩
      have above := (not_le.mp (mt (nonneg_iff_value finite).mpr below)).le
      rw [value_negation finite, neg_mul]
      exact ⟨⟨finite, neg_nonneg.mpr above, rounds.neg, near⟩, range⟩

variable {time' : Float} {wall' : Int}

/-- The clock keeps the order of times. -/
theorem wall?_mono (before : time ≤ time') (shown : wall? epoch time = some wall)
    (shown' : wall? epoch time' = some wall') : wall ≤ wall' := by
  obtain ⟨finite, rounds, _⟩ := wall?_eq_some_iff.mp shown
  obtain ⟨finite', rounds', _⟩ := wall?_eq_some_iff.mp shown'
  have below := (le_iff_value finite finite').mp before
  have counts := rounds.mono rounds' (by gcongr)
  omega

/-- A time with a wall clock has the tag of that clock. -/
theorem ofTime?_of_wall? (shown : wall? epoch time = some wall) :
    ofTime? epoch time = some (ofWall wall) :=
  congrArg (Option.map ofWall) shown

/-- A timetag that tells a time to the nanosecond, unless that is before the start of 1970. -/
structure Tells (epoch : Int) (time : Float) (wall : Int) (tag : Timetag) : Prop where
  /-- The wall clock time is the nanosecond nearest to the time. -/
  nearest : RoundsTo (value time * perSecond) (wall - epoch)
  /-- The fraction does not carry into the seconds. -/
  below_second : tag.fraction < unit
  /-- The timetag gives the wall clock time back. -/
  told : 0 ≤ wall → toWall tag = wall

/-- Within the era the tag of a wall clock tells its time. -/
theorem tells_ofWall (shown : wall? epoch time = some wall) (within : wall < eraEnd) :
    Tells epoch time wall (ofWall wall) where
  nearest := (wall?_eq_some_iff.mp shown).2.1
  below_second := fraction_lt wall
  told known := toWall_ofWall known within

/-- Within the era the timetags of two times are in the order of the times, and from 1970 on each
tells the nanosecond of its time, so that those of different nanoseconds differ. -/
theorem timetags_keep_order (before : time ≤ time') (shown : wall? epoch time = some wall)
    (shown' : wall? epoch time' = some wall') (within : wall' < eraEnd) :
    ∃ tag tag', ofTime? epoch time = some tag ∧ ofTime? epoch time' = some tag' ∧
      place tag ≤ place tag' ∧ Tells epoch time wall tag ∧ Tells epoch time' wall' tag' ∧
      (0 ≤ wall → wall ≠ wall' → tag ≠ tag') := by
  have order := wall?_mono before shown shown'
  have tells := tells_ofWall shown (order.trans_lt within)
  have tells' := tells_ofWall shown' within
  refine ⟨_, _, ofTime?_of_wall? shown, ofTime?_of_wall? shown', place_ofWall_mono order within,
    tells, tells', fun known differ same => differ ?_⟩
  -- Both wall clock times are read back from the one timetag.
  rw [← tells.told known, same, tells'.told (known.trans order)]

/-- A tenth of a second before an epoch and three tenths after it, both rounded as doubles are. -/
theorem timetags_keep_order_tenths :
    (-0.1 : Float) ≤ 0.3 ∧ wall? 100000000000 (-0.1 : Float) = some 99900000000 ∧
      wall? 100000000000 (0.3 : Float) = some 100300000000 ∧ 100300000000 < eraEnd ∧
      ∃ tag tag', ofTime? 100000000000 (-0.1 : Float) = some tag ∧
        ofTime? 100000000000 (0.3 : Float) = some tag' ∧ place tag ≤ place tag' ∧
        Tells 100000000000 (-0.1) 99900000000 tag ∧ Tells 100000000000 0.3 100300000000 tag' ∧
        (0 ≤ (99900000000 : Int) → (99900000000 : Int) ≠ 100300000000 → tag ≠ tag') := by
  have before : (-0.1 : Float) ≤ 0.3 := by decide +kernel
  have shown : wall? 100000000000 (-0.1 : Float) = some 99900000000 := by decide +kernel
  have shown' : wall? 100000000000 (0.3 : Float) = some 100300000000 := by decide +kernel
  have within : 100300000000 < eraEnd := by decide
  exact ⟨before, shown, shown', within, timetags_keep_order before shown shown' within⟩

end Times

end Melody.Osc.Timetag
