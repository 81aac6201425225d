import Melody.Proofs.Note.Endless
import Melody.Proofs.Scalar.Overflow

/-! On doubles the settling of conflicts keeps notes valid, but for what gets infinite. -/

namespace Melody

open Binary64

namespace Note

/-- A note that is valid, except that its duration or its velocity may be infinite. -/
structure Proper (note : Note Float) : Prop where
  begins : Begins note.start
  duration : 0.0 < note.duration
  velocity : 0.0 < note.velocity
  pan : (-1.0 : Float) ≤ note.pan ∧ note.pan ≤ 1.0

variable {note first second : Note Float}

/-- The check of durations and velocities asks for a finite double above zero. -/
theorem isPositive_iff_finite {x : Float} :
    Scalar.isPositive x = true ↔ x.isFinite = true ∧ 0.0 < x := by
  rw [Scalar.isPositive, Bool.and_eq_true, decide_eq_true_iff]
  rfl

/-- A note passes the checks when it is proper and its values are finite. -/
theorem admitted_iff : Resolution.Admitted note ↔
    note.Proper ∧ note.duration.isFinite = true ∧ note.velocity.isFinite = true := by
  -- Each check is a condition that either passes or fails with its error.
  have guards : ∀ {held : Prop} [Decidable held] {error : Error Float},
      (if held then Except.ok () else Except.error error) = .ok () ↔ held := by
    intro held _ error
    split <;> simp [*]
  simp only [Resolution.Admitted, ofParts, make, withVelocity, withPan, bind_eq_ok, checkDuration,
    checkVelocity, checkPan, guards, isPositive_iff_finite]
  constructor
  · rintro ⟨_, ⟨_, begins, _, ⟨finite, lasts⟩, ⟨⟩⟩, _, ⟨_, ⟨loud, sounds⟩, ⟨⟩⟩, _, placed, _⟩
    exact ⟨⟨checkStart_eq_ok_iff.mp begins, lasts, sounds, placed⟩, finite, loud⟩
  · rintro ⟨⟨begins, lasts, sounds, placed⟩, finite, loud⟩
    exact ⟨_, ⟨(), checkStart_eq_ok_iff.mpr begins, (), ⟨finite, lasts⟩, rfl⟩, _,
      ⟨(), ⟨loud, sounds⟩, rfl⟩, (), placed, rfl⟩

/-- A start that passes its check is a number on the line above the lower limit. -/
theorem Begins.levelOf {start : Float} (begins : Begins start) :
    levelOf start = some (value start) ∧ -limit < value start :=
  ⟨levelOf_of_isFinite begins.finite, (neg_lt_zero.mpr limit_pos).trans_le begins.nonneg⟩

/-- A proper note does not end before it starts, even if it ends at infinity. -/
theorem Proper.start_le_finish (proper : note.Proper) : note.start ≤ note.finish :=
  le_add_of_pos proper.begins.levelOf.1 proper.begins.levelOf.2 proper.duration

/-- The end of a note is a number above zero, or infinite. -/
theorem Proper.levelOf_finish (proper : note.Proper) :
    ∃ ends, levelOf note.finish = some ends ∧ value note.start ≤ ends ∧ -limit < ends := by
  -- The end may be infinite, which is a number on the line all the same.
  obtain ⟨start, ends, here, there, below⟩ := le_iff_levelOf.mp proper.start_le_finish
  cases here.symm.trans proper.begins.levelOf.1
  exact ⟨ends, there, below, proper.begins.levelOf.2.trans_le below⟩

/-- The tolerance is not below zero. -/
theorem value_tolerance_nonneg : 0 ≤ value tolerance :=
  (zpow_pos (by norm_num) _).le.trans lt_value_tolerance.1.le

/-- What is below the end of a note by more than the tolerance is below the end. -/
theorem Proper.lt_finish (proper : note.Proper) {start : Float}
    (reaches : start < note.finish - tolerance) : start < note.finish := by
  obtain ⟨ends, found, _, above⟩ := proper.levelOf_finish
  exact lt_trans_le reaches (sub_le_of_nonneg found above isFinite_tolerance value_tolerance_nonneg)

/-- A finite velocity of a proper note is a number above zero. -/
theorem Proper.value_velocity_pos (proper : note.Proper) (finite : note.velocity.isFinite = true) :
    0 < value note.velocity :=
  (pos_iff_value finite).mp proper.velocity

/-- The larger of two ends is no less than either of them. -/
theorem Proper.finish_le_larger (one : first.Proper) (two : second.Proper) :
    first.finish ≤ Scalar.larger first.finish second.finish ∧
      second.finish ≤ Scalar.larger first.finish second.finish := by
  obtain ⟨p, here, _⟩ := one.levelOf_finish
  obtain ⟨q, there, _⟩ := two.levelOf_finish
  obtain ⟨left, right, _⟩ := larger_spec (le_iff_levelOf.mpr ⟨p, p, here, here, le_rfl⟩)
    (le_iff_levelOf.mpr ⟨q, q, there, there, le_rfl⟩)
  exact ⟨left, right⟩

/-- A proper note that is put to a later end is proper. -/
theorem Proper.endingAt (proper : note.Proper) {finish : Float} (later : note.start < finish) :
    (note.endingAt finish).Proper :=
  ⟨proper.begins, sub_pos_of_lt proper.begins.finite later, proper.velocity, proper.pan⟩

/-- The larger of two values has what both of them have. -/
theorem larger_of {holds : Float → Prop} {x y : Float} (left : x ≤ x) (right : y ≤ y)
    (one : holds x) (two : holds y) : holds (Scalar.larger x y) := by
  rcases (larger_spec left right).2.2 with same | same
  · exact same.symm ▸ one
  · exact same.symm ▸ two

/-- The larger velocity of two proper notes is above zero. -/
theorem Proper.larger_velocity (one : first.Proper) (two : second.Proper) :
    0.0 < Scalar.larger first.velocity second.velocity :=
  larger_of (numbers_of_lt one.velocity).2 (numbers_of_lt two.velocity).2 one.velocity
    two.velocity

/-- The larger pan of two proper notes is within the bounds of a pan. -/
theorem Proper.larger_pan (one : first.Proper) (two : second.Proper) :
    (-1.0 : Float) ≤ Scalar.larger first.pan second.pan ∧
      Scalar.larger first.pan second.pan ≤ 1.0 := by
  -- A pan within bounds compares with them, so it is a number.
  have number : ∀ {note : Note Float}, note.Proper → note.pan ≤ note.pan :=
    fun proper => OrderedScalar.number_of_le proper.pan.1
  exact @larger_of (fun pan => (-1.0 : Float) ≤ pan ∧ pan ≤ 1.0) _ _ (number one) (number two)
    one.pan two.pan

/-- Velocities above zero have a sum above zero. -/
theorem add_pos_of_pos {x y : Float} (left : 0.0 < x) (right : 0.0 < y) : 0.0 < x + y := by
  -- The sum may be infinite, but is no less than its first part.
  obtain ⟨_, p, zero, here, positive⟩ := lt_iff_levelOf.mp left
  cases levelOf_zero.symm.trans zero
  exact lt_trans_le left (le_add_of_pos here ((neg_lt_zero.mpr limit_pos).trans positive) right)

end Note

namespace Strategy

open Note Resolution

variable {note first second : Note Float}

/-- Two notes of a conflict, of which the first one does not start later. -/
structure Meets (first second : Note Float) : Prop where
  one : first.Proper
  two : second.Proper
  conflict : first.conflictsWith second = true
  ordered : value first.start ≤ value second.start

/-- A note from the start of one note to the later end of it and another one. -/
def spanning (first second : Note Float) : Note Float :=
  first.endingAt (Scalar.larger first.finish second.finish)

/-- The note with the start of another one. -/
def startingWith (first second : Note Float) : Note Float :=
  { first with start := second.start }

/-- The times up to half of the limit. -/
def farthest : ℚ :=
  2 ^ 52 * 2 ^ (971 : ℤ)

/-- A start and a duration whose end is within half of the limit. -/
def Within (start duration : Float) : Prop :=
  ∃ ends, levelOf (start + duration) = some ends ∧ ends ≤ farthest

/-- The farthest of these times is below the limit. -/
theorem farthest_lt_limit : farthest < limit := by
  -- It is the unit of the largest doubles times a number of 53 bits.
  have short := @mul_lt_limit (2 ^ 52) (by norm_num)
  rwa [Nat.cast_pow, Nat.cast_ofNat] at short

/-- What is at most the farthest of these times is so when it is cut, too. -/
theorem cut_le_farthest {number : ℚ} (below : number ≤ farthest) : cut number ≤ farthest :=
  max_le ((neg_lt_zero.mpr limit_pos).le.trans (by unfold farthest; positivity))
    ((min_le_left _ _).trans below)

/-- A note that ends within half of the limit has a finite end and a finite duration. -/
theorem finite_of_within (proper : first.Proper) (within : Within first.start first.duration) :
    first.finish.isFinite = true ∧ first.duration.isFinite = true := by
  -- The end lies within the farthest one, which is below the limit of doubles.
  obtain ⟨ends, found, bound⟩ := within
  obtain ⟨_, finish, _, above⟩ := proper.levelOf_finish
  cases found.symm.trans finish
  have finite : first.finish.isFinite = true := isFinite_iff_levelOf.mpr
    ⟨ends, found, abs_lt.mpr ⟨above, bound.trans_lt farthest_lt_limit⟩⟩
  exact ⟨finite, isFinite_of_add proper.begins.finite finite⟩

/-- A note that ends by a time within half of the limit does so, too. -/
theorem within_of_finish_le {far : Float} (finite : far.isFinite = true)
    (half : value far ≤ farthest) (below : note.finish ≤ far) :
    Within note.start note.duration := by
  obtain ⟨ends, _, here, there, below⟩ := le_iff_levelOf.mp below
  cases there.symm.trans (levelOf_of_isFinite finite)
  exact ⟨ends, here, below.trans half⟩

/-- What is put to an end within half of the limit ends there at most. -/
theorem within_sub {start finish : Float} (begins : Begins start) (finite : finish.isFinite = true)
    (ordered : value start ≤ value finish) (bound : value finish ≤ farthest) :
    Within start (finish - start) := by
  have held := isFinite_sub begins.finite finite begins.nonneg ordered
  have length := closest_sub finite begins.finite held
  obtain ⟨ends, closest, level⟩ := levelOf_add begins.finite held
  refine ⟨_, level, cut_le_farthest (closest.le_of_lt_half (by norm_num) ?_)⟩
  have nonneg := begins.nonneg
  -- The length does not exceed the time itself, which is a double.
  have whole := length.le_of_le (fits_value finish) (sub_le_self _ nonneg)
  have size : (0 : ℚ) < 2 ^ (971 : ℤ) := by positivity
  change value finish ≤ 2 ^ 52 * 2 ^ (971 : ℤ) at bound
  by_cases short : |value finish - value start| < 2 ^ (1023 : ℤ)
  · -- The length is off by a quarter of a unit at most, and so is the end.
    have near := (abs_le.mp (length.near 1023 (by norm_num) short)).2
    have quarter : (2 : ℚ) ^ (1023 - 54 : ℤ) = 2 ^ (971 : ℤ) / 4 := by
      rw [show (1023 - 54 : ℤ) = 971 - 2 by norm_num, zpow_sub₀ (by norm_num)]
      norm_num
    rw [quarter] at near
    generalize (2 : ℚ) ^ (971 : ℤ) = unit at *
    linarith only [near, bound, size]
  · -- The whole time up to half of the limit is a double.
    have power : (2 : ℚ) ^ (1023 : ℤ) = 2 ^ 52 * 2 ^ (971 : ℤ) := zpow_add₀ (by norm_num) 52 971
    rw [abs_of_nonneg (sub_nonneg.mpr ordered), power, not_lt] at short
    generalize (2 : ℚ) ^ (971 : ℤ) = unit at *
    linarith only [short, bound, whole, size]

/-- A note that is put to the later one of two ends within half of the limit ends there at most. -/
theorem within_larger (begins : Begins first.start)
    (before : first.start < Scalar.larger first.finish second.finish)
    (one : Within first.start first.duration) (two : Within second.start second.duration) :
    Within first.start (Scalar.larger first.finish second.finish - first.start) := by
  obtain ⟨p, here, left⟩ := one
  obtain ⟨q, there, right⟩ := two
  have numbers := larger_spec (le_iff_levelOf.mpr ⟨p, p, here, here, le_rfl⟩)
    (le_iff_levelOf.mpr ⟨q, q, there, there, le_rfl⟩)
  -- The later end is one of the two, both of which are near.
  obtain ⟨level, found, bound⟩ :
      ∃ level, levelOf (Scalar.larger first.finish second.finish) = some level ∧
        level ≤ farthest := by
    rcases numbers.2.2 with same | same
    · exact ⟨p, (congrArg levelOf same).trans here, left⟩
    · exact ⟨q, (congrArg levelOf same).trans there, right⟩
  obtain ⟨_, _, starts, ends, less⟩ := lt_iff_levelOf.mp before
  cases starts.symm.trans begins.levelOf.1
  cases found.symm.trans ends
  have finite := isFinite_iff_levelOf.mpr
    ⟨level, found, abs_lt.mpr ⟨begins.levelOf.2.trans less, bound.trans_lt farthest_lt_limit⟩⟩
  cases found.symm.trans (levelOf_of_isFinite finite)
  exact within_sub begins finite less.le bound

/-- How many units of the largest doubles cover the velocity of a note. -/
def loudness (note : Note Float) : Nat :=
  ⌈value note.velocity / 2 ^ (971 : ℤ)⌉₊

/-- The units of a note cover its velocity. -/
theorem value_velocity_le (note : Note Float) :
    value note.velocity ≤ loudness note * 2 ^ (971 : ℤ) :=
  (div_le_iff₀ (by positivity)).mp (Nat.le_ceil _)

/-- Any number of units that covers the velocity of a note is at least that of the note. -/
theorem loudness_le {note : Note Float} {count : Nat}
    (below : value note.velocity ≤ count * 2 ^ (971 : ℤ)) : loudness note ≤ count :=
  Nat.ceil_le.mpr ((div_le_iff₀ (by positivity)).mpr below)

/-- Velocities that fewer than 2 ^ 53 units cover have a finite sum, which those units cover. -/
theorem velocity_sum (one : first.velocity.isFinite = true) (two : second.velocity.isFinite = true)
    (left : 0 ≤ value first.velocity) (right : 0 ≤ value second.velocity)
    (few : loudness first + loudness second < 2 ^ 53) :
    (first.velocity + second.velocity).isFinite = true ∧
      value (first.velocity + second.velocity) ≤
        (loudness first + loudness second : Nat) * 2 ^ (971 : ℤ) := by
  obtain ⟨total, closest, level⟩ := levelOf_add one two
  have covered : value first.velocity + value second.velocity ≤
      (loudness first + loudness second : Nat) * 2 ^ (971 : ℤ) := by
    rw [Nat.cast_add, add_mul]
    exact add_le_add (value_velocity_le first) (value_velocity_le second)
  -- As a number of units with at most 53 bits, the cover itself is not passed by rounding.
  generalize loudness first + loudness second = count at few covered ⊢
  have size : |(count : ℤ)| < 2 ^ 53 := by
    rw [Nat.abs_cast]
    exact_mod_cast few
  have fits : Fits (count * 2 ^ (971 : ℤ)) :=
    ⟨count, 971, size, by norm_num, by rw [Int.cast_natCast]⟩
  have low := closest.ge_of_ge fits_zero (add_nonneg left right)
  have high := closest.le_of_le fits covered
  have small : |total| < limit := by
    rw [abs_of_nonneg low]
    exact high.trans_lt (mul_lt_limit few)
  rw [cut_of_small small] at level
  have finite := isFinite_iff_levelOf.mpr ⟨_, level, small⟩
  cases level.symm.trans (levelOf_of_isFinite finite)
  exact ⟨finite, high⟩

/-- The notes that may be left of two notes of a conflict. -/
inductive Left (strategy : Strategy) (first second : Note Float) : Note Float → Prop where
  | first (before : value first.start < value second.start) : Left strategy first second first
  | second : Left strategy first second second
  | moved (together : startTogether first second = true) :
    Left strategy first second (startingWith first second)
  | trimmed (trims : strategy.overlap = .trim) (before : value first.start < value second.start) :
    Left strategy first second (first.endingAt second.start)
  | merged (merges : strategy.overlap = .merge) (before : value first.start < value second.start) :
    Left strategy first second
      { spanning first second with velocity := Scalar.larger first.velocity second.velocity }
  | added (adds : strategy.coincident = .sum) (together : startTogether first second = true) :
    Left strategy first second
      { spanning (startingWith first second) second with
        velocity := first.velocity + second.velocity }
  | largest (largest : strategy.coincident = .maxProperties)
      (together : startTogether first second = true) :
    Left strategy first second
      { spanning (startingWith first second) second with
        velocity := Scalar.larger first.velocity second.velocity
        pan := Scalar.larger first.pan second.pan }

namespace Meets

/-- Notes that start together are replaced as if the first one started with the second one, and
others as they are. -/
theorem resolve_eq (meets : Meets first second) (strategy : Strategy) :
    (startTogether first second = true ∧ strategy.resolve (align first second) second =
        resolveCoincident strategy.coincident (startingWith first second) second) ∨
      value first.start < value second.start ∧ strategy.resolve (align first second) second =
        resolveOverlap strategy.overlap first second := by
  unfold resolve align
  -- Aligned notes start together still, as both have the same start then.
  by_cases together : startTogether first second = true
  · have moved : startTogether (startingWith first second) second = true :=
      startTogether_of_value_eq meets.two.begins meets.two.begins rfl
    rw [if_pos together]
    exact Or.inl ⟨together, if_pos moved⟩
  · rw [if_neg together, if_neg together]
    refine Or.inr ⟨lt_of_le_of_ne meets.ordered fun same => together ?_, rfl⟩
    exact startTogether_of_value_eq meets.one.begins meets.two.begins same

/-- No other notes are left of two notes of a conflict. -/
theorem left (meets : Meets first second) (strategy : Strategy) :
    ∀ note ∈ strategy.resolve (align first second) second, Left strategy first second note := by
  rcases meets.resolve_eq strategy with ⟨together, same⟩ | ⟨before, same⟩
  · rw [same]
    -- The longer and the shorter note are chosen alike, whatever the comparison finds.
    have kept : ∀ {held : Prop} [Decidable held], ∀ note ∈
        if held then [second] else [startingWith first second],
          Left strategy first second note := by
      intro held _
      split
      · exact List.forall_mem_singleton.mpr .second
      · exact List.forall_mem_singleton.mpr (.moved together)
    cases choice : strategy.coincident with
    | sum => exact List.forall_mem_singleton.mpr (.added choice together)
    | remove => exact List.forall_mem_nil _
    | longer => exact kept
    | shorter => exact kept
    | maxProperties => exact List.forall_mem_singleton.mpr (.largest choice together)
  · rw [same]
    cases choice : strategy.overlap with
    | merge => exact List.forall_mem_singleton.mpr (.merged choice before)
    | trim =>
      exact List.forall_mem_cons.mpr ⟨.trimmed choice before, List.forall_mem_singleton.mpr .second⟩
    | remove => exact List.forall_mem_nil _
    | first => exact List.forall_mem_singleton.mpr (.first before)
    | second => exact List.forall_mem_singleton.mpr .second

/-- The first note may start when the second one does. -/
theorem moved (meets : Meets first second) : (startingWith first second).Proper :=
  ⟨meets.two.begins, meets.one.duration, meets.one.velocity, meets.one.pan⟩

/-- The first note ends no earlier when it is moved to the start of the second one. -/
theorem finish_le (meets : Meets first second) :
    first.finish ≤ (startingWith first second).finish := by
  obtain ⟨_, q, zero, found, positive⟩ := lt_iff_levelOf.mp meets.one.duration
  cases levelOf_zero.symm.trans zero
  exact add_le_add_of_value_le meets.one.begins.finite meets.two.begins.finite
    meets.one.begins.nonneg meets.ordered found ((neg_lt_zero.mpr limit_pos).trans positive)

/-- The later end of the two notes lies behind the start of the first one. -/
theorem lt_later (meets : Meets first second) :
    first.start < Scalar.larger first.finish second.finish := by
  -- A conflict needs the first note to start before the second one ends.
  obtain ⟨_, starts, _⟩ := conflictsWith_iff.mp meets.conflict
  exact lt_trans_le (meets.two.lt_finish starts) (meets.one.finish_le_larger meets.two).2

/-- The later end lies behind the start of the second note as well, to which the first is moved. -/
theorem moved_lt_later (meets : Meets first second) :
    second.start < Scalar.larger (startingWith first second).finish second.finish := by
  obtain ⟨_, _, reaches⟩ := conflictsWith_iff.mp meets.conflict
  -- The moved note reaches beyond its start because the note before it did.
  exact lt_trans_le (lt_trans_le (meets.one.lt_finish reaches) meets.finish_le)
    (meets.moved.finish_le_larger meets.two).1

/-- What is left of two notes of a conflict is proper. -/
theorem proper_of_left (meets : Meets first second) {strategy : Strategy} {note : Note Float}
    (left : Left strategy first second note) : note.Proper := by
  -- A kept note is proper already, and a new end is later than the start.
  cases left with
  | first before => exact meets.one
  | second => exact meets.two
  | moved together => exact meets.moved
  | trimmed trims before =>
    exact meets.one.endingAt ((lt_iff_value meets.one.begins.finite meets.two.begins.finite).mpr
      before)
  | merged merges before =>
    obtain ⟨begins, lasts, _, placed⟩ := meets.one.endingAt meets.lt_later
    exact ⟨begins, lasts, meets.one.larger_velocity meets.two, placed⟩
  | added adds together =>
    obtain ⟨begins, lasts, _, placed⟩ := meets.moved.endingAt meets.moved_lt_later
    exact ⟨begins, lasts, add_pos_of_pos meets.one.velocity meets.two.velocity, placed⟩
  | largest largest together =>
    obtain ⟨begins, lasts, _, _⟩ := meets.moved.endingAt meets.moved_lt_later
    exact ⟨begins, lasts, meets.one.larger_velocity meets.two, meets.one.larger_pan meets.two⟩

/-- What is left of two notes of a conflict has finite velocities if they are not added up, or if
their sum is finite. -/
theorem velocity_of_left (meets : Meets first second) {strategy : Strategy} {note : Note Float}
    (left : Left strategy first second note) (one : first.velocity.isFinite = true)
    (two : second.velocity.isFinite = true)
    (sums : strategy.coincident = .sum → (first.velocity + second.velocity).isFinite = true) :
    note.velocity.isFinite = true := by
  have larger : (Scalar.larger first.velocity second.velocity).isFinite = true :=
    @larger_of (Float.isFinite · = true) _ _ (numbers_of_lt meets.one.velocity).2
      (numbers_of_lt meets.two.velocity).2 one two
  -- Only adding makes a velocity that was not there before.
  cases left with
  | first before => exact one
  | second => exact two
  | moved together => exact one
  | trimmed trims before => exact one
  | merged merges before => exact larger
  | added adds together => exact sums adds
  | largest largest together => exact larger

/-- What is left of two notes of a conflict needs no more units of velocity than they did. -/
theorem loudness_resolve (meets : Meets first second) (strategy : Strategy)
    (one : first.velocity.isFinite = true) (two : second.velocity.isFinite = true)
    (few : loudness first + loudness second < 2 ^ 53) :
    ((strategy.resolve (align first second) second).map loudness).sum ≤
      loudness first + loudness second := by
  have larger : value (Scalar.larger first.velocity second.velocity) ≤
      (loudness first + loudness second : Nat) * 2 ^ (971 : ℤ) := by
    refine @larger_of (value · ≤ _) _ _ (numbers_of_lt meets.one.velocity).2
      (numbers_of_lt meets.two.velocity).2 ((value_velocity_le first).trans ?_)
      ((value_velocity_le second).trans ?_)
    · gcongr
      exact Nat.le_add_right _ _
    · gcongr
      exact Nat.le_add_left _ _
  -- Either way at most the units of both notes are left.
  rcases meets.resolve_eq strategy with ⟨_, same⟩ | ⟨_, same⟩
  · rw [same]
    have kept : ∀ {held : Prop} [Decidable held],
        ((if held then [second] else [startingWith first second]).map loudness).sum ≤
          loudness first + loudness second := by
      intro held _
      split
      · exact Nat.le_add_left _ _
      · exact Nat.le_add_right _ _
    cases strategy.coincident with
    | sum =>
      exact loudness_le (velocity_sum one two (meets.one.value_velocity_pos one).le
        (meets.two.value_velocity_pos two).le few).2
    | remove => exact Nat.zero_le _
    | longer => exact kept
    | shorter => exact kept
    | maxProperties => exact loudness_le larger
  · rw [same]
    cases strategy.overlap with
    | merge => exact loudness_le larger
    | trim => exact le_rfl
    | remove => exact Nat.zero_le _
    | first => exact Nat.le_add_right _ _
    | second => exact Nat.le_add_left _ _

/-- What is left of two notes of a conflict lasts for finite times if no note is put to an end but
the start of another one. -/
theorem duration_of_left (meets : Meets first second) {strategy : Strategy} {note : Note Float}
    (left : Left strategy first second note) (apart : strategy.overlap ≠ .merge)
    (single : strategy.coincident ≠ .sum ∧ strategy.coincident ≠ .maxProperties)
    (one : first.duration.isFinite = true) (two : second.duration.isFinite = true) :
    note.duration.isFinite = true := by
  -- Trimmed notes end between two finite starts, and joined ones are excluded.
  cases left with
  | first before => exact one
  | second => exact two
  | moved together => exact one
  | trimmed trims before =>
    exact isFinite_sub meets.one.begins.finite meets.two.begins.finite meets.one.begins.nonneg
      meets.ordered
  | merged merges before => exact absurd merges apart
  | added adds together => exact absurd adds single.1
  | largest largest together => exact absurd largest single.2

/-- Notes that start together do so within one beat. -/
theorem sub_lt_one (meets : Meets first second) (together : startTogether first second = true) :
    value second.start - value first.start < 1 := by
  have finite := isFinite_sub meets.one.begins.finite meets.two.begins.finite
    meets.one.begins.nonneg meets.ordered
  have closest := closest_sub meets.two.begins.finite meets.one.begins.finite finite
  have nonneg := closest.ge_of_ge fits_zero (sub_nonneg.mpr meets.ordered)
  rw [startTogether, decide_eq_true_iff, Scalar.magnitude, if_neg, le_iff_value finite
    isFinite_tolerance] at together
  · -- A difference of one or more is not rounded below one.
    by_contra apart
    have whole := closest.ge_of_ge ⟨1, 0, by norm_num, by norm_num, by norm_num⟩ (not_lt.mp apart)
    have small : value tolerance < 1 := lt_value_tolerance.2.trans (by norm_num)
    exact absurd (whole.trans together) small.not_ge
  · rw [lt_iff_value finite isFinite_zero, value_zero]
    exact nonneg.not_gt

/-- A note also ends within half of the limit if it is moved to the start of one that it starts
together with. -/
theorem within_moved (meets : Meets first second) (together : startTogether first second = true)
    (one : Within first.start first.duration) : Within second.start first.duration := by
  obtain ⟨ends, found, bound⟩ := one
  obtain ⟨_, q, zero, lasts, positive⟩ := lt_iff_levelOf.mp meets.one.duration
  cases levelOf_zero.symm.trans zero
  have begins := meets.one.begins
  rcases meets.ordered.eq_or_lt with same | before
  · obtain ⟨_, _, moved, found', below⟩ := le_iff_levelOf.mp
      (add_le_add_of_value_le meets.two.begins.finite begins.finite meets.two.begins.nonneg same.ge
        lasts ((neg_lt_zero.mpr limit_pos).trans positive))
    cases found.symm.trans found'
    exact ⟨_, moved, below.trans bound⟩
  · -- Starts that differ by less than one are far from the limit, where doubles lie apart.
    have close := meets.sub_lt_one together
    have early : value first.start < 2 ^ 52 := by
      by_contra late
      have apart := add_unit_le 0 (by simpa using not_lt.mp late) before
      rw [zpow_zero] at apart
      linarith
    obtain ⟨finite, finite'⟩ := finite_of_within meets.one ⟨ends, found, bound⟩
    have total := closest_add begins.finite finite' finite
    cases found.symm.trans (levelOf_of_isFinite finite)
    have short := total.ge_of_ge (fits_value first.duration) (le_add_of_nonneg_left begins.nonneg)
    obtain ⟨_, closest, level⟩ := levelOf_add meets.two.begins.finite finite'
    refine ⟨_, level, cut_le_farthest (closest.le_of_lt_half (by norm_num) ?_)⟩
    change _ ≤ 2 ^ 52 * 2 ^ (971 : ℤ) at bound
    have slack : (2 : ℚ) ^ 54 ≤ 2 ^ (971 : ℤ) := by
      exact zpow_le_zpow_right₀ (by norm_num) (by norm_num : (54 : ℤ) ≤ 971)
    generalize (2 : ℚ) ^ (971 : ℤ) = unit at *
    norm_num at early slack
    linarith only [early, close, short, bound, slack]

/-- What is left of two notes of a conflict ends within half of the limit if both of them do. -/
theorem within_of_left (meets : Meets first second) {strategy : Strategy} {note : Note Float}
    (left : Left strategy first second note) (one : Within first.start first.duration)
    (two : Within second.start second.duration) : Within note.start note.duration := by
  -- All notes left end at one of the two ends or at the second start.
  cases left with
  | first before => exact one
  | second => exact two
  | moved together => exact meets.within_moved together one
  | trimmed trims before =>
    obtain ⟨ends, found, below⟩ := two
    obtain ⟨_, found', above, _⟩ := meets.two.levelOf_finish
    cases found.symm.trans found'
    exact within_sub meets.one.begins meets.two.begins.finite before.le (above.trans below)
  | merged merges before =>
    have spans := within_larger meets.one.begins meets.lt_later one two
    dsimp only
    exact spans
  | added adds together =>
    have spans := within_larger meets.moved.begins meets.moved_lt_later
      (meets.within_moved together one) two
    dsimp only
    exact spans
  | largest largest together =>
    have spans := within_larger meets.moved.begins meets.moved_lt_later
      (meets.within_moved together one) two
    dsimp only
    exact spans

end Meets

end Strategy

namespace Resolution

open Note

variable {strategy : Strategy} {notes others next result : List (Note Float)}
  {first second : Note Float}

/-- Notes in line that are proper. -/
structure Orderly (notes : List (Note Float)) : Prop where
  timely : Timely notes
  proper : ∀ note ∈ notes, note.Proper

/-- Notes with finite velocities, which some units cover together. -/
structure Covered (units : Nat) (notes : List (Note Float)) : Prop where
  finite : ∀ note ∈ notes, note.velocity.isFinite = true
  total : (notes.map Strategy.loudness).sum ≤ units

namespace Orderly

/-- The notes of the first conflict meet. -/
theorem found_meets (orderly : Orderly notes)
    (found : firstConflict? notes = some (first, second, others)) :
    Strategy.Meets first second := by
  obtain ⟨conflict, perm⟩ := firstConflict?_spec found
  exact ⟨orderly.proper first (perm.mem_iff.mpr (by simp)),
    orderly.proper second (perm.mem_iff.mpr (by simp)), conflict,
    line_le_start (orderly.timely.found_line found)⟩

/-- A round keeps what holds of all notes if the notes of a conflict leave only such notes. -/
theorem step_forall (orderly : Orderly notes) (holds : Note Float → Prop)
    (kept : ∀ {first second note}, Strategy.Meets first second →
      Strategy.Left strategy first second note → holds first → holds second → holds note)
    (all : ∀ note ∈ notes, holds note) (stepped : step? strategy notes = some next) :
    ∀ note ∈ next, holds note := by
  obtain ⟨⟨first, second, others⟩, found, rfl⟩ := Option.map_eq_some_iff.mp stepped
  obtain ⟨_, perm⟩ := firstConflict?_spec found
  have old : ∀ note ∈ first :: second :: others, holds note :=
    fun note member => all note (perm.mem_iff.mpr member)
  obtain ⟨one, two, rest⟩ := by simpa only [List.forall_mem_cons] using old
  have meets := orderly.found_meets found
  intro note member
  -- A note of the next round was left alone, or is left of the conflict.
  rcases List.mem_append.mp ((sort_perm _).mem_iff.mp member) with elsewhere | made
  · exact rest note elsewhere
  · exact kept meets (meets.left strategy note made) one two

/-- A round leaves proper notes in line. -/
theorem step (orderly : Orderly notes) (stepped : step? strategy notes = some next) :
    Orderly next :=
  ⟨orderly.timely.step stepped,
    orderly.step_forall Note.Proper (fun meets left _ _ => meets.proper_of_left left) orderly.proper
    stepped⟩

/-- What holds of all notes still does when the rounds have ended, if the notes of a conflict leave
only such notes. -/
theorem settleWithin_forall (orderly : Orderly notes) (holds : Note Float → Prop)
    (kept : ∀ {first second note}, Strategy.Meets first second →
      Strategy.Left strategy first second note → holds first → holds second → holds note)
    (all : ∀ note ∈ notes, holds note) {rounds : Nat}
    (settled : settleWithin strategy rounds notes = some result) :
    ∀ note ∈ result, holds note :=
  (@settleWithin_keeps _ _ _ _ (fun notes => Orderly notes ∧ ∀ note ∈ notes, holds note)
    (fun ⟨orderly, all⟩ stepped =>
      ⟨orderly.step stepped, orderly.step_forall holds kept all stepped⟩)
    _ _ ⟨orderly, all⟩ settled).2

/-- A round leaves velocities that the same units cover. -/
theorem step_covered (orderly : Orderly notes) {units : Nat} (few : units < 2 ^ 53)
    (covered : Covered units notes) (stepped : step? strategy notes = some next) :
    Covered units next := by
  obtain ⟨⟨first, second, others⟩, found, rfl⟩ := Option.map_eq_some_iff.mp stepped
  obtain ⟨_, perm⟩ := firstConflict?_spec found
  have meets := orderly.found_meets found
  have one := covered.finite first (perm.mem_iff.mpr (by simp))
  have two := covered.finite second (perm.mem_iff.mpr (by simp))
  have before := covered.total
  rw [(perm.map _).sum_eq, List.map_cons, List.map_cons, List.sum_cons, List.sum_cons] at before
  -- Two notes take no more than all of them do, so that their sum does not overflow.
  have both : Strategy.loudness first + Strategy.loudness second < 2 ^ 53 := by omega
  constructor
  · intro note member
    rcases List.mem_append.mp ((sort_perm _).mem_iff.mp member) with elsewhere | made
    · exact covered.finite note
        (perm.mem_iff.mpr (List.mem_cons_of_mem _ (List.mem_cons_of_mem _ elsewhere)))
    · have sum := Strategy.velocity_sum one two (meets.one.value_velocity_pos one).le
        (meets.two.value_velocity_pos two).le both
      exact meets.velocity_of_left (meets.left strategy note made) one two fun _ => sum.1
  · have left := meets.loudness_resolve strategy one two both
    rw [((sort_perm _).map _).sum_eq, List.map_append, List.sum_append]
    omega

/-- Settling leaves velocities that the same units cover. -/
theorem settleWithin_covered (orderly : Orderly notes) {units : Nat} (few : units < 2 ^ 53)
    (covered : Covered units notes) {rounds : Nat}
    (settled : settleWithin strategy rounds notes = some result) : Covered units result :=
  (@settleWithin_keeps _ _ _ _ (fun notes => Orderly notes ∧ Covered units notes)
    (fun ⟨orderly, covered⟩ stepped =>
      ⟨orderly.step stepped, orderly.step_covered few covered stepped⟩)
    _ _ ⟨orderly, covered⟩ settled).2

end Orderly

/-- A velocity of `1e292` is covered by one unit. -/
theorem value_loud : (1e292 : Float).isFinite = true ∧ value 1e292 ≤ 2 ^ (971 : ℤ) := by
  refine ⟨by decide +kernel, ?_⟩
  -- The double is found on the line, and its number compared with the unit.
  have placed : place 1e292 = some (toLex (1, toLex (918, 4512985939662074))) := by
    decide +kernel
  rw [value, worth_eq_numberAt placed]
  simp only [numberAt, ofLex_toLex]
  calc
    _ ≤ (2 : ℚ) ^ (53 : ℤ) * 2 ^ (918 : ℤ) := by norm_num
    _ = 2 ^ (971 : ℤ) := (zpow_add₀ (by norm_num) 53 918).symm

/-- An end of `8e307` is within half of the limit. -/
theorem value_far : (8e307 : Float).isFinite = true ∧ value 8e307 ≤ Strategy.farthest := by
  refine ⟨by decide +kernel, ?_⟩
  -- As above, the double is found on the line.
  have placed : place 8e307 = some (toLex (1, toLex (970, 8016673440035891))) := by
    decide +kernel
  have half : Strategy.farthest = (2 : ℚ) ^ 53 * 2 ^ (970 : ℤ) := by
    rw [Strategy.farthest, show (971 : ℤ) = 1 + 970 by norm_num, zpow_add₀ (by norm_num)]
    ring
  rw [value, worth_eq_numberAt placed, half]
  simp only [numberAt, ofLex_toLex]
  refine mul_le_mul_of_nonneg_right (by norm_num) (by positivity)

/-- Admitted notes are proper and in line when they are sorted. -/
theorem orderly_sort (admitted : ∀ note ∈ notes, Admitted note) : Orderly (sort notes) :=
  ⟨.sort fun note member => (admitted note member).begins, fun note member =>
    (admitted_iff.mp (admitted note ((sort_perm notes).mem_iff.mp member))).1⟩

/-- One unit is enough for each note that is not too loud. -/
theorem covered_sort (admitted : ∀ note ∈ notes, Admitted note)
    (quiet : ∀ note ∈ notes, note.velocity ≤ 1e292) : Covered notes.length (sort notes) := by
  have finite : ∀ note ∈ notes, note.velocity.isFinite = true :=
    fun note member => (admitted_iff.mp (admitted note member)).2.2
  refine ⟨fun note member => finite note ((sort_perm notes).mem_iff.mp member), ?_⟩
  obtain ⟨bounded, loud⟩ := value_loud
  -- A velocity up to the bound takes one unit of the largest doubles.
  have single : ∀ count ∈ notes.map Strategy.loudness, count ≤ 1 := by
    rw [List.forall_mem_map]
    intro note member
    have below := (le_iff_value (finite note member) bounded).mp (quiet note member)
    exact Strategy.loudness_le (by simpa using below.trans loud)
  rw [((sort_perm _).map _).sum_eq]
  simpa using List.sum_le_card_nsmul _ _ single

/-- Notes that end by a time within half of the limit do so when they have settled, and last for
finite times. -/
theorem Orderly.settleWithin_lasting (orderly : Orderly notes)
    (near : ∀ note ∈ notes, note.finish ≤ 8e307) {rounds : Nat}
    (settled : settleWithin strategy rounds notes = some result) :
    ∀ note ∈ result, note.duration.isFinite = true := by
  obtain ⟨finite, half⟩ := value_far
  have proper := orderly.settleWithin_forall Note.Proper
    (fun meets left _ _ => meets.proper_of_left left) orderly.proper settled
  -- Ends stay near through all rounds, and with them durations stay finite.
  have within := orderly.settleWithin_forall
    (fun note => Strategy.Within note.start note.duration)
    (fun meets left one two => meets.within_of_left left one two)
    (fun note member => Strategy.within_of_finish_le finite half (near note member)) settled
  exact fun note member => (Strategy.finite_of_within (proper note member) (within note member)).2

/-- What is left when admitted notes have settled passes the checks, but for durations and
velocities that are infinite. Velocities are so only if large ones are added up, and durations only
if notes that end beyond half of the limit are merged. -/
theorem settled_proper (strategy : Strategy) (admitted : ∀ note ∈ notes, Admitted note)
    {rounds : Nat} (settled : settleWithin strategy rounds (sort notes) = some result) :
    (∀ note ∈ result, note.Proper ∧
      (Admitted note ↔ note.duration.isFinite = true ∧ note.velocity.isFinite = true)) ∧
    (strategy.coincident ≠ .sum ∨
        (notes.length < 2 ^ 53 ∧ ∀ note ∈ notes, note.velocity ≤ 1e292) →
      ∀ note ∈ result, note.velocity.isFinite = true) ∧
    ((strategy.overlap ≠ .merge ∧ strategy.coincident ≠ .sum ∧
          strategy.coincident ≠ .maxProperties) ∨ (∀ note ∈ notes, note.finish ≤ 8e307) →
      ∀ note ∈ result, note.duration.isFinite = true) := by
  have present : ∀ note ∈ sort notes, note ∈ notes :=
    fun note member => (sort_perm notes).mem_iff.mp member
  have finite := fun note member => (admitted_iff.mp (admitted note (present note member))).2
  have orderly := orderly_sort admitted
  -- Each part is a property of single notes that every round keeps.
  refine ⟨fun note member => ?_, ?_, ?_⟩
  · have proper := orderly.settleWithin_forall Note.Proper
      (fun meets left _ _ => meets.proper_of_left left) orderly.proper settled note member
    exact ⟨proper, admitted_iff.trans (and_iff_right proper)⟩
  · rintro (apart | ⟨few, quiet⟩)
    · exact orderly.settleWithin_forall (fun note => note.velocity.isFinite = true)
        (fun meets left one two =>
          meets.velocity_of_left left one two fun adds => absurd adds apart)
        (fun note member => (finite note member).2) settled
    · exact (orderly.settleWithin_covered few (covered_sort admitted quiet) settled).finite
  · rintro (⟨apart, single⟩ | near)
    · exact orderly.settleWithin_forall (fun note => note.duration.isFinite = true)
        (fun meets left one two => meets.duration_of_left left apart single one two)
        (fun note member => (finite note member).1) settled
    · exact orderly.settleWithin_lasting (fun note member => near note (present note member))
        settled

/-- A note that is more than half as loud as a double can be. -/
def loudNote : Note Float :=
  ⟨⟨60⟩, 0.0, 1.0, 1e308, 0.0⟩

/-- Two such notes that sound together become one that is proper, but infinitely loud. -/
theorem settled_proper_loud : (∀ note ∈ [loudNote, loudNote], Admitted note) ∧
    ∃ merged, settleWithin {} 2 (sort [loudNote, loudNote]) = some [merged] ∧ merged.Proper ∧
      merged.duration.isFinite = true ∧ ¬ Admitted merged := by
  have admitted : ∀ note ∈ [loudNote, loudNote], Admitted note := by
    unfold Admitted
    decide +kernel
  -- The two notes are put together in one round, and their velocities add up to infinity.
  have settled : settleWithin {} 2 (sort [loudNote, loudNote]) =
      some (Strategy.resolve {} loudNote loudNote) := by
    have sorted : sort [loudNote, loudNote] = [loudNote, loudNote] :=
      List.mergeSort_of_pairwise (by decide +kernel)
    have found : firstConflict? [loudNote, loudNote] = some (loudNote, loudNote, []) := by
      decide +kernel
    have stepped : step? {} [loudNote, loudNote] =
        some (sort (Strategy.resolve {} loudNote loudNote)) := by
      rw [step?, found]
      rfl
    rw [sorted, settleWithin, stepped, Strategy.resolve, if_pos (by decide +kernel), sort,
      Strategy.resolveCoincident, List.mergeSort_singleton]
    rfl
  obtain ⟨checked, _, lasting⟩ := settled_proper {} admitted settled
  obtain ⟨proper, passes⟩ := List.forall_mem_singleton.mp checked
  have near : ∀ note ∈ [loudNote, loudNote], note.finish ≤ 8e307 := by
    decide +kernel
  refine ⟨admitted, _, settled, proper, ?_, fun passed => ?_⟩
  · exact lasting (Or.inr near) _ (List.mem_singleton_self _)
  · exact absurd (passes.mp passed).2 (by decide +kernel)

end Resolution

end Melody
