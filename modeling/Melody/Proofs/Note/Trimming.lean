import Melody.Proofs.Note.Settling
import Melody.Proofs.Scalar.Nearest

/-! On doubles a note that is trimmed ends its conflict, unless the starts are very late. -/

namespace Melody

open Binary64

namespace Note

/-- The tolerance is finite. -/
theorem isFinite_tolerance : (tolerance : Float).isFinite = true := by
  decide +kernel

/-- The tolerance of doubles is more than half a unit of the values between 2 ^ 23 and 2 ^ 24. -/
theorem value_tolerance : value tolerance = 4835703278458517 * 2 ^ (-82 : ℤ) := by
  have placed : place tolerance = some (toLex (1, toLex (-82, 4835703278458517))) := by
    decide +kernel
  rw [value, worth_eq_numberAt placed]
  simp [numberAt]

/-- The tolerance lies between two powers of two. -/
theorem lt_value_tolerance : 2 ^ (-30 : ℤ) < value tolerance ∧ value tolerance < 2 ^ (-29 : ℤ) := by
  rw [value_tolerance]
  norm_num

/-- A note from one time to another one does not reach beyond it by more than the tolerance, though
its end is a rounded sum with a rounded difference. -/
theorem not_reaches {start finish : Float} (left : start.isFinite = true)
    (right : finish.isFinite = true) (begins : 0 ≤ value start)
    (ordered : value start ≤ value finish) (early : value finish < 2 ^ (24 : ℤ)) :
    ¬ finish < start + (finish - start) - tolerance := by
  obtain ⟨least, most⟩ := lt_value_tolerance
  have fits : ∀ {exact : ℚ}, |exact| < 2 ^ (26 : ℤ) → |exact| < 2 ^ (1023 : ℤ) := fun small =>
    small.trans (zpow_lt_zpow_right₀ (by norm_num) (by norm_num))
  have span : |value finish - value start| = value finish - value start :=
    abs_of_nonneg (sub_nonneg.mpr ordered)
  -- The length of the note is rounded, by half a unit at most.
  have length : Nearest (value finish - value start) (finish - start) :=
    nearest_sub right left (fits (by rw [span]; norm_num at early ⊢; linarith))
  have near := length.near 24 (by norm_num) (by rw [span]; linarith)
  norm_num at early near least most
  obtain ⟨short, long⟩ := abs_le.mp near
  -- So its end is off by a unit at most, as the time it should end at is a double.
  have ends : Nearest (value start + value (finish - start)) (start + (finish - start)) :=
    nearest_add left length.finite (fits (by
      norm_num
      rw [abs_lt]
      constructor <;> linarith))
  have off := ends.nearest finish right
  have same : |value finish - (value start + value (finish - start))| =
      |value (finish - start) - (value finish - value start)| := by
    rw [abs_sub_comm]
    congr 1
    ring
  rw [same] at off
  obtain ⟨low, high⟩ := abs_le.mp (off.trans near)
  have cut : Nearest (value (start + (finish - start)) - value tolerance)
      (start + (finish - start) - tolerance) :=
    nearest_sub ends.finite isFinite_tolerance (fits (by
      norm_num
      rw [abs_lt]
      constructor <;> linarith))
  intro reaches
  have beyond := (lt_iff_value right cut.finite).mp reaches
  -- The time itself would have been nearer to the exact limit.
  have closer := (le_abs_self _).trans (cut.nearest finish right)
  rcases lt_or_ge (value finish) (2 ^ (23 : ℤ)) with earlier | later
  · -- Half a unit is a quarter here, and the tolerance takes back what the end is off.
    have finer := length.near 23 (by norm_num) (by rw [span]; linarith)
    obtain ⟨_, above⟩ := abs_le.mp (off.trans finer)
    obtain ⟨_, under⟩ := abs_le.mp finer
    norm_num at above under
    rw [abs_of_nonneg (by linarith)] at closer
    linarith
  · -- The next double is a unit later, and the exact limit less than half a one.
    have next := add_unit_le (-29) (by norm_num at later ⊢; exact later) beyond
    norm_num at next
    rcases abs_cases (value finish - (value (start + (finish - start)) - value tolerance))
      with ⟨size, _⟩ | ⟨size, _⟩
    · rw [size] at closer
      linarith
    · rw [size] at closer
      linarith

variable {first second other : Note Float}

/-- A double that a note can start at. -/
structure Begins (start : Float) : Prop where
  finite : start.isFinite = true
  nonneg : 0 ≤ value start

/-- The check of a start lets through what a note can start at. -/
theorem checkStart_eq_ok_iff {start : Float} : checkStart start = .ok () ↔ Begins start := by
  unfold checkStart
  -- The check compares doubles, which agree with their numbers if they are finite.
  constructor
  · intro passed
    split at passed
    · rename_i checked
      obtain ⟨finite, above⟩ := Bool.and_eq_true_iff.mp checked
      exact ⟨finite, (nonneg_iff_value finite).mp (of_decide_eq_true above)⟩
    · cases passed
  · rintro ⟨finite, nonneg⟩
    exact if_pos (Bool.and_eq_true_iff.mpr
      ⟨finite, decide_eq_true ((nonneg_iff_value finite).mpr nonneg)⟩)

/-- A trimmed note is free of the one that it was trimmed to, if that starts early enough. -/
theorem not_conflictsWith_trimmed_of_early (one : Begins first.start) (two : Begins second.start)
    (ordered : value first.start ≤ value second.start)
    (early : value second.start < 2 ^ (24 : ℤ)) :
    (first.endingAt second.start).conflictsWith second = false := by
  rw [Bool.eq_false_iff, ne_eq, conflictsWith_iff]
  rintro ⟨_, _, reaches⟩
  exact not_reaches one.finite two.finite one.nonneg ordered early reaches

/-- A trimmed note that is free of the one that it was trimmed to conflicts with nothing new. -/
theorem conflictsWith_of_trimmed_free (two : Begins second.start) (three : Begins other.start)
    (conflict : first.conflictsWith second = true)
    (free : (first.endingAt second.start).conflictsWith second = false)
    (trimmed : (first.endingAt second.start).conflictsWith other = true) :
    first.conflictsWith other = true := by
  obtain ⟨same, begins, reaches⟩ := conflictsWith_iff.mp conflict
  obtain ⟨pitch, starts, ends⟩ := conflictsWith_iff.mp trimmed
  rw [Bool.eq_false_iff, ne_eq, conflictsWith_iff] at free
  -- The trimmed note ends by the start of the second one, and the first note after it.
  have before : value other.start ≤ value second.start := by
    refine le_of_not_gt fun after => free ⟨same, begins, ?_⟩
    exact lt_of_value_le two.finite three.finite after.le ends
  exact conflictsWith_iff.mpr ⟨pitch, starts, lt_of_value_le three.finite two.finite before reaches⟩

end Note

namespace Resolution

open Note

variable {first second : Note Float}

/-- Notes that start at one time start together. -/
theorem startTogether_of_value_eq (one : Begins first.start) (two : Begins second.start)
    (same : value first.start = value second.start) :
    Strategy.startTogether first second = true := by
  obtain ⟨finite, zero⟩ := value_sub_of_eq two.finite one.finite same.symm
  rw [Strategy.startTogether, decide_eq_true_iff, Scalar.magnitude,
    if_neg (by simp [lt_iff_value finite isFinite_zero, zero]),
    le_iff_value finite isFinite_tolerance, zero]
  exact (zpow_pos (by norm_num) _).le.trans lt_value_tolerance.1.le

/-- A note that does not start together with another one is not moved. -/
theorem align_eq_of_begins (two : Begins second.start)
    (apart : Strategy.startTogether (align first second) second = false) :
    Strategy.startTogether first second = false ∧ align first second = first := by
  unfold align at apart ⊢
  by_cases together : Strategy.startTogether first second = true
  · -- A note that is moved starts just with the other one.
    rw [if_pos together] at apart
    have moved : Strategy.startTogether { first with start := second.start } second = true :=
      startTogether_of_value_eq two two rfl
    rw [moved] at apart
    cases apart
  · rw [if_neg together]
    exact ⟨by simpa using together, rfl⟩

/-- Where a note stands in the order of notes. -/
def line (note : Note Float) : ℚ ×ₗ Int :=
  toLex (value note.start, note.pitch.index)

/-- Notes with finite starts are in order when they are in line. -/
theorem inOrder_iff_line (left : first.start.isFinite = true)
    (right : second.start.isFinite = true) :
    inOrder first second = true ↔ line first ≤ line second := by
  rw [line, line, Prod.Lex.toLex_le_toLex]
  unfold inOrder
  simp only [lt_iff_value left right, lt_iff_value right left]
  -- Starts are compared first, and pitches only if those are equal.
  rcases lt_trichotomy (value first.start) (value second.start) with before | same | after
  · simp [before]
  · simp [same]
  · simp [after, after.ne', after.not_gt]

/-- Sorted notes whose starts are numbers stand in line. -/
theorem sort_line {notes : List (Note Float)}
    (finite : ∀ note ∈ notes, note.start.isFinite = true) :
    (sort notes).Pairwise fun first second => line first ≤ line second := by
  -- On these notes the order is a total one, and sorting compares no others.
  have same : sort notes =
      notes.mergeSort fun first second => decide (line first ≤ line second) := by
    have agrees : ∀ first ∈ notes, ∀ second ∈ notes,
        inOrder first second = decide (line (id first) ≤ line (id second)) := by
      intro first one second other
      rw [Bool.eq_iff_iff, decide_eq_true_iff]
      exact inOrder_iff_line (finite first one) (finite second other)
    have mapped := List.map_mergeSort (s := fun first second => decide (line first ≤ line second))
      agrees
    show notes.mergeSort inOrder = _
    simpa using mapped
  rw [same]
  refine (List.pairwise_mergeSort ?_ ?_ notes).imp of_decide_eq_true
  · intro first second third one other
    exact decide_eq_true ((of_decide_eq_true one).trans (of_decide_eq_true other))
  · intro first second
    rw [Bool.or_eq_true, decide_eq_true_iff, decide_eq_true_iff]
    exact le_total _ _

end Resolution

end Melody
