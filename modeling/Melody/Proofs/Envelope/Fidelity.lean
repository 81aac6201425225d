import Melody.Proofs.Envelope.Turn
import Melody.Proofs.Scalar.Ceiling
import Melody.Proofs.Scalar.Scaling

/-! On doubles a curve has as many points as its turn and the fidelity ask for, unless their product
leaves the range of machine words, where counting ends the program. -/

namespace Melody.Segment

open Binary64

/-- The angle that points are counted for, at most half a turn. -/
def counted {α : Type} [Analytic α] (turn : α) : α :=
  Scalar.smaller (Scalar.magnitude turn) Analytic.halfTurn

section Angles

variable {turn : Float}

/-- Half a turn is finite. -/
theorem isFinite_halfTurn : (Analytic.halfTurn : Float).isFinite = true := by
  decide +kernel

/-- Half a turn is above zero. -/
theorem value_halfTurn_pos : 0 < value Analytic.halfTurn :=
  (pos_iff_value isFinite_halfTurn).mp (by decide +kernel)

/-- A turn of at most half a turn is a number. -/
theorem magnitude_spec (within : Scalar.magnitude turn ≤ Analytic.halfTurn) :
    (Scalar.magnitude turn).isFinite = true ∧ 0 ≤ value (Scalar.magnitude turn) := by
  -- A magnitude within half a turn lies between two finite numbers.
  obtain ⟨number, _, found, _⟩ := le_iff_levelOf.mp within
  have nonneg := magnitude_nonneg found
  have above := le_iff_levelOf.mpr ⟨0, number, levelOf_zero, found, nonneg⟩
  have finite := isFinite_between above within isFinite_halfTurn
  cases found.symm.trans (levelOf_of_isFinite finite)
  exact ⟨finite, nonneg⟩

/-- Points are counted for a finite angle, also where the turn is no number. -/
theorem counted_spec (turn : Float) :
    (counted turn).isFinite = true ∧ 0 ≤ value (counted turn) := by
  unfold counted Scalar.smaller
  -- A turn that is no number is not below half a turn, and so counts as that much.
  by_cases less : Scalar.magnitude turn < Analytic.halfTurn
  · obtain ⟨p, q, here, there, before⟩ := lt_iff_levelOf.mp less
    rw [if_pos less]
    exact magnitude_spec (le_iff_levelOf.mpr ⟨p, q, here, there, before.le⟩)
  · rw [if_neg less, if_pos (by decide +kernel)]
    exact ⟨isFinite_halfTurn, value_halfTurn_pos.le⟩

/-- Up to half a turn points are counted for the turn itself. -/
theorem unpack_counted (within : Scalar.magnitude turn ≤ Analytic.halfTurn) :
    (counted turn).toModel.unpack = (Scalar.magnitude turn).toModel.unpack := by
  obtain ⟨finite, _⟩ := magnitude_spec within
  unfold counted Scalar.smaller
  -- At half a turn exactly both have the same number, and so the same bits.
  by_cases less : Scalar.magnitude turn < Analytic.halfTurn
  · rw [if_pos less]
  · rw [if_neg less, if_pos (by decide +kernel)]
    have before := (le_iff_value finite isFinite_halfTurn).mp within
    have after := not_lt.mp (mt (lt_iff_value finite isFinite_halfTurn).mpr less)
    exact unpack_eq_of_value_eq isFinite_halfTurn finite value_halfTurn_pos (after.antisymm before)

end Angles

section Counts

variable {turn fidelity lower : Float} {number : ℚ}

/-- The product of an angle with a fidelity is a number that is not negative. -/
theorem levelOf_product (turn : Float) (finite : fidelity.isFinite = true)
    (nonneg : 0.0 ≤ fidelity) :
    ∃ number, levelOf (counted turn * fidelity) = some number ∧ 0 ≤ number := by
  obtain ⟨bounded, positive⟩ := counted_spec turn
  obtain ⟨found, closest, level⟩ := levelOf_mul bounded finite
  have low := closest.ge_of_ge fits_zero
    (mul_nonneg positive ((nonneg_iff_value finite).mp nonneg))
  exact ⟨cut found, level, le_max_of_le_right (le_min low limit_pos.le)⟩

/-- A fidelity that is not negative is kept as it is, but for the sign of a zero. -/
theorem levelOf_larger (turn : Float) (finite : fidelity.isFinite = true)
    (nonneg : 0.0 ≤ fidelity) : levelOf (counted turn * Scalar.larger fidelity 0.0) =
      levelOf (counted turn * fidelity) := by
  unfold Scalar.larger
  -- A fidelity that is not above zero is one of the zeros, and both give the product zero.
  by_cases above : 0.0 < fidelity
  · rw [if_pos above]
  · have none : value fidelity = 0 := by
      rw [pos_iff_value finite, not_lt] at above
      exact above.antisymm ((nonneg_iff_value finite).mp nonneg)
    have bounded := (counted_spec turn).1
    rw [if_neg above, if_pos (by decide +kernel),
      levelOf_mul_zero bounded isFinite_zero (by rw [value_zero, mul_zero]),
      levelOf_mul_zero bounded finite (by rw [none, mul_zero])]

/-- A count is one more than the ceiling of the product, if that is a machine word. -/
theorem pointCount?_eq (turn : Float) (finite : fidelity.isFinite = true)
    (nonneg : 0.0 ≤ fidelity) : pointCount? turn fidelity =
      let count := Scalar.ceiling (counted turn * fidelity) + 1
      if count < UInt64.size then some (min maxPoints (max 2 count)) else none := by
  obtain ⟨number, found, _⟩ := levelOf_product turn finite nonneg
  have whole : Scalar.isFinite fidelity = true := finite
  -- What a fidelity is raised to is the fidelity itself, so that the product is the same.
  have same : Scalar.ceiling (counted turn * Scalar.larger fidelity 0.0) =
      Scalar.ceiling (counted turn * fidelity) := by
    rw [ceiling_eq found, ceiling_eq ((levelOf_larger turn finite nonneg).trans found)]
  unfold pointCount?
  rw [if_pos whole]
  dsimp only
  rw [← same, Nat.max_comm, Nat.min_comm]
  rfl

/-- Within the machine words the count is that of the product. -/
theorem pointCount?_of_lt (finite : fidelity.isFinite = true) (nonneg : 0.0 ≤ fidelity)
    (found : levelOf (counted turn * fidelity) = some number) (small : number < 2 ^ 64) :
    pointCount? turn fidelity = some (min maxPoints (max 2 (⌈number⌉₊ + 1))) := by
  obtain ⟨exactly, room⟩ := ceiling_of_lt found small
  rw [pointCount?_eq turn finite nonneg]
  dsimp only
  rw [if_pos room, exactly]

/-- Beyond the machine words there is no count. -/
theorem pointCount?_of_le (finite : fidelity.isFinite = true) (nonneg : 0.0 ≤ fidelity)
    (found : levelOf (counted turn * fidelity) = some number) (large : 2 ^ 64 ≤ number) :
    pointCount? turn fidelity = none := by
  rw [pointCount?_eq turn finite nonneg]
  dsimp only
  rw [ceiling_of_le found large, if_neg (lt_irrefl _)]

/-- A lower fidelity is counted where a higher one is, and gives no more points. -/
theorem pointCount?_le (finite : fidelity.isFinite = true)
    (found : levelOf (counted turn * fidelity) = some number) (small : number < 2 ^ 64)
    (nonneg' : 0.0 ≤ lower) (below : lower ≤ fidelity) :
    ∃ fewer, pointCount? turn lower = some fewer ∧
      fewer ≤ min maxPoints (max 2 (⌈number⌉₊ + 1)) := by
  have finite' := isFinite_between nonneg' below finite
  obtain ⟨bounded, positive⟩ := counted_spec turn
  -- Products grow with the fidelity, and so do their ceilings.
  have products := mul_le_mul_of_value_le finite' finite ((nonneg_iff_value finite').mp nonneg')
    ((le_iff_value finite' finite).mp below) bounded positive
  obtain ⟨less, _, here, there, before⟩ := le_iff_levelOf.mp products
  cases found.symm.trans there
  refine ⟨_, pointCount?_of_lt finite' nonneg' here (before.trans_lt small), ?_⟩
  have ceilings := Nat.succ_le_succ (Nat.ceil_mono before)
  exact min_le_min_left _ (max_le_max_left _ ceilings)

/-- Points are counted as the angle and the fidelity ask for, and no fewer than for any lower
fidelity, unless their product is beyond the machine words: then there is no word for one more than
the largest one, and counting ends the program. So it does for a segment whose turn is not counted,
and any other one has between two and the most points. -/
theorem pointCount_follows (finite : fidelity.isFinite = true) (nonneg : 0.0 ≤ fidelity) :
    (∀ turn : Float, ∃ number, levelOf (counted turn * fidelity) = some number ∧ 0 ≤ number ∧
      (Scalar.magnitude turn ≤ Analytic.halfTurn →
        levelOf (Scalar.magnitude turn * fidelity) = some number) ∧
      (number < 2 ^ 64 →
        pointCount? turn fidelity = some (min maxPoints (max 2 (⌈number⌉₊ + 1))) ∧
        ∀ lower : Float, 0.0 ≤ lower → lower ≤ fidelity →
          ∃ fewer, pointCount? turn lower = some fewer ∧
            fewer ≤ min maxPoints (max 2 (⌈number⌉₊ + 1))) ∧
      (2 ^ 64 ≤ number → Scalar.ceiling (counted turn * fidelity) + 1 = UInt64.size ∧
        pointCount? turn fidelity = none)) ∧
    ∀ s : Segment Float,
      (s.approximate? fidelity = none ↔
        ∃ turn, s.turn? = some turn ∧ pointCount? turn fidelity = none) ∧
      ∀ points, s.approximate? fidelity = some points → 2 ≤ points.length ∧
        points.length ≤ maxPoints ∧
        ∀ turn, s.turn? = some turn → pointCount? turn fidelity = some points.length := by
  constructor
  · intro turn
    obtain ⟨number, found, low⟩ := levelOf_product turn finite nonneg
    refine ⟨number, found, low, fun within => ?_, fun small => ⟨?_, ?_⟩, fun large => ?_⟩
    · rw [levelOf, unpack_mul, ← unpack_counted within]
      exact found
    · exact pointCount?_of_lt finite nonneg found small
    · exact fun lower nonneg' below => pointCount?_le finite found small nonneg' below
    · exact ⟨ceiling_of_le found large, pointCount?_of_le finite nonneg found large⟩
  · -- A segment has points exactly when its turn is counted, and then as many as were counted.
    intro s
    refine ⟨approximate?_eq_none, fun points found => ?_⟩
    obtain ⟨least, most⟩ := length_mem_of_approximate? found
    exact ⟨least, most, fun turn turns => length_of_approximate? found turns⟩

/-- A turn of one radian is given the most points for a high fidelity, and counting them ends the
program for one that is far higher. -/
theorem pointCount_follows_far : (1e300 : Float).isFinite = true ∧ (1e6 : Float) ≤ 1e300 ∧
    pointCount? (1.0 : Float) 1e6 = some maxPoints ∧ pointCount? (1.0 : Float) 1e300 = none := by
  have high : (1e6 : Float).isFinite = true := by decide +kernel
  have far : (1e300 : Float).isFinite = true := by decide +kernel
  obtain ⟨number, found, _, _, counts, _⟩ := (pointCount_follows high (by decide +kernel)).1 1.0
  obtain ⟨beyond, found', _, _, _, ends⟩ := (pointCount_follows far (by decide +kernel)).1 1.0
  -- The two products are found on the line of doubles, one below the size of a word and one beyond.
  have product : number = 1000000 := by
    have placed : place (counted (1.0 : Float) * 1e6) =
        some (toLex (1, toLex (-33, 8589934592000000))) := by
      decide +kernel
    cases found.symm.trans (levelOf_of_place placed)
    norm_num [levelAt, numberAt]
  have large : 2 ^ 64 ≤ beyond := by
    have placed : place (counted (1.0 : Float) * 1e300) =
        some (toLex (1, toLex (944, 6724873095247260))) := by
      decide +kernel
    cases found'.symm.trans (levelOf_of_place placed)
    simp only [levelAt, numberAt, ofLex_toLex]
    calc
      (2 : ℚ) ^ 64 ≤ 1 * 2 ^ (944 : ℤ) := by
        rw [one_mul, ← zpow_natCast]
        exact zpow_le_zpow_right₀ (by norm_num) (by norm_num)
      _ ≤ 6724873095247260 * 2 ^ (944 : ℤ) :=
        mul_le_mul_of_nonneg_right (by norm_num) (by positivity)
  refine ⟨far, by decide +kernel, ?_, (ends large).2⟩
  rw [product] at counts
  have most : ⌈(1000000 : ℚ)⌉₊ = 1000000 := Nat.ceil_natCast 1000000
  rw [(counts (by norm_num)).1, most]
  rfl

end Counts

end Melody.Segment
