import Mathlib.Data.List.GetD
import Mathlib.Order.SuccPred.LinearLocallyFinite
import Melody.Proofs.Scalar.Real
import Melody.Tuning.Scale

/-! Scales repeat on their period, and those whose degrees rise do so over all steps and pitches. -/

namespace Melody

namespace Scale

section Places

variable {α : Type}

/-- A scale has a degree or more. -/
theorem size_pos (scale : Scale α) : 0 < scale.size :=
  List.length_pos_iff.mpr scale.nonempty

/-- Every number of steps, also one below zero, leads to a degree of some period. -/
theorem exists_place (scale : Scale α) (steps : Int) :
    ∃ periods : Int, ∃ degree < scale.size, steps = periods * scale.size + degree := by
  have size : (0 : Int) < scale.size := Int.natCast_pos.mpr scale.size_pos
  -- Euclidean division leaves a degree at or above the root, whichever way the steps go.
  have low := Int.emod_nonneg steps size.ne'
  have high := Int.emod_lt_of_pos steps size
  refine ⟨steps / scale.size, (steps % scale.size).toNat, by omega, ?_⟩
  rw [Int.toNat_of_nonneg low, Int.ediv_mul_add_emod]

variable [Scalar α]

/-- Each degree above the root is one that the scale has. -/
theorem within_succ (scale : Scale α) {index : Nat} (inside : index < scale.degrees.length) :
    scale.within (index + 1) = scale.degrees[index] :=
  List.getD_eq_getElem _ _ inside

/-- The degree that ends a period lies as far from its root as the period is long. -/
theorem within_size (scale : Scale α) : scale.within scale.size = scale.period := by
  have last : scale.degrees.length - 1 < scale.degrees.length := Nat.sub_one_lt scale.size_pos.ne'
  -- Its number is one more than the place of the last degree, as the root has no place.
  calc scale.within scale.size
      = scale.within (scale.degrees.length - 1 + 1) :=
        congrArg scale.within (Nat.sub_add_cancel scale.size_pos).symm
    _ = scale.degrees[scale.degrees.length - 1] := within_succ scale last
    _ = scale.period := (List.getLast_eq_getElem scale.nonempty).symm

end Places

section Exact

variable {α : Type} [ExactScalar α] {scale : Scale α}

/-- The root is at no distance from itself. -/
@[simp] theorem within_zero (scale : Scale α) : scale.within 0 = 0 :=
  Scalar.zero_eq

/-- A degree lies as far as the periods before it and its own distance from the root of its period.
The degree that ends a period may be counted in it, though it is walked as the root of the next. -/
theorem cents_place (scale : Scale α) (periods : Int) {degree : Nat}
    (inside : degree ≤ scale.size) :
    scale.cents (periods * scale.size + degree) =
      periods * scale.period + scale.within degree := by
  have size : (scale.size : Int) ≠ 0 := Int.natCast_ne_zero.mpr scale.size_pos.ne'
  have natural : (0 : Int) ≤ degree := Int.natCast_nonneg degree
  rw [cents, Scalar.ofInt_eq_cast, Int.mul_add_ediv_right _ _ size, Int.mul_add_emod_self_right]
  rcases inside.lt_or_eq with below | rfl
  · have below : (degree : Int) < scale.size := Int.ofNat_lt.mpr below
    rw [Int.ediv_eq_zero_of_lt natural below, add_zero, Int.emod_eq_of_lt natural below,
      Int.toNat_natCast]
  · -- What is left of the steps is another period and the root after it.
    rw [Int.ediv_self size, Int.emod_self, Int.toNat_zero, within_zero, within_size]
    push_cast
    ring

/-- The root lies no distance away from itself. -/
@[simp] theorem cents_zero (scale : Scale α) : scale.cents 0 = 0 := by
  simpa using scale.cents_place 0 scale.size.zero_le

/-- Some periods further on a scale lies as many periods higher. -/
theorem cents_add_mul (scale : Scale α) (steps periods : Int) :
    scale.cents (steps + periods * scale.size) = scale.cents steps + periods * scale.period := by
  obtain ⟨before, degree, inside, rfl⟩ := scale.exists_place steps
  -- Both are the same degree, counted from the roots of two periods.
  have further : before * scale.size + degree + periods * scale.size =
      (before + periods) * scale.size + degree := by ring
  rw [further, cents_place scale _ inside.le, cents_place scale _ inside.le]
  push_cast
  ring

/-- A scale whose degrees lie above its root, each above those before it. -/
structure Rising (scale : Scale α) : Prop where
  positive : ∀ degree ∈ scale.degrees, 0 < degree
  increasing : scale.degrees.Pairwise (· < ·)

namespace Rising

/-- Within a period each degree lies above the one before, from the root up to the end. -/
theorem within_lt_succ (rising : scale.Rising) {degree : Nat} (inside : degree < scale.size) :
    scale.within degree < scale.within (degree + 1) := by
  rw [within_succ scale inside]
  -- The first degree rises from the root, and each further one from the one before.
  cases degree with
  | zero =>
    rw [within_zero]
    exact rising.positive _ (List.getElem_mem inside)
  | succ index =>
    rw [within_succ scale (Nat.lt_of_succ_lt inside)]
    exact List.pairwise_iff_getElem.mp rising.increasing _ _ _ inside index.lt_succ_self

/-- Each step leads up, also the one over the end of a period. -/
theorem cents_lt_succ (rising : scale.Rising) (steps : Int) :
    scale.cents steps < scale.cents (steps + 1) := by
  obtain ⟨periods, degree, inside, rfl⟩ := scale.exists_place steps
  -- Both ends of the step are degrees of one period when its end is counted in it.
  have next : periods * scale.size + degree + 1 = periods * scale.size + (degree + 1 : Nat) := by
    push_cast
    ring
  rw [next, cents_place scale _ inside.le, cents_place scale _ inside]
  exact add_lt_add_right (rising.within_lt_succ inside) _

/-- More steps lead further up. -/
theorem cents_strictMono (rising : scale.Rising) : StrictMono scale.cents :=
  strictMono_int_of_lt_succ rising.cents_lt_succ

end Rising

/-- The equal steps of an octave rise. -/
theorem rising_equalDivision {steps : Nat} (positive : 0 < steps) :
    (equalDivision steps positive : Scale α).Rising := by
  -- All steps are equal and above zero.
  have step : (0 : α) < 1200.0 / (steps : α) := by
    rw [Scalar.twelveHundred_eq]
    exact div_pos (by norm_num) (Nat.cast_pos.mpr positive)
  constructor
  · intro degree member
    obtain ⟨index, _, rfl⟩ := List.mem_map.mp member
    exact mul_pos step (Nat.cast_pos.mpr index.succ_pos)
  · refine List.pairwise_map.mpr (List.pairwise_lt_range.imp fun less => ?_)
    exact mul_lt_mul_of_pos_left (Nat.cast_lt.mpr (Nat.succ_lt_succ less)) step

end Exact

end Scale

namespace Mapping

section Making

variable {α : Type} [Scalar α]

/-- A mapping is made of any scale, pitch and positive frequency. -/
theorem ofScale_eq_ok_iff {scale : Scale α} {basePitch : Pitch} {baseFrequency : α}
    {mapping : Mapping α} : ofScale scale basePitch baseFrequency = .ok mapping ↔
      Scalar.isPositive baseFrequency = true ∧ mapping = ⟨scale, basePitch, baseFrequency⟩ := by
  unfold ofScale
  cases Scalar.isPositive baseFrequency <;> simp [eq_comm]

/-- The mappings that can be made. -/
inductive Made : Mapping α → Prop where
  | concert : Made concert
  | ofScale {scale : Scale α} {basePitch : Pitch} {baseFrequency : α} {mapping : Mapping α}
    (made : ofScale scale basePitch baseFrequency = .ok mapping) : Made mapping

end Making

section Exact

variable {α : Type} [ExactScalar α] {mapping : Mapping α} {lower higher : Pitch}

/-- The frequency of a made mapping is above zero. -/
theorem Made.baseFrequency_pos (made : mapping.Made) : 0 < mapping.baseFrequency := by
  -- The concert pitch is above zero, and any other frequency was checked.
  cases made with
  | concert =>
    show (0 : α) < 440.0
    rw [ExactScalar.literal]
    norm_num
  | ofScale made =>
    obtain ⟨positive, rfl⟩ := ofScale_eq_ok_iff.mp made
    exact Scalar.isPositive_iff.mp positive

/-- On a rising scale higher pitches have higher frequencies, by any powers of two that grow. -/
theorem Made.frequency_lt (made : mapping.Made) (rising : mapping.scale.Rising)
    (grows : StrictMono (Analytic.power (2 : α))) (above : lower < higher) :
    mapping.frequency lower < mapping.frequency higher := by
  have steps : lower.index - mapping.basePitch.index < higher.index - mapping.basePitch.index :=
    Int.sub_lt_sub_right above _
  have octave : (0 : α) < 1200 := by norm_num
  rw [frequency, frequency, Scalar.two_eq, Scalar.twelveHundred_eq]
  -- Each operation on the way from the steps to the frequency keeps the order.
  refine mul_lt_mul_of_pos_left (grows ?_) made.baseFrequency_pos
  exact div_lt_div_of_pos_right (rising.cents_strictMono steps) octave

/-- The pitch that a scale is tied to has the frequency that it is tied to. -/
theorem frequency_basePitch (mapping : Mapping α) (unit : Analytic.power (2 : α) 0 = 1) :
    mapping.frequency mapping.basePitch = mapping.baseFrequency := by
  have none : (mapping.basePitch - mapping.basePitch).semitones = 0 := Int.sub_self _
  rw [frequency, none, Scale.cents_zero, zero_div, Scalar.two_eq, unit, mul_one]

/-- In concert tuning higher pitches have higher frequencies. -/
theorem frequency_concert_lt (grows : StrictMono (Analytic.power (2 : α)))
    (above : lower < higher) :
    (concert : Mapping α).frequency lower < (concert : Mapping α).frequency higher :=
  Made.concert.frequency_lt (Scale.rising_equalDivision (by decide)) grows above

end Exact

end Mapping

/-- Without rounding a scale repeats on its period in both directions. If its degrees rise from its
root, it rises over all steps, and so do the frequencies of every mapping that is made with it, by
any powers of two that grow. A mapping has its base frequency at its base pitch if two to the power
of zero is one. -/
theorem Scale.repeats_and_rises {α : Type} [ExactScalar α] (scale : Scale α) :
    (∀ steps periods : Int,
      scale.cents (steps + periods * scale.size) = scale.cents steps + periods * scale.period) ∧
    (scale.Rising → StrictMono scale.cents) ∧
    ∀ mapping : Mapping α, mapping.Made → mapping.scale = scale →
      (scale.Rising → StrictMono (Analytic.power (2 : α)) → ∀ lower higher : Pitch,
        lower < higher → mapping.frequency lower < mapping.frequency higher) ∧
      (Analytic.power (2 : α) 0 = 1 →
        mapping.frequency mapping.basePitch = mapping.baseFrequency) := by
  refine ⟨scale.cents_add_mul, Rising.cents_strictMono, ?_⟩
  rintro mapping made rfl
  exact ⟨fun rising grows _ _ above => made.frequency_lt rising grows above,
    mapping.frequency_basePitch⟩

/-- A scale that repeats on the third harmonic goes on below its root and beyond its period. -/
theorem Scale.repeats_and_rises_tritave :
    let degrees : List ℝ := [5 / 3, 7 / 3, 3].map fun ratio => 1200 * Real.logb 2 ratio
    let tritave : Scale ℝ := ⟨"tritave", degrees, List.cons_ne_nil _ _⟩
    let mapping : Mapping ℝ := ⟨tritave, ⟨0⟩, 100⟩
    tritave.Rising ∧ mapping.Made ∧ tritave.cents (-1) = tritave.cents 2 - tritave.period ∧
      tritave.cents (-1) < tritave.cents 4 ∧
      mapping.frequency ⟨-1⟩ < mapping.frequency ⟨4⟩ ∧ mapping.frequency ⟨0⟩ = 100 := by
  intro degrees tritave mapping
  have rising : tritave.Rising := by
    constructor
    · intro degree member
      obtain ⟨ratio, ratios, rfl⟩ := List.mem_map.mp member
      have above : ∀ ratio ∈ [(5 / 3 : ℝ), 7 / 3, 3], 1 < ratio := by norm_num
      exact mul_pos (by norm_num) (Real.logb_pos one_lt_two (above ratio ratios))
    · have ordered : [(5 / 3 : ℝ), 7 / 3, 3].Pairwise fun x y => 0 < x ∧ x < y := by norm_num
      refine List.pairwise_map.mpr (ordered.imp fun less => ?_)
      exact mul_lt_mul_of_pos_left (Real.logb_lt_logb one_lt_two less.1 less.2) (by norm_num)
  have made : mapping.Made := .ofScale (Mapping.ofScale_eq_ok_iff.mpr
    ⟨Scalar.isPositive_iff.mpr (by norm_num), rfl⟩)
  have grows : StrictMono (Analytic.power (2 : ℝ)) := fun _ _ less =>
    Real.rpow_lt_rpow_of_exponent_lt one_lt_two less
  obtain ⟨repeats, rises, mapped⟩ := Scale.repeats_and_rises tritave
  obtain ⟨higher, tied⟩ := mapped mapping made rfl
  have back : tritave.cents (-1) = tritave.cents 2 - tritave.period := by
    -- One step below the root is two steps above that of the period before.
    have walked := repeats 2 (-1)
    push_cast at walked
    exact walked.trans (by ring)
  exact ⟨rising, made, back, rises rising (by norm_num), higher rising grows _ _ (by decide),
    tied (Real.rpow_zero 2)⟩

end Melody
