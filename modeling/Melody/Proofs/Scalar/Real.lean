import Mathlib.Analysis.SpecialFunctions.Complex.Arg
import Mathlib.Analysis.SpecialFunctions.Log.Base
import Mathlib.Analysis.SpecialFunctions.Pow.Real
import Mathlib.Analysis.SpecialFunctions.Trigonometric.Arctan
import Melody.Decimal.Binary
import Melody.Proofs.Scalar.Field

/-! Real numbers as scalars, with the exact functions that curves and tunings are made of. -/

namespace Melody

noncomputable section

/-- Real numbers count within the range of a machine word. -/
instance : Scalar ℝ where
  decideLt := fun x y => Real.decidableLT x y
  decideLe := fun x y => Real.decidableLE x y
  isFinite := fun _ => true
  order := compare
  ceiling := fun x => min Decimal.Binary.wordLimit ⌈x⌉₊
  rounded := fun x => min Decimal.Binary.wordLimit ⌊x + 1 / 2⌋₊
  multiple? := fun x factor =>
    -- Halfway between two natural numbers the even one is taken.
    if x < 0 then none
    else if Int.fract (x * factor) = 1 / 2 then some (2 * ⌊(x * factor + 1 / 2) / 2⌋₊)
    else some ⌊x * factor + 1 / 2⌋₊

instance : Analytic ℝ where
  power := fun base exponent => base ^ exponent
  ln := Real.log
  log2 := Real.logb 2
  tangent := Real.tan
  arctangent := Real.arctan
  direction := fun y x => Complex.arg ⟨x, y⟩
  root := Real.sqrt
  halfTurn := Real.pi

instance : ExactScalar ℝ where
  __ := (inferInstance : Analytic ℝ)
  __ := (inferInstance : Field ℝ)
  __ := (inferInstance : LinearOrder ℝ)
  __ := (inferInstance : IsStrictOrderedRing ℝ)
  finite := fun _ => rfl
  order_eq := fun _ _ => rfl
  literal := fun digits below places => (Rat.cast_ofScientific digits below places).symm

/-- Powers are those of the reals. -/
@[simp] theorem Analytic.power_eq_rpow (base exponent : ℝ) :
    power base exponent = base ^ exponent :=
  rfl

/-- Logarithms are those of the reals. -/
@[simp] theorem Analytic.ln_eq_log (x : ℝ) : ln x = Real.log x :=
  rfl

/-- Tangents are those of the reals. -/
@[simp] theorem Analytic.tangent_eq_tan (x : ℝ) : tangent x = Real.tan x :=
  rfl

/-- Angles of tangents are those of the reals. -/
@[simp] theorem Analytic.arctangent_eq_arctan (x : ℝ) : arctangent x = Real.arctan x :=
  rfl

/-- Square roots are those of the reals. -/
@[simp] theorem Analytic.root_eq_sqrt (x : ℝ) : root x = √x :=
  rfl

end

end Melody
