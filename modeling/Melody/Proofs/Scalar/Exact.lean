import Mathlib.Algebra.Order.Floor.Semiring
import Mathlib.Data.Rat.Floor
import Mathlib.Tactic.Linarith
import Mathlib.Tactic.NormNum
import Melody.Decimal.Binary
import Melody.Scalar

/-! Rational numbers as scalars, on which no arithmetic is rounded. -/

namespace Melody

instance : Scalar ℚ where
  decideLt := fun x y => inferInstanceAs (Decidable (x < y))
  decideLe := fun x y => inferInstanceAs (Decidable (x ≤ y))
  isFinite := fun _ => true
  order := compare
  ceiling := fun x => min Decimal.Binary.wordLimit ⌈x⌉₊
  rounded := fun x =>
    min Decimal.Binary.wordLimit (Decimal.roundQuotient .up x.num.toNat x.den)
  multiple? := fun x factor =>
    -- Only a value below zero has no multiple that is a natural number.
    if x < 0 then none else some (Decimal.roundQuotient .even (x.num.toNat * factor) x.den)

end Melody
