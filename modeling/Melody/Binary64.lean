import Melody.Scalar
import Melody.Decimal.Binary

/-! Doubles as scalars, with counts taken from their exact value. -/

namespace Melody

namespace Binary64

/-- A key that orders doubles by value, with negative zero below zero and undefined values last. -/
def key (x : Float) : Int :=
  let bits := x.toBits.toNat
  -- Bit patterns of negative doubles grow downwards.
  if Decimal.Binary.signBit ≤ bits then -((bits - Decimal.Binary.signBit : Nat) : Int) - 1
  else (bits : Int)

end Binary64

instance : Scalar Float where
  natCast := Float.ofNat
  decideLt := fun x y => inferInstanceAs (Decidable (x < y))
  decideLe := fun x y => inferInstanceAs (Decidable (x ≤ y))
  isFinite := Float.isFinite
  order := fun x y => compare (Binary64.key x) (Binary64.key y)
  ceiling := fun x => (Decimal.Binary.ofFloat x).ceiling
  rounded := fun x => (Decimal.Binary.ofFloat x).rounded
  multiple? := fun x factor => (Decimal.Binary.ofFloat x).multiple? factor

instance : Analytic Float where
  power := Float.pow
  ln := Float.log
  log2 := Float.log2
  tangent := Float.tan
  arctangent := Float.atan
  direction := Float.atan2
  root := Float.sqrt
  halfTurn := 3.141592653589793

end Melody
