import Melody.Decimal.Rounding

/-! The exact value behind the bits of a double. -/

namespace Melody.Decimal

/-- The value of a double, a finite one being its mantissa times a power of two. -/
inductive Binary where
  | undefined
  | infinite (negative : Bool)
  | finite (negative : Bool) (mantissa : Nat) (exponent : Int)
deriving DecidableEq, Repr

namespace Binary

/-- The bit of a double that holds its sign. -/
def signBit : Nat := 1 <<< 63

/-- The bit that a full mantissa starts with, above the ones that are stored. -/
def leadingBit : Nat := 1 <<< 52

/-- Splits the bits of a double into sign, mantissa and exponent. -/
def ofFloat (x : Float) : Binary :=
  let bits : Nat := x.toBits.toNat
  let negative := decide (signBit ≤ bits)
  let field : Nat := bits / leadingBit % 1 <<< 11
  let fraction : Nat := bits % leadingBit
  -- The largest exponent field marks what is not finite, the smallest drops the leading one.
  if field = 2047 then if fraction = 0 then .infinite negative else .undefined
  else if field = 0 then .finite negative fraction (-1074)
  else .finite negative (fraction + leadingBit) ((field : Int) - 1075)

/-- The numerator and the denominator of a natural number times a power of a base. -/
def ratio (base mantissa : Nat) (exponent : Int) : Nat × Nat :=
  (mantissa * base.pow exponent.toNat, base.pow (-exponent).toNat)

/-- The denominator of a scaled natural number is positive. -/
theorem ratio_snd_pos {base : Nat} (positive : 0 < base) (mantissa : Nat) (exponent : Int) :
    0 < (ratio base mantissa exponent).2 :=
  Nat.pow_pos positive

/-- The largest number that a machine word holds. -/
def wordLimit : Nat := UInt64.size - 1

/-- The least natural number not below a value, kept within a machine word. -/
def ceiling : Binary → Nat
  | .undefined => 0
  | .infinite negative => if negative then 0 else wordLimit
  | .finite negative mantissa exponent =>
    let (numerator, denominator) := ratio 2 mantissa exponent
    if negative then 0 else min wordLimit ((numerator + denominator - 1) / denominator)

/-- The natural number nearest to a value, a half going up, kept within a machine word. -/
def rounded : Binary → Nat
  | .undefined => 0
  | .infinite negative => if negative then 0 else wordLimit
  | .finite negative mantissa exponent =>
    let (numerator, denominator) := ratio 2 mantissa exponent
    if negative then 0 else min wordLimit (roundQuotient .up numerator denominator)

/-- The natural number nearest to a multiple of a value that is finite and not negative. -/
def multiple? (value : Binary) (factor : Nat) : Option Nat :=
  match value with
  | .finite negative mantissa exponent =>
    let (numerator, denominator) := ratio 2 (mantissa * factor) exponent
    -- A zero counts as not negative whatever its sign.
    if negative && mantissa != 0 then none
    else some (roundQuotient .even numerator denominator)
  | _ => none

end Binary

end Melody.Decimal
