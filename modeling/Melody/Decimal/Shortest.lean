import Melody.Decimal.Binary

/-! The fewest decimal digits that identify a double, and its digits to a fixed count. -/

namespace Melody.Decimal

/-- A decimal number, its significand times a power of ten. -/
structure Digits where
  significand : Nat
  exponent : Int
deriving DecidableEq, Repr

namespace Digits

/-- The number of digits of the significand. -/
def count (d : Digits) : Nat :=
  (Nat.toDigits 10 d.significand).length

/-- The power of ten of the leading digit. -/
def decade (d : Digits) : Int :=
  d.exponent + d.count - 1

/-- Drops zeros at the end of the significand, at most as many as the fuel. -/
def dropZeros : Nat → Digits → Digits
  | 0, d => d
  | fuel + 1, d =>
    if d.significand ≠ 0 ∧ d.significand % 10 = 0 then
      dropZeros fuel ⟨d.significand / 10, d.exponent + 1⟩
    else d

end Digits

/-- The power of ten of the leading digit of a positive number given as a quotient. -/
def leadingDecade (numerator denominator : Nat) : Int :=
  -- The binary magnitude gives a decimal one that is at most one step off.
  let estimate := ((numerator.log2 : Int) - denominator.log2) * 1233 / 4096
  let reaches (power : Int) : Bool :=
    decide (denominator * Nat.pow 10 power.toNat ≤ numerator * Nat.pow 10 (-power).toNat)
  if reaches (estimate + 1) then estimate + 1
  else if reaches estimate then estimate
  else estimate - 1

/-- The reals that a positive double stands for, four times its mantissa and both bounds. -/
structure RoundingInterval where
  low : Nat
  value : Nat
  high : Nat
  closed : Bool
deriving DecidableEq, Repr

/-- The rounding interval of a mantissa, in quarters of its last binary place. -/
def roundingInterval (mantissa : Nat) (exponent : Int) : RoundingInterval where
  -- Below a power of two the neighbour lies only half as far.
  low :=
    if mantissa = Binary.leadingBit ∧ -1074 < exponent then 4 * mantissa - 1
    else 4 * mantissa - 2
  value := 4 * mantissa
  high := 4 * mantissa + 2
  closed := mantissa % 2 = 0

/-- The nearer of the two grid points around a value that identify it, if one does. -/
def gridPoint? (tie : Tie) (interval : RoundingInterval) (exponent step : Int) : Option Nat :=
  -- Quarters of the last binary place and grid steps are brought to one denominator.
  let binary := Nat.pow 2 (exponent - 2).toNat * Nat.pow 10 (-step).toNat
  let decimal := Nat.pow 10 step.toNat * Nat.pow 2 (2 - exponent).toNat
  let value := interval.value * binary
  let below := value / decimal
  let inside (point : Nat) : Bool :=
    let place := point * decimal
    if interval.closed then
      decide (interval.low * binary ≤ place) && decide (place ≤ interval.high * binary)
    else decide (interval.low * binary < place) && decide (place < interval.high * binary)
  match inside below, inside (below + 1) with
  | true, true => some (roundQuotient tie value decimal)
  | true, false => some below
  | false, true => some (below + 1)
  | false, false => none

/-- The shortest digits among grids from coarse to fine. -/
def shortestFrom (tie : Tie) (interval : RoundingInterval) (exponent decade : Int) :
    List Nat → Option Digits
  | [] => none
  | places :: finer =>
    let step := decade - (places : Int)
    match gridPoint? tie interval exponent step with
    | some point => some (Digits.dropZeros 17 ⟨point, step⟩)
    | none => shortestFrom tie interval exponent decade finer

/-- The digits of a number rounded to a count of significant places, a half going to even. -/
def roundedDigits (places : Nat) (numerator denominator : Nat) : Digits :=
  let step := leadingDecade numerator denominator - (places : Int) + 1
  let point :=
    roundQuotient .even (numerator * Nat.pow 10 (-step).toNat) (denominator * Nat.pow 10 step.toNat)
  -- Rounding up from nines gives a power of ten with one place too many.
  if point = Nat.pow 10 places then ⟨Nat.pow 10 (places - 1), step + 1⟩ else ⟨point, step⟩

/-- The fewest digits that identify the double with a given mantissa and exponent. -/
def shortest (tie : Tie) (mantissa : Nat) (exponent : Int) : Digits :=
  if mantissa = 0 then ⟨0, 0⟩
  else
    let (numerator, denominator) := Binary.ratio 2 mantissa exponent
    -- Seventeen digits identify every double.
    (shortestFrom tie (roundingInterval mantissa exponent) exponent
      (leadingDecade numerator denominator) (List.range 17)).getD
      (roundedDigits 17 numerator denominator)

end Melody.Decimal
