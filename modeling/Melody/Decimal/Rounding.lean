/-! Quotients of naturals rounded to the nearest natural number. -/

namespace Melody.Decimal

/-- Where a value halfway between two neighbours goes. -/
inductive Tie where
  | up
  | even
deriving DecidableEq, Repr

/-- The natural number nearest to a quotient, with `tie` deciding a remainder of one half. -/
def roundQuotient (tie : Tie) (numerator denominator : Nat) : Nat :=
  -- The remainder is compared with half the denominator without dividing again.
  let whole := numerator / denominator
  let rest := numerator % denominator
  if 2 * rest < denominator then whole
  else if denominator < 2 * rest then whole + 1
  else match tie with
    | .up => whole + 1
    | .even => whole + whole % 2

/-- A remainder below one half leaves the whole part. -/
theorem roundQuotient_of_lt {tie : Tie} {numerator denominator : Nat}
    (small : 2 * (numerator % denominator) < denominator) :
    roundQuotient tie numerator denominator = numerator / denominator := by
  simp [roundQuotient, small]

/-- A multiple of the denominator is left as it is. -/
theorem roundQuotient_mul (tie : Tie) (whole denominator : Nat) (positive : 0 < denominator) :
    roundQuotient tie (whole * denominator) denominator = whole := by
  -- The remainder is zero, which is less than half of any positive denominator.
  rw [roundQuotient_of_lt (by simpa using positive), Nat.mul_div_cancel _ positive]

end Melody.Decimal
