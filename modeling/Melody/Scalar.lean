/-! Numbers for times, levels and frequencies, with the operations asked of them. -/

namespace Melody

/-- Numbers with arithmetic, comparison and decimal literals, some of which may not be finite. -/
class Scalar (α : Type) extends Add α, Sub α, Mul α, Div α, Neg α, LT α, LE α, NatCast α,
    OfScientific α where
  /-- Strict comparison is decidable. -/
  decideLt : (x y : α) → Decidable (x < y)
  /-- Weak comparison is decidable. -/
  decideLe : (x y : α) → Decidable (x ≤ y)
  /-- Separates the finite numbers from infinities and from values that are no number. -/
  isFinite : α → Bool
  /-- Orders every two values, also those that plain comparison leaves apart. -/
  order : α → α → Ordering
  /-- Gives the least natural number not below a value, within the range of a machine word. -/
  ceiling : α → Nat
  /-- Gives the nearest natural number, a half going up, within the range of a machine word. -/
  rounded : α → Nat
  /-- Gives the natural number nearest to a multiple of a value, a half going to the even one. -/
  multiple? : α → Nat → Option Nat

namespace Scalar

variable {α : Type} [Scalar α]

instance (x y : α) : Decidable (x < y) := decideLt x y

instance (x y : α) : Decidable (x ≤ y) := decideLe x y

/-- An integer as a scalar. -/
def ofInt : Int → α
  | .ofNat n => (n : α)
  | .negSucc n => -((n + 1 : Nat) : α)

/-- Two values are the same number when neither exceeds the other. -/
def same (x y : α) : Bool :=
  decide (x ≤ y) && decide (y ≤ x)

/-- The larger of two values, of which one that is no number gives way, and the second at a tie. -/
def larger (x y : α) : α :=
  if y < x then x else if y ≤ y then y else x

/-- The smaller of two values, of which one that is no number gives way, and the second at a tie. -/
def smaller (x y : α) : α :=
  if x < y then x else if y ≤ y then y else x

/-- The distance of a value from zero. -/
def magnitude (x : α) : α :=
  if x < 0.0 then -x else x

/-- Limits a value to the unit interval, with zero for a value that is no number. -/
def clampUnit (x : α) : α :=
  smaller (larger x 0.0) 1.0

/-- The finite numbers above zero. -/
def isPositive (x : α) : Bool :=
  isFinite x && decide (0.0 < x)

end Scalar

/-- Scalars with the functions that curves and tunings are made of. -/
class Analytic (α : Type) extends Scalar α where
  /-- Raises a base to a power. -/
  power : α → α → α
  /-- The natural logarithm. -/
  ln : α → α
  /-- The logarithm to base two. -/
  log2 : α → α
  /-- The tangent of an angle. -/
  tangent : α → α
  /-- The angle with a given tangent. -/
  arctangent : α → α
  /-- The angle of a vector, its vertical part coming first. -/
  direction : α → α → α
  /-- The square root. -/
  root : α → α
  /-- Half a full turn. -/
  halfTurn : α

/-- How a number is spelled inside a message. -/
class Readout (α : Type) where
  /-- Spells one number. -/
  text : α → String
  /-- Spells one number so that it cannot be taken for a count. -/
  pointed : α → String

end Melody
