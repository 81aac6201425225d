import Melody.Scalar

/-! Lengths of time in whole nanoseconds. -/

namespace Melody

/-- A length of time. -/
structure Duration where
  nanoseconds : Nat
deriving DecidableEq, Repr

namespace Duration

/-- The nanoseconds of a second. -/
def perSecond : Nat := 1000000000

/-- A length of time in milliseconds. -/
def ofMilliseconds (count : Nat) : Duration :=
  ⟨count * 1000000⟩

/-- The whole seconds of a length of time. -/
def wholeSeconds (d : Duration) : Nat :=
  d.nanoseconds / perSecond

/-- The nanoseconds past the whole seconds. -/
def subsecond (d : Duration) : Nat :=
  d.nanoseconds % perSecond

/-- A length of time as a number of seconds. -/
def seconds {α : Type} [Scalar α] (d : Duration) : α :=
  (d.wholeSeconds : α) + (d.subsecond : α) / 1e9

/-- The length nearest to a number of seconds that is not negative and fits a machine word. -/
def ofSeconds? {α : Type} [Scalar α] (seconds : α) : Option Duration :=
  match Scalar.multiple? seconds perSecond with
  | some nanoseconds => if nanoseconds < UInt64.size * perSecond then some ⟨nanoseconds⟩ else none
  | none => none

end Duration

end Melody
