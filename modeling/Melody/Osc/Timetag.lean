import Melody.Duration
import Melody.Decimal.Rounding
import Melody.Osc.Packet

/-! Timetags of wall clock times. -/

namespace Melody.Osc.Timetag

/-- The seconds from the start of the year 1900 to that of 1970. -/
def unixOffset : Nat := 2208988800

/-- The number of fractions in a second, and of seconds in an era. -/
def unit : Nat := UInt32.size

/-- The fraction nearest to a number of nanoseconds below a second. -/
def fractionOf (nanoseconds : Nat) : Nat :=
  Decimal.roundQuotient .up (nanoseconds * unit) Duration.perSecond

/-- The timetag of a time in nanoseconds since 1970, before which all times count as its start. -/
def ofWall (nanoseconds : Int) : Timetag :=
  let since : Duration := ⟨nanoseconds.toNat⟩
  ⟨(since.wholeSeconds + unixOffset) % unit, fractionOf since.subsecond⟩

/-- The wall clock time of a number of seconds from an epoch, if the clock can show it. -/
def wall? {α : Type} [Scalar α] (epoch : Int) (time : α) : Option Int := do
  let nanoseconds ←
    if (0.0 : α) ≤ time then
      (Duration.ofSeconds? time).map fun d => epoch + (d.nanoseconds : Int)
    else (Duration.ofSeconds? (-time)).map fun d => epoch - (d.nanoseconds : Int)
  let seconds := nanoseconds / (Duration.perSecond : Int)
  if Int64.minValue.toInt ≤ seconds ∧ seconds ≤ Int64.maxValue.toInt then some nanoseconds else none

/-- The timetag of a number of seconds from an epoch. -/
def ofTime? {α : Type} [Scalar α] (epoch : Int) (time : α) : Option Timetag :=
  (wall? epoch time).map ofWall

end Melody.Osc.Timetag
