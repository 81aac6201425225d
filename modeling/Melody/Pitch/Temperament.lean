import Melody.Pitch.Basic
import Melody.Scalar

/-! The sizes of intervals under equal temperament. -/

namespace Melody.Interval

variable {α : Type}

/-- The size of an interval in cents. -/
def cents [Scalar α] (i : Interval) : α :=
  Scalar.ofInt i.semitones * 100.0

/-- The frequency ratio that an interval spans. -/
def ratio [Analytic α] (i : Interval) : α :=
  Analytic.power 2.0 (Scalar.ofInt i.semitones / 12.0)

end Melody.Interval
