import Melody.Pitch.Basic
import Melody.Text.Quoted
import Melody.Scalar

/-! Scales: repeating degrees in cents above a root. -/

namespace Melody

/-- Why a file could not be read as text. -/
inductive FileError where
  | notFound
  | notText
deriving DecidableEq, Repr

/-- The wording of a file error. -/
def FileError.message : FileError → String
  | .notFound => "No such file or directory (os error 2)"
  | .notText => "stream did not contain valid UTF-8"

/-- Why something is no scale or no mapping of pitches. -/
inductive TuningError (α : Type) where
  | file (cause : FileError)
  | missingDescription
  | missingCount
  | invalidCount (text : List Char)
  | invalidInterval (line : Nat) (text : List Char)
  | wrongIntervalCount (expected found : Nat)
  | emptyScale
  | invalidPeriod (cents : α)
  | invalidFrequency (value : α)
deriving DecidableEq, Repr

/-- The wording of a tuning error. -/
def TuningError.message {α : Type} [Readout α] : TuningError α → String
  | .file cause => "reading scale file: " ++ cause.message
  | .missingDescription => "scale file is missing its description line"
  | .missingCount => "scale file is missing its note count line"
  | .invalidCount text => "invalid note count " ++ Text.quoted text
  | .invalidInterval line text =>
    "invalid interval " ++ Text.quoted text ++ " on line " ++ toString line
  | .wrongIntervalCount expected found =>
    "scale file declares " ++ toString expected ++ " intervals but contains " ++ toString found
  | .emptyScale => "a scale needs at least one degree"
  | .invalidPeriod cents =>
    "the period of a scale must be positive, got " ++ Readout.text cents ++ " cents"
  | .invalidFrequency x =>
    "base frequency must be positive and finite, got " ++ Readout.text x

/-- Degrees above a root, the last of which is the period after which they repeat. -/
structure Scale (α : Type) where
  description : String
  degrees : List α
  nonempty : degrees ≠ []
deriving DecidableEq

namespace Scale

variable {α : Type}

/-- The number of degrees. -/
def size (scale : Scale α) : Nat :=
  scale.degrees.length

/-- The distance after which the scale repeats. -/
def period (scale : Scale α) : α :=
  scale.degrees.getLast scale.nonempty

variable [Scalar α]

/-- The scale of some degrees, the last of which must be finite and positive. -/
def ofDegrees (description : String) (degrees : List α) : Except (TuningError α) (Scale α) :=
  if nonempty : degrees ≠ [] then
    let period := degrees.getLast nonempty
    if Scalar.isPositive period then .ok ⟨description, degrees, nonempty⟩
    else .error (.invalidPeriod period)
  else .error .emptyScale

/-- The octave in a positive number of equal steps. -/
def equalDivision (steps : Nat) (positive : 0 < steps) : Scale α where
  description := toString steps ++ "-tone equal temperament"
  degrees :=
    let step : α := 1200.0 / (steps : α)
    (List.range steps).map fun (i : Nat) => step * ((i + 1 : Nat) : α)
  nonempty := by
    -- A positive number of steps gives at least one degree.
    intro empty
    have counted := congrArg List.length empty
    simp only [List.length_map, List.length_range, List.length_nil] at counted
    omega

/-- The distance in cents from the root to a degree of a number within one period. -/
def within (scale : Scale α) (degree : Nat) : α :=
  match degree with
  | 0 => 0.0
  | index + 1 => scale.degrees.getD index 0.0

/-- The distance in cents from the root to the degree some steps away. -/
def cents (scale : Scale α) (steps : Int) : α :=
  Scalar.ofInt (steps / scale.size) * scale.period + scale.within (steps % scale.size).toNat

end Scale

/-- A scale tied to the keyboard at one pitch of known frequency. -/
structure Mapping (α : Type) where
  scale : Scale α
  basePitch : Pitch
  baseFrequency : α
deriving DecidableEq

namespace Mapping

variable {α : Type}

/-- The mapping of a scale whose root sounds at a finite and positive frequency. -/
def ofScale [Scalar α] (scale : Scale α) (basePitch : Pitch) (baseFrequency : α) :
    Except (TuningError α) (Mapping α) :=
  if Scalar.isPositive baseFrequency then .ok ⟨scale, basePitch, baseFrequency⟩
  else .error (.invalidFrequency baseFrequency)

/-- Twelve equal steps with concert A at 440 hertz. -/
def concert [Scalar α] : Mapping α :=
  ⟨Scale.equalDivision 12 (by decide), Pitch.a4, 440.0⟩

/-- The frequency of a pitch, one degree being walked for each semitone. -/
def frequency [Analytic α] (mapping : Mapping α) (pitch : Pitch) : α :=
  mapping.baseFrequency *
    Analytic.power 2.0 (mapping.scale.cents (pitch - mapping.basePitch).semitones / 1200.0)

end Mapping

end Melody
