import Melody.Pitch.Basic
import Melody.Scalar

/-! Notes: pitches that sound over a span of time. -/

namespace Melody

/-- A pitch with its span in time, its loudness and its stereo position. -/
structure Note (α : Type) where
  pitch : Pitch
  start : α
  duration : α
  velocity : α
  pan : α
deriving DecidableEq, Repr

namespace Note

variable {α : Type}

/-- The value that keeps a note from being valid. -/
inductive Error (α : Type) where
  | invalidStart (value : α)
  | invalidDuration (value : α)
  | invalidVelocity (value : α)
  | invalidPan (value : α)
  | invalidFactor (value : α)
deriving DecidableEq, Repr

/-- The wording of a note error. -/
def Error.message [Readout α] : Error α → String
  | .invalidStart x => "note start must be finite and not negative, got " ++ Readout.text x
  | .invalidDuration x => "note duration must be finite and positive, got " ++ Readout.text x
  | .invalidVelocity x => "note velocity must be finite and positive, got " ++ Readout.text x
  | .invalidPan x => "note pan must be within [-1, 1], got " ++ Readout.text x
  | .invalidFactor x => "amplification factor must be finite and positive, got " ++ Readout.text x

variable [Scalar α]

/-- Overlaps of at most this many beats are rounding noise. -/
def tolerance : α := 1e-9

/-- A start is finite and not negative. -/
def checkStart (start : α) : Except (Error α) Unit :=
  if Scalar.isFinite start && decide (0.0 ≤ start) then .ok () else .error (.invalidStart start)

/-- A duration is finite and positive. -/
def checkDuration (duration : α) : Except (Error α) Unit :=
  if Scalar.isPositive duration then .ok () else .error (.invalidDuration duration)

/-- A velocity is finite and positive. -/
def checkVelocity (velocity : α) : Except (Error α) Unit :=
  if Scalar.isPositive velocity then .ok () else .error (.invalidVelocity velocity)

/-- A pan lies between full left and full right. -/
def checkPan (pan : α) : Except (Error α) Unit :=
  if (-1.0 : α) ≤ pan ∧ pan ≤ 1.0 then .ok () else .error (.invalidPan pan)

/-- A factor of loudness is finite and positive. -/
def checkFactor (factor : α) : Except (Error α) Unit :=
  if Scalar.isPositive factor then .ok () else .error (.invalidFactor factor)

/-- A note of full velocity in the centre. -/
def make (pitch : Pitch) (start duration : α) : Except (Error α) (Note α) := do
  checkStart start
  checkDuration duration
  return ⟨pitch, start, duration, 1.0, 0.0⟩

/-- The note with another velocity. -/
def withVelocity (note : Note α) (velocity : α) : Except (Error α) (Note α) := do
  checkVelocity velocity
  return { note with velocity }

/-- The note with another stereo position. -/
def withPan (note : Note α) (pan : α) : Except (Error α) (Note α) := do
  checkPan pan
  return { note with pan }

/-- A note from all of its values, which are checked in their order. -/
def ofParts (pitch : Pitch) (start duration velocity pan : α) : Except (Error α) (Note α) := do
  let note ← make pitch start duration
  let note ← note.withVelocity velocity
  note.withPan pan

/-- The end of a note follows from its start and its duration. -/
def finish (note : Note α) : α :=
  note.start + note.duration

/-- The note moved in time. -/
def shift (note : Note α) (offset : α) : Except (Error α) (Note α) := do
  let start := note.start + offset
  checkStart start
  return { note with start }

/-- The note moved in pitch. -/
def transpose (note : Note α) (interval : Interval) : Note α :=
  { note with pitch := note.pitch + interval }

/-- The note with its velocity scaled. -/
def amplify (note : Note α) (factor : α) : Except (Error α) (Note α) := do
  checkFactor factor
  note.withVelocity (note.velocity * factor)

/-- Two notes conflict when they share a pitch and sound together for longer than the tolerance. -/
def conflictsWith (first second : Note α) : Bool :=
  first.pitch == second.pitch && decide (first.start < second.finish - tolerance) &&
    decide (second.start < first.finish - tolerance)

/-- Two notes are the same when they share a pitch and all of their values. -/
def same (first second : Note α) : Bool :=
  first.pitch == second.pitch && Scalar.same first.start second.start &&
    Scalar.same first.duration second.duration &&
    Scalar.same first.velocity second.velocity && Scalar.same first.pan second.pan

/-- The note with its end moved and its start kept. -/
def endingAt (note : Note α) (finish : α) : Note α :=
  { note with duration := finish - note.start }

end Note

end Melody
