import Melody.Duration
import Melody.Note.Basic

/-! Tempo: beats of notes pinned to seconds on an absolute clock. -/

namespace Melody

/-- A tempo with the time of beat zero and the number of tempo beats in one beat of note time. -/
structure Tempo (α : Type) where
  bpm : α
  offset : α
  beatMeaning : α
deriving DecidableEq, Repr

namespace Tempo

variable {α : Type}

/-- The value that a tempo cannot have. -/
inductive Error (α : Type) where
  | invalidBpm (value : α)
  | invalidBeatMeaning (value : α)
  | invalidOffset (value : α)
deriving DecidableEq, Repr

/-- The wording of a tempo error. -/
def Error.message [Readout α] : Error α → String
  | .invalidBpm x => "tempo must be finite and positive, got " ++ Readout.text x ++ " bpm"
  | .invalidBeatMeaning x => "beat meaning must be finite and positive, got " ++ Readout.text x
  | .invalidOffset x => "time offset must be finite, got " ++ Readout.text x

variable [Scalar α]

/-- A hundred and twenty quarter notes a minute from time zero. -/
def standard : Tempo α := ⟨120.0, 0.0, 4.0⟩

/-- A tempo in quarter notes with beat zero at an offset in seconds. -/
def make (bpm offset : α) : Except (Error α) (Tempo α) :=
  if !Scalar.isPositive bpm then .error (.invalidBpm bpm)
  else if !Scalar.isFinite offset then .error (.invalidOffset offset)
  else .ok { (standard : Tempo α) with bpm, offset }

/-- The tempo with another number of tempo beats in one beat of note time. -/
def withBeatMeaning (tempo : Tempo α) (beatMeaning : α) : Except (Error α) (Tempo α) :=
  if !Scalar.isPositive beatMeaning then .error (.invalidBeatMeaning beatMeaning)
  else .ok { tempo with beatMeaning }

/-- The seconds that one beat of note time takes. -/
def beatLength (tempo : Tempo α) : α :=
  tempo.beatMeaning * 60.0 / tempo.bpm

/-- The length of one beat of note time, if it is a length of time. -/
def beatDuration? (tempo : Tempo α) : Option Duration :=
  Duration.ofSeconds? tempo.beatLength

/-- The second at which a beat falls. -/
def toAbsolute (tempo : Tempo α) (beat : α) : α :=
  beat / tempo.bpm * tempo.beatMeaning * 60.0 + tempo.offset

/-- The beat that falls on a second. -/
def toBeat (tempo : Tempo α) (time : α) : α :=
  (time - tempo.offset) / (tempo.beatMeaning * 60.0) * tempo.bpm

/-- The note with its start and its end in seconds. -/
def noteToAbsolute (tempo : Tempo α) (note : Note α) : Note α :=
  -- The duration is what lies between the two converted ends.
  let start := tempo.toAbsolute note.start
  let finish := tempo.toAbsolute note.finish
  { note with start, duration := finish - start }

end Tempo

end Melody
