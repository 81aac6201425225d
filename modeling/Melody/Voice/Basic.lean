import Melody.Notice
import Melody.Envelope.Automation

/-! Voices that sound notes, and what a generator of voices has to offer. -/

namespace Melody

/-- The time at which something stops sounding. -/
inductive Ending (α : Type) where
  /-- It ends at a given time. -/
  | at (time : α)
  /-- It sounds until it is stopped. -/
  | never
deriving DecidableEq, Repr

namespace Ending

variable {α : Type}

/-- The spelling of an end. -/
def text [Readout α] : Ending α → String
  | .at time => Readout.text time
  | never => "inf"

variable [Scalar α]

/-- An end lies after a given time, and an open one after every time short of infinity. -/
def isAfter (ending : Ending α) (now : α) : Bool :=
  match ending with
  | .at time => decide (now < time)
  | never => Scalar.isFinite now || decide (now < 0.0)

/-- An end has been reached at a given time, and an open one only at infinity. -/
def isReached (ending : Ending α) (now : α) : Bool :=
  match ending with
  | .at time => decide (time ≤ now)
  | never => !Scalar.isFinite now && decide (0.0 < now)

/-- The time of an end that is known and finite. -/
def finite? : Ending α → Option α
  | .at time => if Scalar.isFinite time then some time else none
  | never => none

end Ending

/-- What a generator is told about a voice to be created. -/
structure Tone (α : Type) where
  frequency : α
  start : α
  finish : Ending α
  velocity : α
  pan : α
deriving DecidableEq, Repr

/-- What a voice is told after its creation. -/
inductive Command (α : Type) where
  /-- Its loudness changes. -/
  | gain (event : ControlEvent α)
  /-- It fades out along an envelope from a given time on. -/
  | release (time : α) (envelope : Envelope α)
  /-- It falls silent at once. -/
  | destroy
deriving DecidableEq

/-- Why a voice could not be created. -/
inductive CreationFault where
  /-- The generator has no voice to spare. -/
  | exhausted
  /-- The server was not reached. -/
  | undelivered
deriving DecidableEq, Repr

/-- The wording of a fault and of the faults behind it, nearest first. -/
def CreationFault.wording : CreationFault → List String
  | exhausted => ["no voices left"]
  | undelivered => ["sending packet to server", "unreachable"]

/-- Generators, whose voices go by numbers. -/
class ToneGenerator (γ : Type) (α : outParam Type) where
  /-- Creates a voice or fails, either of which may change the generator. -/
  create : γ → Tone α → γ × Except CreationFault Nat
  /-- Passes a command to a voice. -/
  obey : γ → Nat → Command α → γ × List Notice

/-- The attempts from a given one on that succeed when only so many may, if there is a limit. -/
def allowance (attempts : Nat) : Option Nat → Nat → Bool
  | none, _ => true
  | some left, attempt => decide (attempt < attempts + left)

end Melody
