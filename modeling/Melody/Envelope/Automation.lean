import Melody.Envelope.Sampling

/-! Envelopes as automation of a value over time. -/

namespace Melody

/-- One change of an automated value. -/
inductive ControlEvent (α : Type) where
  /-- A jump to a value. -/
  | jump (value time : α)
  /-- A straight way from the event before to a value. -/
  | ramp (value time : α)
deriving DecidableEq, Repr

namespace ControlEvent

/-- The time at which an event reaches its value. -/
def time {α : Type} : ControlEvent α → α
  | jump _ time => time
  | ramp _ time => time

/-- The value that an event reaches. -/
def value {α : Type} : ControlEvent α → α
  | jump value _ => value
  | ramp value _ => value

end ControlEvent

/-- A map from x values to times. -/
structure Transform (α : Type) where
  shift : α
  scale : α
deriving DecidableEq, Repr

namespace Transform

variable {α : Type} [Scalar α]

/-- The map that starts an envelope at a time without stretching it. -/
def startingAt (time : α) : Transform α := ⟨time, 1.0⟩

/-- The time of an x value. -/
def time (transform : Transform α) (x : α) : α :=
  transform.shift + x * transform.scale

end Transform

namespace Envelope

variable {α : Type} [Analytic α]

/-- The events that follow points, given the time of the point before. -/
def eventsAfter (transform : Transform α) : Option α → List (Point α) → List (ControlEvent α)
  | _, [] => []
  | previous, point :: later =>
    let time := transform.time point.x
    let event : ControlEvent α := match previous with
      | some previous => if previous < time then .ramp point.y time else .jump point.y time
      | none => .jump point.y time
    event :: eventsAfter transform (some time) later

/-- The events that play an envelope, a point at the time of the one before being a jump. -/
def events (envelope : Envelope α) (transform : Transform α) (fidelity : α) :
    List (ControlEvent α) :=
  eventsAfter transform none (envelope.approximation fidelity)

/-- The events that play an envelope, unless counting its points ends the program. -/
def events? (envelope : Envelope α) (transform : Transform α) (fidelity : α) :
    Option (List (ControlEvent α)) :=
  (envelope.approximation? fidelity).map (eventsAfter transform none)

end Envelope

end Melody
