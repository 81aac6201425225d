import Melody.Note.Basic
import Melody.Notation.Property

/-! Notes and rests as they are written. -/

namespace Melody.Notation

/-- What a written item sounds like. -/
inductive Sound where
  | note (pitch : Pitch)
  | rest
deriving DecidableEq, Repr

/-- A written note or rest with its place in the text and the number of brackets around it. -/
structure Item (α : Type) where
  sound : Sound
  start : α
  duration : α
  velocity : α
  pan : α
  depth : Nat
  offset : Nat
deriving DecidableEq, Repr

namespace Item

variable {α : Type} [Scalar α]

/-- The end of an item follows from its start and its duration. -/
def finish (item : Item α) : α :=
  item.start + item.duration

/-- A rest that takes no time or goes back in time. -/
def stepsBack (item : Item α) : Bool :=
  item.sound == .rest && decide (item.duration ≤ 0.0)

/-- The item with one property changed. -/
def set (item : Item α) (property : Property) (value : α) : Item α :=
  match property with
  | .duration => { item with duration := value }
  | .start => { item with start := value }
  | .finish => { item with duration := value - item.start }
  | .velocity => { item with velocity := value }
  | .velocityOffset => { item with velocity := item.velocity + value }
  | .durationOffset => { item with duration := item.duration + value }
  | .pan => { item with pan := value }

/-- The value of a name in an expression about an item. -/
def named? (item : Item α) (name : String) : Option α :=
  match name with
  | "dur" => some item.duration
  | "vel" => some item.velocity
  | "pan" => some item.pan
  | _ => namedLength? name

/-- The note that an item sounds, if it is no rest, where a rest must not start before zero. -/
def note? (item : Item α) : Except (Note.Error α) (Option (Note α)) :=
  match item.sound with
  | .note pitch =>
    (Note.ofParts pitch item.start item.duration item.velocity item.pan).map some
  | .rest => if item.start < 0.0 then .error (.invalidStart item.start) else .ok none

end Item

/-- What an item takes over from the one before. -/
structure Context (α : Type) where
  nextStart : α
  duration : α
  velocity : α
  pan : α
deriving DecidableEq, Repr

namespace Context

variable {α : Type} [Scalar α]

/-- The default properties from a given place on. -/
def startingAt (nextStart : α) : Context α :=
  ⟨nextStart, 0.25, 1.0, 0.0⟩

/-- The item that a sound becomes. -/
def emit (context : Context α) (sound : Sound) (depth offset : Nat) : Item α :=
  ⟨sound, context.nextStart, context.duration, context.velocity, context.pan, depth, offset⟩

/-- The context after an item, where only positive durations are taken over. -/
def after (context : Context α) (item : Item α) : Context α where
  nextStart := item.finish
  duration := if 0.0 < item.duration then item.duration else context.duration
  velocity := item.velocity
  pan := item.pan

end Context

end Melody.Notation
