import Melody.Scheduler.Timers
import Melody.Voice.Basic

/-! The notes of one pitch that have a voice. -/

namespace Melody

/-- A note with a voice and the span it sounds for. -/
structure Entry (α : Type) where
  id : NoteId
  voice : Nat
  start : α
  finish : Ending α
  velocity : α
deriving DecidableEq, Repr

/-- The note of a pitch that sounds, and those that have not started, in order of preparation. -/
structure Lane (α : Type) where
  pitch : Pitch
  active : Option (Entry α) := none
  future : List (Entry α) := []
deriving DecidableEq, Repr

namespace Lane

variable {α : Type}

/-- A lane without notes. -/
def isEmpty (lane : Lane α) : Bool :=
  lane.active.isNone && lane.future.isEmpty

/-- A note is the one that sounds. -/
def isActive (lane : Lane α) (id : NoteId) : Bool :=
  lane.active.any (·.id == id)

/-- A note has not started. -/
def isFuture (lane : Lane α) (id : NoteId) : Bool :=
  lane.future.any (·.id == id)

/-- A note is in the lane. -/
def has (lane : Lane α) (id : NoteId) : Bool :=
  lane.isActive id || lane.isFuture id

/-- All entries, the one that sounds first. -/
def entries (lane : Lane α) : List (Entry α) :=
  lane.active.toList ++ lane.future

/-- Takes out the entry of a note that has not started. -/
def takeFuture? (lane : Lane α) (id : NoteId) : Option (Entry α × Lane α) :=
  (lane.future.find? (·.id == id)).map fun entry =>
    (entry, { lane with future := lane.future.eraseP (·.id == id) })

/-- Takes out the entry of a note, looking first among those that have not started. -/
def take? (lane : Lane α) (id : NoteId) : Option (Entry α × Lane α) :=
  match lane.takeFuture? id with
  | some taken => some taken
  | none =>
    match lane.active with
    | some entry => if entry.id = id then some (entry, { lane with active := none }) else none
    | none => none

/-- The lane without a note that has ended. -/
def expire [Scalar α] (lane : Lane α) (now : α) : Lane α :=
  if lane.active.any (·.finish.isReached now) then { lane with active := none } else lane

end Lane

/-- Lanes in order of pitch, each of which holds a note. -/
abbrev Lanes (α : Type) : Type := List (Lane α)

namespace Lanes

variable {α : Type}

/-- The lane of a pitch. -/
def find? (lanes : Lanes α) (pitch : Pitch) : Option (Lane α) :=
  List.find? (·.pitch == pitch) lanes

/-- Changes the lane of a pitch, which is empty if it is not there. -/
def update (pitch : Pitch) (change : Lane α → Lane α) : Lanes α → Lanes α
  | [] => [change ⟨pitch, none, []⟩]
  | lane :: later =>
    if lane.pitch = pitch then change lane :: later
    -- A lane that is not there belongs before the first one of a higher pitch.
    else if pitch < lane.pitch then change ⟨pitch, none, []⟩ :: lane :: later
    else lane :: update pitch change later

/-- Takes out the entry of a note, and its lane if that becomes empty. -/
def take? (id : NoteId) : Lanes α → Option (Entry α × Lanes α)
  | [] => none
  | lane :: later =>
    match lane.take? id with
    | some (entry, rest) => some (entry, if rest.isEmpty then later else rest :: later)
    | none => (take? id later).map fun (entry, others) => (entry, lane :: others)

/-- Some lane has a note. -/
def has (lanes : Lanes α) (id : NoteId) : Bool :=
  lanes.any (·.has id)

/-- The lanes without the notes that have ended. -/
def expire [Scalar α] (lanes : Lanes α) (now : α) : Lanes α :=
  (lanes.map (·.expire now)).filter (!·.isEmpty)

end Lanes

end Melody
