import Melody.Note.Group
import Melody.Scheduler.Operation
import Melody.Tempo

/-! Groups handed to a scheduler, one stretch of time after the other. -/

namespace Melody

/-- A stretch of time with its lower bound included and its upper bound excluded. -/
structure Window (α : Type) where
  low : Option α := none
  high : Option α := none
deriving DecidableEq, Repr

namespace Window

variable {α : Type} [Scalar α]

/-- The window in beats of a tempo. -/
def toBeats (window : Window α) (tempo : Tempo α) : Window α :=
  ⟨window.low.map tempo.toBeat, window.high.map tempo.toBeat⟩

/-- A place lies within the bounds that there are. -/
def contains (window : Window α) (place : α) : Bool :=
  (window.low.all fun low => decide (low ≤ place)) &&
    window.high.all fun high => decide (place < high)

end Window

namespace Scheduler

variable {γ α : Type} [Analytic α] [ToneGenerator γ α] [Readout α]

/-- Schedules notes one after the other up to an error, and gives the numbers of those not over. -/
def scheduleNotes (scheduler : Scheduler γ α) :
    List (Note α) → Scheduler γ α × Except (ScheduleError α) (List NoteId)
  | [] => (scheduler, .ok [])
  | note :: later =>
    match scheduler.schedule note none with
    -- The notes before the one that fails stay scheduled.
    | (scheduler, .error error) => (scheduler, .error error)
    | (scheduler, .ok id?) =>
      let (scheduler, outcome) := scheduler.scheduleNotes later
      (scheduler, outcome.map fun ids => id?.toList ++ ids)

/-- Schedules the notes of a group that start within a window, converted to seconds. -/
def scheduleGroup (scheduler : Scheduler γ α) (group : Group α) (tempo : Tempo α)
    (window : Window α) : Scheduler γ α × Except (ScheduleError α) (List NoteId) :=
  let beats := window.toBeats tempo
  let chosen := group.notes.filter fun note => beats.contains note.start
  scheduler.scheduleNotes (chosen.map tempo.noteToAbsolute)

end Scheduler

end Melody
