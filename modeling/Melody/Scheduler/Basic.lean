import Melody.Duration
import Melody.Scheduler.Lane
import Melody.Tuning.Scale

/-! A scheduler turns notes on a clock into voices, each created shortly before it is needed. -/

namespace Melody

/-- How a scheduler prepares notes. -/
structure Settings (α : Type) where
  /-- Notes further ahead than twice this time wait until they are this far ahead. -/
  leadTime : α
  /-- The time between two searches for notes that have ended. -/
  sweepInterval : α
  /-- The frequency of each pitch. -/
  mapping : Mapping α
  /-- The loudness of a voice from its start on, relative to the velocity. -/
  attack : Envelope α
  /-- The loudness of a voice from its release on, relative to the level it is held at. -/
  release : Envelope α
  /-- The number of points that stand for a radian of an envelope's turn. -/
  resolution : α

namespace Settings

variable {α : Type} [Scalar α]

/-- A tenth of a second ahead, with a sweep every second and concert pitch. -/
def standard : Settings α where
  leadTime := 0.1
  sweepInterval := 1.0
  mapping := .concert
  attack := .polyline ⟨0.0, 0.0⟩ ⟨0.01, 1.0⟩ [⟨0.1, 0.8⟩]
  release := .polyline ⟨0.0, 1.0⟩ ⟨0.1, 0.0⟩ []
  resolution := 10.0

/-- The settings with another lead time. -/
def withLeadTime (settings : Settings α) (leadTime : Duration) : Settings α :=
  { settings with leadTime := leadTime.seconds }

/-- The settings with another time between sweeps. -/
def withSweepInterval (settings : Settings α) (interval : Duration) : Settings α :=
  { settings with sweepInterval := interval.seconds }

end Settings

/-- Why a note could not be scheduled. -/
inductive ScheduleError (α : Type) where
  | toneGenerator (cause : CreationFault)
  | invalidNote (cause : Note.Error α)
deriving DecidableEq, Repr

namespace ScheduleError

variable {α : Type}

/-- The wording of a scheduling error. -/
def message : ScheduleError α → String
  | toneGenerator _ => "tone generator failed to create a playable"
  | invalidNote _ => "invalid note"

/-- The wording of what is behind a scheduling error, nearest first. -/
def causes [Readout α] : ScheduleError α → List String
  | toneGenerator cause => cause.wording
  | invalidNote cause => [cause.message]

end ScheduleError

/-- A scheduler with its generator of voices and its clock. -/
structure Scheduler (γ α : Type) where
  generator : γ
  now : α
  settings : Settings α
  lanes : Lanes α := []
  timers : Timers α := {}
  /-- The ticket of the timer that each waiting note has. -/
  tickets : List (NoteId × Nat) := []
  /-- A sweep is among the timers. -/
  sweepPending : Bool := false
  nextId : Nat := 0
  journal : List Notice := []

namespace Scheduler

variable {γ α : Type}

/-- A note waits for a timer before its voice is created. -/
def isDeferred (scheduler : Scheduler γ α) (id : NoteId) : Bool :=
  scheduler.tickets.any (·.1 == id) && !scheduler.lanes.has id

/-- A note has a voice that has not started. -/
def isFuture (scheduler : Scheduler γ α) (id : NoteId) : Bool :=
  scheduler.lanes.any (·.isFuture id)

/-- A note is the one that sounds for its pitch. -/
def isActive (scheduler : Scheduler γ α) (id : NoteId) : Bool :=
  scheduler.lanes.any (·.isActive id)

/-- Nothing is waiting or sounding. -/
def isIdle (scheduler : Scheduler γ α) : Bool :=
  scheduler.lanes.isEmpty && !scheduler.timers.awaitsNote

/-- The number of timers, a pending sweep included. -/
def pendingTimers (scheduler : Scheduler γ α) : Nat :=
  scheduler.timers.count

/-- The scheduler with its clock moved. -/
def setClock (scheduler : Scheduler γ α) (now : α) : Scheduler γ α :=
  { scheduler with now }

/-- The level at which notes of full velocity are held. -/
def sustainLevel [Analytic α] (scheduler : Scheduler γ α) : α :=
  scheduler.settings.attack.lastValue

/-- Records a notice. -/
def notify (scheduler : Scheduler γ α) (notice : Notice) : Scheduler γ α :=
  { scheduler with journal := scheduler.journal ++ [notice] }

/-- Gives out a number that has not been given out before. -/
def freshId (scheduler : Scheduler γ α) : Scheduler γ α × NoteId :=
  ({ scheduler with nextId := scheduler.nextId + 1 }, ⟨scheduler.nextId⟩)

/-- Passes a command to a voice. -/
def command [ToneGenerator γ α] (scheduler : Scheduler γ α) (voice : Nat)
    (command : Command α) : Scheduler γ α :=
  let (generator, notices) := ToneGenerator.obey scheduler.generator voice command
  { scheduler with generator, journal := scheduler.journal ++ notices }

/-- Passes commands to a voice one after the other. -/
def commands [ToneGenerator γ α] (scheduler : Scheduler γ α) (voice : Nat)
    (commands : List (Command α)) : Scheduler γ α :=
  commands.foldl (fun scheduler next => scheduler.command voice next) scheduler

end Scheduler

end Melody
