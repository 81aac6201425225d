import Melody.Scheduler.Window

/-! A group played through a scheduler, window by window. -/

namespace Melody

/-- A group with the scheduler that plays it and the time up to which it has been handed over. -/
structure Playback (γ α : Type) where
  scheduler : Scheduler γ α
  group : Group α
  tempo : Tempo α
  cursor : Option α := none

namespace Playback

variable {γ α : Type} [Analytic α]

/-- The playback with its clock moved. -/
def setClock (playback : Playback γ α) (now : α) : Playback γ α :=
  { playback with scheduler := playback.scheduler.setClock now }

/-- Every note has been handed over and nothing is waiting or sounding. -/
def isFinished (playback : Playback γ α) : Bool :=
  match playback.group.finish? with
  | none => true
  | some finish =>
    (playback.cursor.any fun cursor => decide (playback.tempo.toAbsolute finish ≤ cursor)) &&
      playback.scheduler.isIdle

variable [ToneGenerator γ α] [Readout α]

/-- The notice that a playback has failed. -/
def stopping (error : ScheduleError α) : Notice :=
  ⟨.error, "stopping playback: " ++ error.message⟩

/-- Hands over the notes that were not handed over before, up to a time, and fires due timers. -/
def handOver (playback : Playback γ α) (limit : α) :
    Scheduler γ α × Except (ScheduleError α) Unit :=
  -- The window starts where the one before it ended.
  let window : Window α := ⟨playback.cursor, some limit⟩
  match playback.scheduler.scheduleGroup playback.group playback.tempo window with
  | (scheduler, .error error) => (scheduler, .error error)
  | (scheduler, .ok _) => scheduler.advance

/-- Moves the playback up to a time, or cancels every note on an error. -/
def scheduleUntil (playback : Playback γ α) (limit : α) :
    Playback γ α × Except (ScheduleError α) Unit :=
  match playback.handOver limit with
  | (scheduler, .error error) =>
    -- The cursor stays where it was, although all that was handed over is dropped.
    ({ playback with scheduler := (scheduler.notify (stopping error)).cancelAll }, .error error)
  | (scheduler, .ok ()) => ({ playback with scheduler, cursor := some limit }, .ok ())

end Playback

end Melody
