import Melody.Playback

/-! A playback run in real time, one tick after the other. -/

namespace Melody

/-- The times of the ticks of a run, counted from the epoch of its clock. -/
structure Pulse where
  start : Duration
  tick : Duration
deriving DecidableEq, Repr

namespace Pulse

/-- The time of a tick. -/
def time {α : Type} [Scalar α] (pulse : Pulse) (index : Nat) : α :=
  (⟨pulse.start.nanoseconds + index * pulse.tick.nanoseconds⟩ : Duration).seconds

end Pulse

/-- Why a run broke off. -/
inductive PerformanceError (α : Type) where
  /-- The clock caught up with the ticks. -/
  | fellBehind
  | playback (cause : ScheduleError α)
deriving DecidableEq, Repr

namespace PerformanceError

variable {α : Type}

/-- The wording of the error of a run. -/
def message : PerformanceError α → String
  | fellBehind => "playback fell behind the wall clock"
  | playback _ => "playback failed"

/-- The wording of what is behind the error of a run, nearest first. -/
def causes [Readout α] : PerformanceError α → List String
  | fellBehind => ["second time provided was later than self"]
  | playback cause => cause.message :: cause.causes

end PerformanceError

namespace Playback

variable {γ α : Type} [Analytic α] [ToneGenerator γ α] [Readout α]

/-- Plays one tick: notes are handed over up to the time of the next one. -/
def playTick (playback : Playback γ α) (pulse : Pulse) (index : Nat) :
    Playback γ α × Except (ScheduleError α) Unit :=
  let now : α := pulse.time index
  (playback.setClock now).scheduleUntil (now + pulse.tick.seconds)

/-- Plays at most a number of ticks from a given one on, until the end, a stop or an error. -/
def playFrom (playback : Playback γ α) (pulse : Pulse) (stops : Playback γ α → Bool)
    (index : Nat) : Nat → Playback γ α × Except (PerformanceError α) Unit
  | 0 => (playback, .ok ())
  | ticks + 1 =>
    if stops playback then (playback, .ok ())
    else match playback.playTick pulse index with
      | (playback, .error cause) => (playback, .error (.playback cause))
      | (playback, .ok ()) =>
        if playback.isFinished then (playback, .ok ())
        -- Without time between ticks the clock cannot stay behind them.
        else if pulse.tick.nanoseconds = 0 then (playback, .error .fellBehind)
        else playback.playFrom pulse stops (index + 1) ticks

/-- Plays from the first tick on until the end, a stop or an error. -/
def play (playback : Playback γ α) (pulse : Pulse) (stops : Playback γ α → Bool) (ticks : Nat) :
    Playback γ α × Except (PerformanceError α) Unit :=
  playback.playFrom pulse stops 0 ticks

end Playback

end Melody
