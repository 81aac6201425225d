import Melody.Playback
import Melody.Proofs.Scheduler.Steps

/-! Runs of a playback, with the effects that each step has, are made of moves of its scheduler. -/

namespace Melody

namespace Scheduler

variable {γ α : Type} [Analytic α] [ToneGenerator γ α]

/-- The effects of scheduling notes one after the other up to an error. -/
def scheduleNotesEffects (scheduler : Scheduler γ α) : List (Note α) → List (Effect α)
  | [] => []
  | note :: later =>
    scheduler.effects (.schedule note none) ++
      match scheduler.schedule note none with
      | (_, .error _) => []
      | (next, .ok _) => next.scheduleNotesEffects later

/-- Scheduling notes one after the other is made of moves. -/
theorem Coherent.scheduleNotes_moves {scheduler : Scheduler γ α}
    (coherent : Coherent .free scheduler) (notes : List (Note α)) :
    Moves .free scheduler (scheduler.scheduleNotesEffects notes)
      (scheduler.scheduleNotes notes).1 := by
  -- Each note is scheduled in the state that the one before it leaves, up to the first error.
  induction notes generalizing scheduler with
  | nil => exact .done
  | cons note later ih =>
    have moves : Moves .free scheduler (scheduler.effects (.schedule note none))
        (scheduler.schedule note none).1 := coherent.perform_moves (obeys_free trivial)
    rw [scheduleNotes, scheduleNotesEffects]
    cases scheduled : scheduler.schedule note none with
    | mk next outcome =>
      rw [scheduled] at moves
      cases outcome with
      | error cause => simpa using moves
      | ok _ => exact moves.trans (ih (moves.coherent coherent))

end Scheduler

/-- A step of a playback: the time of its clock and the time up to which notes are handed over. -/
structure Tick (α : Type) where
  now : α
  limit : α
deriving DecidableEq, Repr

namespace Playback

variable {γ α : Type} [Analytic α]

/-- The notes that are handed over up to a time, in seconds. -/
def chosen (playback : Playback γ α) (limit : α) : List (Note α) :=
  let window : Window α := ⟨playback.cursor, some limit⟩
  let beats := window.toBeats playback.tempo
  (playback.group.notes.filter fun note => beats.contains note.start).map
    playback.tempo.noteToAbsolute

variable [ToneGenerator γ α]

/-- The effects of handing over notes and firing due timers. -/
def handOverEffects (playback : Playback γ α) (limit : α) : List (Effect α) :=
  let notes := playback.chosen limit
  playback.scheduler.scheduleNotesEffects notes ++
    match playback.scheduler.scheduleNotes notes with
    | (_, .error _) => []
    | (scheduler, .ok _) => scheduler.effects .advance

/-- The effects of moving a playback up to a time. -/
def scheduleUntilEffects (playback : Playback γ α) (limit : α) : List (Effect α) :=
  playback.handOverEffects limit ++
    match playback.handOver limit with
    -- Every note is dropped after an error.
    | (scheduler, .error _) => scheduler.effects .cancelAll
    | (_, .ok _) => []

/-- The playback after one step, with its outcome. -/
def step (playback : Playback γ α) (tick : Tick α) :
    Playback γ α × Except (ScheduleError α) Unit :=
  (playback.setClock tick.now).scheduleUntil tick.limit

/-- The effects of one step. -/
def effects (playback : Playback γ α) (tick : Tick α) : List (Effect α) :=
  (playback.setClock tick.now).scheduleUntilEffects tick.limit

/-- The playback after steps in their order. -/
def run (playback : Playback γ α) (ticks : List (Tick α)) : Playback γ α :=
  ticks.foldl (fun playback tick => (playback.step tick).1) playback

/-- The effects of steps in their order. -/
def history (playback : Playback γ α) : List (Tick α) → List (Effect α)
  | [] => []
  | tick :: later => playback.effects tick ++ (playback.step tick).1.history later

/-- A playback hands over the notes that are chosen, and fires due timers if none of them fails. -/
theorem handOver_eq (playback : Playback γ α) (limit : α) :
    playback.handOver limit =
      match playback.scheduler.scheduleNotes (playback.chosen limit) with
      | (scheduler, .error error) => (scheduler, .error error)
      | (scheduler, .ok _) => scheduler.advance :=
  rfl

section Moving

open Scheduler

variable {playback : Playback γ α}

/-- Handing over notes and firing due timers is made of moves. -/
theorem handOver_moves (coherent : Coherent .free playback.scheduler) (limit : α) :
    Moves .free playback.scheduler (playback.handOverEffects limit)
      (playback.handOver limit).1 := by
  -- Timers are fired only if every note has been handed over.
  have moves := coherent.scheduleNotes_moves (playback.chosen limit)
  rw [handOver_eq, handOverEffects]
  cases handed : playback.scheduler.scheduleNotes (playback.chosen limit) with
  | mk next outcome =>
    rw [handed] at moves
    cases outcome with
    | error cause => simpa [handed] using moves
    | ok _ => exact moves.trans ((moves.coherent coherent).fireDue_moves _ _)

/-- A step of a playback is made of moves of its scheduler, also when it fails. -/
theorem step_moves (coherent : Coherent .free playback.scheduler) (tick : Tick α) :
    Moves .free playback.scheduler (playback.effects tick) (playback.step tick).1.scheduler := by
  have set : Move .free playback.scheduler [] (playback.setClock tick.now).scheduler :=
    .clock trivial
  have moves := handOver_moves (coherent.of_move set) tick.limit
  have handed := Moves.step set moves
  rw [Playback.effects, Playback.step, scheduleUntilEffects, scheduleUntil]
  cases outcome : (playback.setClock tick.now).handOver tick.limit with
  | mk next result =>
    rw [outcome] at handed
    cases result with
    | ok _ => simpa using handed
    | error cause =>
      -- The notice of the failure is one more line of the journal.
      obtain ⟨journal, cleared⟩ := (next.notify (stopping cause)).cancelAll_eq
      have clear : Move .free next next.cancelAllEffects
          (next.notify (stopping cause)).cancelAll := by
        rw [cleared]
        exact .clear
      exact handed.trans (.single clear)

/-- Steps of a playback are made of moves of its scheduler. -/
theorem run_moves (coherent : Coherent .free playback.scheduler) (ticks : List (Tick α)) :
    Moves .free playback.scheduler (playback.history ticks) (playback.run ticks).scheduler := by
  induction ticks generalizing playback with
  | nil => exact .done
  | cons tick later ih =>
    have moves := step_moves coherent tick
    exact moves.trans (ih (moves.coherent coherent))

end Moving

end Playback

end Melody
