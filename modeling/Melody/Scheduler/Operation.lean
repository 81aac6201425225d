import Melody.Pitch.Name
import Melody.Scheduler.Basic

/-! Scheduling, releasing and cancelling notes, and the work that timers do. -/

namespace Melody.Scheduler

variable {γ α : Type} [Analytic α] [ToneGenerator γ α]

/-- Sets a timer for a note. -/
def setTimer (scheduler : Scheduler γ α) (id : NoteId) (due : α) (action : Action α) :
    Scheduler γ α :=
  let (timers, ticket) := scheduler.timers.push due action
  -- An earlier entry of the note gives way, so the table has every note once.
  { scheduler with timers, tickets := (id, ticket) :: scheduler.tickets.filter (·.1 != id) }

/-- Forgets that a note has a timer. -/
def dropTicket (scheduler : Scheduler γ α) (id : NoteId) : Scheduler γ α :=
  { scheduler with tickets := scheduler.tickets.filter (·.1 != id) }

/-- Sets a timer for a sweep, unless one is pending. -/
def ensureSweep (scheduler : Scheduler γ α) : Scheduler γ α :=
  if scheduler.sweepPending then scheduler
  else
    let due := scheduler.now + scheduler.settings.sweepInterval
    let (timers, _) := scheduler.timers.push due .sweep
    { scheduler with timers, sweepPending := true }

/-- Fades a sounding note out from now on. -/
def fade (scheduler : Scheduler γ α) (entry : Entry α) : Scheduler γ α :=
  let level := scheduler.sustainLevel * entry.velocity
  scheduler.command entry.voice
    (.release scheduler.now (scheduler.settings.release.scaleY level))

/-- Takes back the timer of a note. -/
def dropTimer (scheduler : Scheduler γ α) (id : NoteId) : Scheduler γ α × Bool :=
  match scheduler.tickets.find? (·.1 == id) with
  | none => (scheduler, false)
  | some (_, ticket) =>
    let unset : Scheduler γ α := { scheduler with timers := scheduler.timers.remove ticket }
    (unset.dropTicket id, true)

/-- Destroys the voice of a note. -/
def dropVoice (scheduler : Scheduler γ α) (id : NoteId) : Scheduler γ α × Bool :=
  match scheduler.lanes.take? id with
  | none => (scheduler, false)
  | some (entry, lanes) =>
    (({ scheduler with lanes } : Scheduler γ α).command entry.voice .destroy, true)

/-- Drops whatever is held for a note and tells whether there was anything. -/
def cancel (scheduler : Scheduler γ α) (id : NoteId) : Scheduler γ α × Bool :=
  let (scheduler, waiting) := scheduler.dropTimer id
  let (scheduler, voiced) := scheduler.dropVoice id
  (scheduler, waiting || voiced)

/-- Drops every note and destroys all voices. -/
def cancelAll (scheduler : Scheduler γ α) : Scheduler γ α :=
  let entries := scheduler.lanes.flatMap Lane.entries
  -- The tables are emptied before the voices are told, and a pending sweep stays.
  let cleared : Scheduler γ α :=
    { scheduler with timers := scheduler.timers.dropNotes, tickets := [], lanes := [] }
  entries.foldl (fun scheduler entry => scheduler.command entry.voice .destroy) cleared

/-- The notice that a sum has left its machine word. -/
def overflow : Notice :=
  ⟨.fatal, "attempt to add with overflow"⟩

/-- Leaves a notice if counting the points of the attack for a velocity ends the program. -/
def checkCount (scheduler : Scheduler γ α) (velocity : α) : Scheduler γ α :=
  let attack := scheduler.settings.attack.scaleY velocity
  if attack.isCountable scheduler.settings.resolution then scheduler
  else scheduler.notify overflow

variable [Readout α]

/-- The notice that a note is cut short by another one of its pitch. -/
def cutShort (previous : NoteId) (pitch : Pitch) (next : NoteId) : Notice :=
  ⟨.warning, "note " ++ previous.text ++ " of pitch " ++ pitch.name ++
    " still sounding, releasing it for note " ++ next.text⟩

/-- Lets a prepared note sound and fades out the one that sounded before. -/
def promote (scheduler : Scheduler γ α) (pitch : Pitch) (id : NoteId) : Scheduler γ α :=
  match (scheduler.lanes.find? pitch).bind (·.takeFuture? id) with
  | none => scheduler
  | some (entry, lane) =>
    let lanes := scheduler.lanes.update pitch fun _ => { lane with active := some entry }
    let started := { scheduler with lanes }
    match lane.active with
    | none => started
    | some previous =>
      -- Only a note that would sound on is cut short.
      if previous.finish.isAfter scheduler.now then
        (started.notify (cutShort previous.id pitch id)).fade previous
      else started

/-- The commands that play a note from its attack up to its release. -/
def script (settings : Settings α) (sustain start : α) (finish : Ending α) (velocity : α) :
    List (Command α) :=
  let attack := (settings.attack.scaleY velocity).events (.startingAt start) settings.resolution
  let release := finish.finite?.map fun time =>
    .release time (settings.release.scaleY (velocity * sustain))
  attack.map .gain ++ release.toList

/-- Creates the voice of a note and lets it sound at its start. -/
def prepare (scheduler : Scheduler γ α) (id : NoteId) (pitch : Pitch) (start : α)
    (finish : Ending α) (velocity pan : α) : Scheduler γ α × Except (ScheduleError α) Unit :=
  -- A note that should have started by now starts now.
  let start := Scalar.larger start scheduler.now
  let tone : Tone α :=
    { frequency := scheduler.settings.mapping.frequency pitch, start, finish, velocity, pan }
  match ToneGenerator.create scheduler.generator tone with
  | (generator, .error cause) => ({ scheduler with generator }, .error (.toneGenerator cause))
  | (generator, .ok voice) =>
    let counted := ({ scheduler with generator } : Scheduler γ α).checkCount velocity
    let part := script scheduler.settings scheduler.sustainLevel start finish velocity
    let playing := counted.commands voice part
    -- The voice has got its whole part before its entry joins a lane.
    let entry : Entry α := ⟨id, voice, start, finish, velocity⟩
    let lanes := playing.lanes.update pitch fun lane =>
      { lane with future := lane.future ++ [entry] }
    let entered := { playing with lanes }
    let arranged :=
      -- A note that starts now has the seat at once, any other one waits for its timer.
      if start ≤ scheduler.now then entered.promote pitch id
      else entered.setTimer id start (.promote id pitch)
    (arranged.ensureSweep, .ok ())

/-- Schedules a note under a number, or leaves it if it has already ended. -/
def place (scheduler : Scheduler γ α) (id : NoteId) (note : Note α) :
    Scheduler γ α × Except (ScheduleError α) (Option NoteId) :=
  if note.finish < scheduler.now then (scheduler, .ok none)
  else if scheduler.now + 2.0 * scheduler.settings.leadTime < note.start then
    -- The note is looked at again when only the lead time is left.
    let due := note.start - scheduler.settings.leadTime
    (scheduler.setTimer id due (.reschedule id note), .ok (some id))
  else
    let (scheduler, outcome) :=
      scheduler.prepare id note.pitch note.start (.at note.finish) note.velocity note.pan
    (scheduler, outcome.map fun _ => some id)

/-- Schedules a note, which takes the place of whatever is held under a number that is given. -/
def schedule (scheduler : Scheduler γ α) (note : Note α) (id? : Option NoteId) :
    Scheduler γ α × Except (ScheduleError α) (Option NoteId) :=
  match id? with
  -- What was held goes even if the new note is over or has no voice to get.
  | some id => (scheduler.cancel id).1.place id note
  | none =>
    let (scheduler, id) := scheduler.freshId
    scheduler.place id note

/-- Sounds a pitch from now until it is released. -/
def playPitch (scheduler : Scheduler γ α) (pitch : Pitch) (velocity : α) :
    Scheduler γ α × Except (ScheduleError α) NoteId :=
  match Note.checkVelocity velocity with
  | .error cause => (scheduler, .error (.invalidNote cause))
  | .ok () =>
    let (scheduler, id) := scheduler.freshId
    let (scheduler, outcome) := scheduler.prepare id pitch scheduler.now .never velocity 0.0
    (scheduler, outcome.map fun _ => id)

/-- Fades out the note of a lane that sounds beyond now, and tells whether there was one. -/
def releaseLane (scheduler : Scheduler γ α) (lane : Lane α) : Scheduler γ α × Bool :=
  match lane.active with
  | none => (scheduler, false)
  | some entry =>
    if entry.finish.isAfter scheduler.now then
      -- The entry keeps its seat until a sweep finds that it has ended.
      let ended := { entry with finish := .at scheduler.now }
      let lanes := scheduler.lanes.update lane.pitch fun lane => { lane with active := some ended }
      (({ scheduler with lanes } : Scheduler γ α).fade entry, true)
    else (scheduler, false)

/-- Fades out the note that sounds for a pitch, and tells whether there was one. -/
def releasePitch (scheduler : Scheduler γ α) (pitch : Pitch) : Scheduler γ α × Bool :=
  match scheduler.lanes.find? pitch with
  | none => (scheduler, false)
  | some lane => scheduler.releaseLane lane

/-- Fades out every note that sounds. -/
def releaseAll (scheduler : Scheduler γ α) : Scheduler γ α :=
  scheduler.lanes.foldl (fun scheduler lane => (scheduler.releaseLane lane).1) scheduler

/-- Forgets the notes that have ended. -/
def sweep (scheduler : Scheduler γ α) : Scheduler γ α :=
  let lanes := scheduler.lanes.expire scheduler.now
  let swept : Scheduler γ α := { scheduler with lanes, sweepPending := false }
  -- Sweeps go on as long as there is a voice or a note that waits.
  if swept.isIdle then swept else swept.ensureSweep

/-- Does the work of a timer that has been taken out. -/
def fire (scheduler : Scheduler γ α) (action : Action α) :
    Scheduler γ α × Except (ScheduleError α) Unit :=
  match action with
  | .reschedule id note =>
    -- The timer is gone already, so only the entry of the note is dropped.
    let (scheduler, outcome) := (scheduler.dropTicket id).schedule note (some id)
    (scheduler, outcome.map fun _ => ())
  | .promote id pitch => ((scheduler.dropTicket id).promote pitch id, .ok ())
  | .sweep => (scheduler.sweep, .ok ())

/-- Fires due timers set before a ticket, at most a given number of them and up to an error. -/
def fireDue (scheduler : Scheduler γ α) (horizon : Nat) :
    Nat → Scheduler γ α × Except (ScheduleError α) Unit
  | 0 => (scheduler, .ok ())
  | rounds + 1 =>
    match scheduler.timers.popDue? scheduler.now horizon with
    | none => (scheduler, .ok ())
    | some (action, timers) =>
      match ({ scheduler with timers } : Scheduler γ α).fire action with
      -- The timers behind a failed one stay for the next call.
      | (scheduler, .error error) => (scheduler, .error error)
      | (scheduler, .ok ()) => scheduler.fireDue horizon rounds

/-- Fires every due timer in order, those that are set meanwhile excepted. -/
def advance (scheduler : Scheduler γ α) : Scheduler γ α × Except (ScheduleError α) Unit :=
  -- No more timers can fire than are pending.
  scheduler.fireDue scheduler.timers.tickets scheduler.timers.count

/-- The scheduler in short. -/
def summary (scheduler : Scheduler γ α) : String :=
  "Scheduler \x7b lead_time: " ++ Readout.pointed scheduler.settings.leadTime ++
    ", sweep_interval: " ++ Readout.pointed scheduler.settings.sweepInterval ++
    ", pitches: " ++ toString scheduler.lanes.length ++
    ", timers: " ++ toString scheduler.pendingTimers ++ " \x7d"

end Melody.Scheduler
