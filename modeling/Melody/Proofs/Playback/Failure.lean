import Melody.Binary64
import Melody.Proofs.Playback.Trace
import Melody.Proofs.Scheduler.Departures
import Melody.Proofs.Scheduler.Silence

/-! A step of a playback that fails leaves no voice and no timer of a note behind. -/

namespace Melody

namespace Scheduler

variable {γ α : Type} [Analytic α] [ToneGenerator γ α] {scheduler : Scheduler γ α}

/-- The voices that make way for notes that are scheduled one after the other up to an error. -/
def scheduleNotesDepartures (scheduler : Scheduler γ α) : List (Note α) → List Nat
  | [] => []
  | note :: later =>
    scheduler.scheduleDepartures note none ++
      match scheduler.schedule note none with
      | (_, .error _) => []
      | (next, .ok _) => next.scheduleNotesDepartures later

/-- Notes that are scheduled one after the other are accounted for, also when one of them fails. -/
theorem scheduleNotes_custody (regular : scheduler.lanes.Regular) (notes : List (Note α)) :
    Custody scheduler (scheduler.scheduleNotesEffects notes)
      (scheduler.scheduleNotesDepartures notes) (scheduler.scheduleNotes notes).1 := by
  -- The notes before one that fails keep what they were given, and those after it get nothing.
  induction notes generalizing scheduler with
  | nil => exact .still regular rfl rfl
  | cons note later ih =>
    have first := schedule_custody regular note none
    rw [scheduleNotes, scheduleNotesEffects, scheduleNotesDepartures]
    cases scheduled : scheduler.schedule note none with
    | mk next outcome =>
      rw [scheduled] at first
      cases outcome with
      | error cause => simpa [effects] using first
      | ok _ => exact first.trans (ih first.regular)

end Scheduler

namespace Playback

open Scheduler

section Departing

variable {γ α : Type} [Analytic α] [ToneGenerator γ α] {playback : Playback γ α}

/-- The voices that leave by a promotion or a sweep while a playback moves up to a time. -/
def departures (playback : Playback γ α) (limit : α) : List Nat :=
  let notes := playback.chosen limit
  playback.scheduler.scheduleNotesDepartures notes ++
    match playback.scheduler.scheduleNotes notes with
    | (_, .error _) => []
    | (scheduler, .ok _) =>
      scheduler.fireDueDepartures scheduler.timers.tickets scheduler.timers.count

/-- Handing over notes and firing due timers is accounted for. -/
theorem handOver_custody (regular : playback.scheduler.lanes.Regular) (limit : α) :
    Custody playback.scheduler (playback.handOverEffects limit) (playback.departures limit)
      (playback.handOver limit).1 := by
  -- Timers are fired only if every note has been handed over.
  have first := scheduleNotes_custody regular (playback.chosen limit)
  rw [handOver_eq, handOverEffects, departures]
  cases handed : playback.scheduler.scheduleNotes (playback.chosen limit) with
  | mk next outcome =>
    rw [handed] at first
    cases outcome with
    | error cause => simpa [handed] using first
    | ok _ => exact first.trans (fireDue_custody first.regular _ _)

/-- The notice of a failure does not touch voices, and all that are left are destroyed. -/
theorem scheduleUntil_custody (regular : playback.scheduler.lanes.Regular) (limit : α) :
    Custody playback.scheduler (playback.scheduleUntilEffects limit) (playback.departures limit)
      (playback.scheduleUntil limit).1.scheduler := by
  have handed := handOver_custody regular limit
  rw [scheduleUntilEffects, scheduleUntil]
  cases outcome : playback.handOver limit with
  | mk next result =>
    rw [outcome] at handed
    cases result with
    | ok _ => simpa using handed
    | error cause =>
      -- The cancelling comes after all that has been done up to the error, as part of the step.
      have noted : Custody playback.scheduler (playback.handOverEffects limit)
          (playback.departures limit) (next.notify (stopping cause)) := handed.and_still rfl rfl
      have whole := noted.trans (cancelAll_custody (next.notify (stopping cause)))
      rw [List.append_nil] at whole
      exact whole

/-- A step that fails cancels every note and does nothing else to the playback. -/
theorem scheduleUntil_failed {limit : α} {error : ScheduleError α}
    (failed : (playback.scheduleUntil limit).2 = .error error) :
    ∃ last : Scheduler γ α,
      (playback.scheduleUntil limit).1 = { playback with scheduler := last.cancelAll } := by
  -- Only a handing over that fails makes the call fail, and then all is cancelled.
  unfold scheduleUntil at failed ⊢
  cases outcome : playback.handOver limit with
  | mk next result =>
    rw [outcome] at failed
    cases result with
    | ok _ => cases failed
    | error cause => exact ⟨next.notify (stopping cause), rfl⟩

end Departing

variable {α : Type} [Analytic α]

/-- The playbacks that can be set up and moved, with a scheduler that is used in any way before. -/
inductive Reachable : Playback (Recorder α) α → Prop
  /-- A playback has a scheduler that has been asked for nothing yet. -/
  | new (admits : Nat → Bool) (now : α) (settings : Settings α) (group : Group α)
      (tempo : Tempo α) :
      Reachable { scheduler := .new { admits } now settings, group, tempo }
  /-- Its scheduler is taken back, set up anew and used before it plays another group. -/
  | reuse {playback : Playback (Recorder α) α} (reachable : Reachable playback)
      (settings : Settings α) (requests : List (Request α)) (group : Group α) (tempo : Tempo α) :
      Reachable
        { scheduler := { playback.scheduler with settings }.run requests, group, tempo }
  | setTempo {playback : Playback (Recorder α) α} (reachable : Reachable playback)
      (tempo : Tempo α) : Reachable { playback with tempo }
  | setClock {playback : Playback (Recorder α) α} (reachable : Reachable playback) (now : α) :
      Reachable (playback.setClock now)
  | scheduleUntil {playback : Playback (Recorder α) α} (reachable : Reachable playback)
      (limit : α) : Reachable (playback.scheduleUntil limit).1

/-- No voice of a playback is held twice, nor held after it has been destroyed. -/
theorem Reachable.minded {playback : Playback (Recorder α) α} (reachable : Reachable playback) :
    playback.scheduler.Minded := by
  induction reachable with
  | new admits now settings group tempo => exact .initial admits now settings
  | @reuse playback _ settings requests group tempo ih =>
    -- Voices are minded under any settings.
    have configured : Minded { playback.scheduler with settings } := ⟨ih.regular, ih.once⟩
    exact configured.run requests
  | setTempo _ _ ih => exact ih
  | setClock _ _ ih => exact ⟨ih.regular, ih.once⟩
  | scheduleUntil _ limit ih => exact ih.custody (scheduleUntil_custody ih.regular limit)

/-- What a step that has failed leaves behind. -/
structure CleansUp (playback : Playback (Recorder α) α) (limit : α) : Prop where
  /-- No note has an entry or a timer. -/
  idle : (playback.scheduleUntil limit).1.scheduler.isIdle = true
  silent : (playback.scheduleUntil limit).1.scheduler.Silent
  /-- The generator is told the effects of the step and nothing else. -/
  told : (playback.scheduleUntil limit).1.scheduler.generator =
    hear playback.scheduler.generator (playback.scheduleUntilEffects limit)
  /-- Every voice that was held or has been created is destroyed once unless it had left before. -/
  destroyed : ∀ voice ∈ playback.scheduler.voices ++
      (playback.scheduleUntilEffects limit).filterMap Effect.given?,
    (playback.scheduleUntil limit).1.scheduler.generator.destroyCount voice =
      if voice ∈ playback.departures limit then 0 else 1
  /-- No request is heard before a note is scheduled or a pitch sounded. -/
  quiet : ∀ requests : List (Request α), (∀ request ∈ requests, request.begins = false) →
    ((playback.scheduleUntil limit).1.scheduler.run requests).generator =
      (playback.scheduleUntil limit).1.scheduler.generator
  cursor : (playback.scheduleUntil limit).1.cursor = playback.cursor

/-- A step that has failed leaves no voice and no timer of a note behind, and the cursor alone. -/
theorem Reachable.cleansUp {playback : Playback (Recorder α) α} (reachable : Reachable playback)
    {limit : α} {error : ScheduleError α}
    (failed : (playback.scheduleUntil limit).2 = .error error) : playback.CleansUp limit := by
  -- The account of the step ends with no voice held, so all but the departed are destroyed.
  have minded := reachable.minded
  have custody := scheduleUntil_custody minded.regular limit
  obtain ⟨last, same⟩ := scheduleUntil_failed failed
  rw [same] at custody
  -- Whatever state the failure has been met in, every note is cancelled in it.
  have silent := last.silent_cancelAll
  have bare : last.cancelAll.voices = [] := by
    rw [voices, silent.lanes]
    rfl
  refine ⟨?_, ?_, ?_, ?_, ?_, ?_⟩ <;> rw [same]
  · exact silent.isIdle
  · exact silent
  · exact custody.heard
  · exact fun voice known => minded.destroyCount_eq custody bare known
  · exact fun requests quiet => (silent.run quiet).generator

/-- A playback of a note that sounds and of one that is put off, with one voice to give. -/
def sparing : Playback (Recorder Float) Float where
  scheduler := .new { admits := fun attempt => attempt != 1 } 0.0 .standard
  group := ⟨[⟨⟨60⟩, 0.0, 4.0, 1.0, 0.0⟩, ⟨⟨64⟩, 2.5, 1.0, 1.0, 0.0⟩], {}⟩
  tempo := .standard

/-- The note that was put off is refused its voice in advance, and the other one is silenced. -/
theorem cleansUp_sparing :
    (((sparing.scheduleUntil 10.0).1.setClock 4.95).scheduleUntil 10.0).2 =
        .error (.toneGenerator .exhausted) ∧
      ((sparing.scheduleUntil 10.0).1.setClock 4.95).CleansUp 10.0 := by
  have failed : (((sparing.scheduleUntil 10.0).1.setClock 4.95).scheduleUntil 10.0).2 =
      .error (.toneGenerator .exhausted) := by decide +kernel
  have start : Reachable sparing := .new _ _ _ _ _
  exact ⟨failed, Reachable.cleansUp ((start.scheduleUntil 10.0).setClock 4.95) failed⟩

end Playback

end Melody
