import Melody.Proofs.Scheduler.Commands
import Melody.Proofs.Scheduler.Departures

/-! Every request continues the commands of each voice as it should, whatever generator gives the
voices and whatever numbers come with the requests. -/

namespace Melody.Scheduler

variable {γ α : Type} [Analytic α]

/-- What a record has of the voices of entries is continued as it should be by the effects of a
stretch, for every recorder that grants the voices that the stretch has got. -/
structure Conducts (scheduler : Scheduler γ α) (effects : List (Effect α))
    (next : Scheduler γ α) : Prop where
  settings : next.settings = scheduler.settings
  onward : ∀ {recorder : Recorder α}, Granted recorder effects →
    Conducted scheduler.settings recorder scheduler.entries →
    Conducted scheduler.settings (hear recorder effects) next.entries

namespace Conducts

variable {scheduler next last : Scheduler γ α} {effects later : List (Effect α)}

/-- Nothing is told where lanes and settings are left alone. -/
theorem still (lanes : next.lanes = scheduler.lanes)
    (settings : next.settings = scheduler.settings) : Conducts scheduler [] next where
  settings := settings
  onward _ conducted := by
    have same : next.entries = scheduler.entries := by rw [entries, entries, slots, slots, lanes]
    rw [same]
    exact conducted

/-- That a timer is taken out does not touch voices. -/
theorem taken (scheduler : Scheduler γ α) (timer : Timer α) (timers : Timers α) :
    Conducts scheduler [.fired timer] { scheduler with timers } where
  settings := rfl
  onward _ conducted := conducted

/-- A stretch may be followed by another one. -/
theorem trans (first : Conducts scheduler effects next) (second : Conducts next later last) :
    Conducts scheduler (effects ++ later) last where
  settings := second.settings.trans first.settings
  -- Both parts are granted, so each of them is conducted in its turn.
  onward granted conducted := by
    obtain ⟨early, late⟩ := granted_append.mp granted
    have middle := first.onward early conducted
    rw [← first.settings] at middle ⊢
    rw [hear_append]
    exact second.onward late middle

/-- What leaves lanes and settings alone may follow. -/
theorem and_still (first : Conducts scheduler effects next) (lanes : last.lanes = next.lanes)
    (settings : last.settings = next.settings) : Conducts scheduler effects last := by
  simpa using first.trans (still lanes settings)

variable [ToneGenerator γ α] [Std.Commutative (fun x y : α => x * y)]

/-- Effects that hand over voices are told as they should be. -/
theorem told {lanes : Lanes α} {journal : List Notice}
    (handed : ∀ {recorder : Recorder α}, Granted recorder effects →
      Handovers .free scheduler.settings scheduler.now (recorder, scheduler.entries)
        (hear recorder effects, lanes.slots.map Slot.entry)) :
    Conducts scheduler effects (scheduler.told effects lanes journal) where
  settings := rfl
  onward granted conducted := conducted.handovers (handed granted)

end Conducts

variable [ToneGenerator γ α] [Std.Commutative (fun x y : α => x * y)] {scheduler : Scheduler γ α}

/-- Cancelling a note tells the voice that it has to stop. -/
theorem cancel_conducts (regular : scheduler.lanes.Regular) (id : NoteId) :
    Conducts scheduler (scheduler.cancelEffects id) (scheduler.cancel id).1 := by
  obtain ⟨lanes, _⟩ := dropTimer_still scheduler id
  have unset : Conducts scheduler [] (scheduler.dropTimer id).1 := by
    refine .still lanes ?_
    unfold dropTimer
    split <;> rfl
  simp only [cancel, dropVoice, cancelEffects, lanes]
  -- Unsetting a timer is not heard, and neither is a note without a voice.
  cases taken : scheduler.lanes.take? id with
  | none => exact unset
  | some pair =>
    obtain ⟨entry, rest⟩ := pair
    obtain ⟨_, filled, pitch, sounding, slots⟩ := Lanes.take?_spec regular taken
    refine unset.trans (.told fun _ => ?_)
    have same : (scheduler.dropTimer id).1.entries = scheduler.entries := by
      rw [entries, entries, Scheduler.slots, Scheduler.slots, lanes]
    rw [same]
    exact .withdrawn id (slots.map Slot.entry)

/-- Cancelling every note tells every voice to stop. -/
theorem cancelAll_conducts (scheduler : Scheduler γ α) :
    Conducts scheduler scheduler.cancelAllEffects scheduler.cancelAll := by
  obtain ⟨journal, cleared⟩ := scheduler.cancelAll_eq
  have told : Conducts scheduler scheduler.cancelAllEffects
      (scheduler.told scheduler.cancelAllEffects [] journal) := .told fun _ => .cleared
  rw [cleared]
  exact told.and_still rfl rfl

/-- Fading out a lane releases the voice of its note. -/
theorem releaseLane_conducts (regular : scheduler.lanes.Regular) {lane : Lane α}
    (member : lane ∈ scheduler.lanes) :
    Conducts scheduler (scheduler.releaseLaneEffects lane) (scheduler.releaseLane lane).1 := by
  rcases releaseLane_spec regular member with
    ⟨same, silent⟩ | ⟨entry, rest, lanes, journal, filled, sounds, before, after, effects, told⟩
  · -- A lane whose note is over is left as it is.
    rw [same, silent]
    exact .still rfl rfl
  · rw [effects, told]
    exact .told fun _ => .faded sounds (before.map Slot.entry) (after.map Slot.entry)

/-- Fading out the note of a pitch releases its voice. -/
theorem releasePitch_conducts (regular : scheduler.lanes.Regular) (pitch : Pitch) :
    Conducts scheduler (scheduler.releasePitchEffects pitch) (scheduler.releasePitch pitch).1 := by
  unfold releasePitch releasePitchEffects
  cases found : scheduler.lanes.find? pitch with
  | none => exact .still rfl rfl
  | some lane => simpa using releaseLane_conducts regular (List.mem_of_find?_eq_some found)

/-- Fading out every note releases their voices. -/
theorem releaseAll_conducts (regular : scheduler.lanes.Regular) :
    Conducts scheduler scheduler.releaseAllEffects scheduler.releaseAll :=
  releaseAll_induction (motive := (Conducts scheduler · ·)) regular (.still rfl rfl)
    fun _ conducts still member => conducts.trans (releaseLane_conducts still member)

/-- A prepared note that comes to sound has the voice of the one before released. -/
theorem promote_conducts (regular : scheduler.lanes.Regular) (pitch : Pitch) (id : NoteId) :
    Conducts scheduler (scheduler.promoteEffects pitch id) (scheduler.promote pitch id) := by
  cases taken : (scheduler.lanes.find? pitch).bind (·.takeFuture? id) with
  | none =>
    -- A note that is not found changes nothing.
    simp only [promoteEffects, promote, taken]
    exact .still rfl rfl
  | some pair =>
    obtain ⟨entry, lane⟩ := pair
    obtain ⟨rest, lanes, journal, _, _, before, after, promoted⟩ := promote_taken regular taken
    rw [promoted]
    simp only [promoteEffects, taken, Option.toList_some, List.flatMap_cons, List.flatMap_nil,
      List.append_nil]
    have seated : scheduler.entries.Perm
        (entry :: (lane.active.toList ++ rest.map Slot.entry)) := by
      simpa [entries, Function.comp_def] using before.map Slot.entry
    exact .told fun _ => .seated _ seated (after.map Slot.entry)

omit [ToneGenerator γ α] in
/-- A sweep tells no voice anything. -/
theorem sweep_conducts (scheduler : Scheduler γ α) : Conducts scheduler [] scheduler.sweep := by
  -- What has ended is forgotten first; a sweep that may be pushed then changes no lane.
  have swept : Conducts scheduler [] scheduler.swept :=
    ⟨rfl, fun _ conducted => conducted.handovers (.swept : Handovers .free ..)⟩
  rcases sweep_cases scheduler with same | same
  · rw [same]
    exact swept
  · rw [same]
    exact swept.and_still (ensureSweep_lanes _) (ensureSweep_settings _)

/-- A voice that is created is told to play its tone. -/
theorem entered_conducts (regular : scheduler.lanes.Regular) (id : NoteId) (cue : Cue α)
    (voice : Nat) (journal : List Notice) :
    Conducts scheduler (scheduler.voiceEffects id cue voice none)
      (scheduler.entered id cue voice journal) := by
  refine .told fun granted => ?_
  have slots := (entered_slots regular id cue voice journal).map Slot.entry
  exact .head (.entered trivial (Recorder.create_of_granted granted)) (.single (.swap slots.symm))

/-- A voice that sounds at once has the one that sounds for its pitch released. -/
theorem start_conducts (regular : scheduler.lanes.Regular) (id : NoteId) (cue : Cue α)
    (voice : Nat) (journal : List Notice) :
    Conducts scheduler
      (scheduler.voiceEffects id cue voice (scheduler.lanes.laneOf cue.pitch).active)
      ((scheduler.entered id cue voice journal).promote cue.pitch id) := by
  have filled := entered_regular regular id cue voice journal
  rw [← voiceEffects_append, ← entered_promoteEffects regular id cue voice journal]
  exact (entered_conducts regular id cue voice journal).trans (promote_conducts filled cue.pitch id)

/-- A voice that is asked for is told to play its tone, if it is granted. -/
theorem prepare_conducts (regular : scheduler.lanes.Regular) (id : NoteId) (cue : Cue α) :
    Conducts scheduler (scheduler.prepareEffects id cue)
      (scheduler.prepare id cue.pitch cue.start cue.finish cue.velocity cue.pan).1 := by
  cases outcome : (ToneGenerator.create scheduler.generator (scheduler.tone cue)).2 with
  | error cause =>
    rw [prepare_refused id outcome, prepareEffects_refused id outcome]
    refine .told fun granted => ?_
    obtain ⟨_, refused⟩ := Recorder.refuse_of_granted granted
    exact .refused id refused
  | ok voice =>
    -- The clock decides whether the voice sounds at once or waits for its start.
    obtain ⟨journal, prepared⟩ := prepare_created id outcome
    rw [prepared, prepareEffects_created id outcome]
    by_cases begun : (scheduler.tone cue).start ≤ scheduler.now
    · simp only [if_pos begun]
      exact (start_conducts regular id cue voice journal).and_still (ensureSweep_lanes _)
        (ensureSweep_settings _)
    · simp only [if_neg begun]
      exact (entered_conducts regular id cue voice journal).and_still (ensureSweep_lanes _)
        (ensureSweep_settings _)

/-- A note that is placed has its voice play unless it is over or far ahead. -/
theorem place_conducts (regular : scheduler.lanes.Regular) (id : NoteId) (note : Note α) :
    Conducts scheduler (scheduler.placeEffects id note) (scheduler.place id note).1 := by
  unfold place placeEffects
  -- A note is over, far ahead, or prepared at once.
  by_cases ended : note.finish < scheduler.now
  · simp only [if_pos ended]
    exact .still rfl rfl
  · simp only [if_neg ended]
    by_cases far : scheduler.now + 2.0 * scheduler.settings.leadTime < note.start
    · simp only [if_pos far]
      exact .still rfl rfl
    · simp only [if_neg far]
      exact prepare_conducts regular id note.cue

/-- What is held under a number that is given is told to stop before the note is placed. -/
theorem schedule_conducts (regular : scheduler.lanes.Regular) (note : Note α)
    (id? : Option NoteId) :
    Conducts scheduler (scheduler.scheduleEffects note id?) (scheduler.schedule note id?).1 := by
  -- Under a given number the note before is cancelled first.
  cases id? with
  | some id =>
    exact (cancel_conducts regular id).trans (place_conducts (cancel_custody regular id).regular
      id note)
  | none =>
    have numbered : Conducts scheduler [] scheduler.freshId.1 := .still rfl rfl
    have filled : scheduler.freshId.1.lanes.Regular := regular
    exact numbered.trans (place_conducts filled scheduler.freshId.2 note)

/-- Sounding a pitch has at most one voice play. -/
theorem playPitch_conducts (regular : scheduler.lanes.Regular) (pitch : Pitch) (velocity : α) :
    Conducts scheduler (scheduler.playPitchEffects pitch velocity)
      (scheduler.playPitch pitch velocity).1 := by
  unfold playPitch playPitchEffects
  -- A velocity that fails its check changes nothing.
  cases Note.checkVelocity velocity with
  | error cause => exact .still rfl rfl
  | ok _ =>
    have numbered : Conducts scheduler [] scheduler.freshId.1 := .still rfl rfl
    have filled : scheduler.freshId.1.lanes.Regular := regular
    exact numbered.trans (prepare_conducts filled scheduler.freshId.2
      (scheduler.heldCue pitch velocity))

/-- The work of a timer continues the commands of each voice as it should. -/
theorem fire_conducts (regular : scheduler.lanes.Regular) (action : Action α) :
    Conducts scheduler (scheduler.fireEffects action) (scheduler.fire action).1 := by
  -- That the table forgets the timer of the note does not touch voices.
  have dropped : ∀ id, Conducts scheduler [] (scheduler.dropTicket id) := fun _ => .still rfl rfl
  have filled : ∀ id, (scheduler.dropTicket id).lanes.Regular := fun _ => regular
  cases action with
  | reschedule id note => exact (dropped id).trans (schedule_conducts (filled id) note (some id))
  | promote id pitch => exact (dropped id).trans (promote_conducts (filled id) pitch id)
  | sweep => exact sweep_conducts scheduler

/-- The work of due timers continues the commands of each voice as it should. -/
theorem fireDue_conducts (regular : scheduler.lanes.Regular) (horizon rounds : Nat) :
    Conducts scheduler (scheduler.fireDueEffects horizon rounds)
      (scheduler.fireDue horizon rounds).1 := by
  -- The lanes stay regular through each round, which is all that the next one asks for.
  induction rounds generalizing scheduler with
  | zero => exact .still rfl rfl
  | succ rounds ih =>
    rw [fireDue, fireDueEffects]
    cases popped : scheduler.timers.popDue? scheduler.now horizon with
    | none => exact .still rfl rfl
    | some pair =>
      obtain ⟨action, rest⟩ := pair
      obtain ⟨timer, queued, rfl, _⟩ := Timers.popDue?_spec popped
      have taken : Conducts scheduler [.fired timer] { scheduler with timers := rest } :=
        .taken scheduler timer rest
      have still : ({ scheduler with timers := rest }).lanes.Regular := regular
      have filled := (fire_custody still timer.action).regular
      have work := taken.trans (fire_conducts still timer.action)
      simp only [queued, List.head?_cons, Option.toList_some, List.map_cons, List.map_nil]
      cases fired : ({ scheduler with timers := rest }).fire timer.action with
      | mk next outcome =>
        rw [fired] at work filled
        cases outcome with
        | error cause =>
          -- The timers behind a failed one are not fired.
          simpa using work
        | ok _ => exact work.trans (ih filled)

/-- Every request continues the commands of each voice as it should, whatever number it names. -/
theorem perform_conducts (regular : scheduler.lanes.Regular) (request : Request α) :
    Conducts scheduler (scheduler.effects request) (scheduler.perform request) := by
  -- There is one lemma for each kind of request.
  cases request with
  | schedule note id? => exact schedule_conducts regular note id?
  | playPitch pitch velocity => exact playPitch_conducts regular pitch velocity
  | releasePitch pitch => exact releasePitch_conducts regular pitch
  | releaseAll => exact releaseAll_conducts regular
  | cancel id => exact cancel_conducts regular id
  | cancelAll => exact cancelAll_conducts scheduler
  | advance => exact fireDue_conducts regular _ _
  | setClock now => exact .still rfl rfl

/-- Every run continues the commands of each voice as it should, and its generator hears of its
effects, for all of which it grants the voices. -/
theorem run_conducts (regular : scheduler.lanes.Regular) (requests : List (Request α)) :
    Conducts scheduler (scheduler.history requests) (scheduler.run requests) ∧
      (scheduler.run requests).generator =
        hear scheduler.generator (scheduler.history requests) ∧
      Granted scheduler.generator (scheduler.history requests) := by
  -- The induction is on the requests, with what was heard so far in the generator.
  induction requests generalizing scheduler with
  | nil => exact ⟨.still rfl rfl, rfl, trivial⟩
  | cons request later ih =>
    obtain ⟨_, custody⟩ := perform_custody regular request
    obtain ⟨conducts, heard, granted⟩ := ih custody.regular
    refine ⟨(perform_conducts regular request).trans conducts, ?_, ?_⟩
    · rw [run_cons, heard, custody.heard, history, hear_append]
    · rw [history, granted_append]
      exact ⟨custody.granted, custody.heard ▸ granted⟩

end Melody.Scheduler
