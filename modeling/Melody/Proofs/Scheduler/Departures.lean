import Melody.Proofs.Scheduler.Custody
import Melody.Proofs.Scheduler.Reading

/-! Every request accounts for the voices that it meets and for those that it creates. -/

namespace Melody

/-- No voice is created by a command. -/
theorem deaf_given? {α : Type} : Effect.Deaf (Effect.given? : Effect α → Option Nat) :=
  fun _ _ _ _ => rfl

namespace Scheduler

variable {γ α : Type}

/-- Taking back a timer leaves lanes and generator alone. -/
theorem dropTimer_still (scheduler : Scheduler γ α) (id : NoteId) :
    (scheduler.dropTimer id).1.lanes = scheduler.lanes ∧
      (scheduler.dropTimer id).1.generator = scheduler.generator := by
  unfold dropTimer
  split <;> exact ⟨rfl, rfl⟩

/-- Cancelling every note destroys the voices that are held. -/
theorem destroyed?_cancelAllEffects (scheduler : Scheduler γ α) :
    scheduler.cancelAllEffects.filterMap Effect.destroyed? = scheduler.voices := by
  rw [cancelAllEffects, ← Lanes.slots_entries, voices, Lanes.voices, List.map_map,
    List.filterMap_map, ← List.filterMap_eq_map]
  rfl

section Cancelling

variable [ToneGenerator γ α] {scheduler : Scheduler γ α}

/-- Cancelling a note destroys the voice that it has. -/
theorem cancel_custody (regular : scheduler.lanes.Regular) (id : NoteId) :
    Custody scheduler (scheduler.cancelEffects id) [] (scheduler.cancel id).1 := by
  -- The search for the voice finds the lanes as they were before the timer was taken back.
  obtain ⟨lanes, generator⟩ := dropTimer_still scheduler id
  simp only [cancel, dropVoice, cancelEffects, lanes]
  cases taken : scheduler.lanes.take? id with
  | none => exact .still regular lanes generator
  | some pair =>
    obtain ⟨entry, rest⟩ := pair
    obtain ⟨_, filled, pitch, sounding, slots⟩ := Lanes.take?_spec regular taken
    have unset := Custody.still regular lanes generator
    refine unset.trans (.told filled (by simp [Effect.asks]) ?_ _)
    intro voice
    -- The voice of the entry is told, and the others stay.
    have held := (slots.map (·.entry.voice)).count_eq voice
    rw [List.map_cons, List.count_cons] at held
    simp [voices, Lanes.voices, lanes, Effect.destroyed?, List.count_cons, held, Nat.add_comm]

/-- Cancelling every note destroys every voice. -/
theorem cancelAll_custody (scheduler : Scheduler γ α) :
    Custody scheduler scheduler.cancelAllEffects [] scheduler.cancelAll := by
  obtain ⟨journal, cleared⟩ := scheduler.cancelAll_eq
  -- All voices that are held are told, and no lane is left to hold any.
  have told : Custody scheduler scheduler.cancelAllEffects []
      (scheduler.told scheduler.cancelAllEffects [] journal) := by
    have silent : ∀ effect ∈ scheduler.cancelAllEffects, effect.asks = false :=
      silent_commanded _ Entry.id Entry.id Entry.voice _
    refine .told ⟨List.Pairwise.nil, by simp⟩ silent (fun voice => ?_) journal
    rw [destroyed?_cancelAllEffects]
    simp [Lanes.voices, Lanes.slots]
  rw [cleared]
  exact told.and_still rfl rfl

end Cancelling

variable [Analytic α] {scheduler : Scheduler γ α}

/-- No voice is destroyed by fading out. -/
theorem destroyed?_fadeEffects (cause : Entry α → NoteId) (seated : Option (Entry α)) :
    (scheduler.fadeEffects cause seated).filterMap Effect.destroyed? = [] := by
  refine List.filterMap_eq_nil_iff.mpr fun effect member => ?_
  obtain ⟨entry, _, rfl⟩ := List.mem_map.mp member
  rfl

/-- No voice is destroyed by creating one. -/
theorem destroyed?_voiceEffects (id : NoteId) (cue : Cue α) (voice : Nat)
    (displaced : Option (Entry α)) :
    (scheduler.voiceEffects id cue voice displaced).filterMap Effect.destroyed? = [] := by
  have part : ((scheduler.part cue).map (Effect.commanded id id voice)).filterMap
      Effect.destroyed? = [] := by
    refine List.filterMap_eq_nil_iff.mpr fun effect member => ?_
    obtain ⟨command, inside, rfl⟩ := List.mem_map.mp member
    -- A voice is told of changes of its gain and perhaps of its release.
    rcases List.mem_append.mp inside with gain | release
    · obtain ⟨event, _, rfl⟩ := List.mem_map.mp gain
      rfl
    · obtain ⟨time, _, rfl⟩ := Option.map_eq_some_iff.mp (Option.mem_toList.mp release)
      rfl
  rw [voiceEffects, List.filterMap_append, destroyed?_fadeEffects, List.append_nil,
    List.filterMap_cons, part]
  rfl

variable [ToneGenerator γ α]

/-- Fading out a lane keeps the voice of its note. -/
theorem releaseLane_custody (regular : scheduler.lanes.Regular) {lane : Lane α}
    (member : lane ∈ scheduler.lanes) :
    Custody scheduler (scheduler.releaseLaneEffects lane) [] (scheduler.releaseLane lane).1 := by
  rcases releaseLane_spec regular member with
    ⟨same, silent⟩ | ⟨entry, rest, lanes, journal, filled, _, before, after, effects, told⟩
  · -- A lane whose note is over is left as it is.
    rw [same, silent]
    exact .still regular rfl rfl
  · rw [effects, told]
    refine .told filled (by simp [fadeEffect, Effect.asks]) (fun voice => ?_) journal
    -- Only the end of the entry changes.
    have before := (before.map (·.entry.voice)).count_eq voice
    have after := (after.map (·.entry.voice)).count_eq voice
    simp only [List.map_cons] at before after
    simp [voices, Lanes.voices, fadeEffect, List.filterMap_cons, Effect.destroyed?, before, after]

/-- Fading out the note of a pitch keeps every voice. -/
theorem releasePitch_custody (regular : scheduler.lanes.Regular) (pitch : Pitch) :
    Custody scheduler (scheduler.releasePitchEffects pitch) []
      (scheduler.releasePitch pitch).1 := by
  unfold releasePitch releasePitchEffects
  cases found : scheduler.lanes.find? pitch with
  | none => exact .still regular rfl rfl
  | some lane => simpa using releaseLane_custody regular (List.mem_of_find?_eq_some found)

/-- Fading out every note keeps every voice. -/
theorem releaseAll_custody (regular : scheduler.lanes.Regular) :
    Custody scheduler scheduler.releaseAllEffects [] scheduler.releaseAll :=
  releaseAll_induction (motive := (Custody scheduler · [] ·)) regular (.still regular rfl rfl)
    fun _ custody still member => custody.trans (releaseLane_custody still member)

/-- The voice that makes way for a prepared note. -/
def promoteDepartures (scheduler : Scheduler γ α) (pitch : Pitch) (id : NoteId) : List Nat :=
  ((scheduler.lanes.find? pitch).bind (·.takeFuture? id)).toList.flatMap fun (_, lane) =>
    lane.active.toList.map (·.voice)

/-- A prepared note that comes to sound takes the seat of the one before. -/
theorem promote_custody (regular : scheduler.lanes.Regular) (pitch : Pitch) (id : NoteId) :
    Custody scheduler (scheduler.promoteEffects pitch id) (scheduler.promoteDepartures pitch id)
      (scheduler.promote pitch id) := by
  cases taken : (scheduler.lanes.find? pitch).bind (·.takeFuture? id) with
  | none =>
    -- A note that is not found changes nothing.
    simp only [promoteEffects, promoteDepartures, promote, taken]
    exact .still regular rfl rfl
  | some pair =>
    obtain ⟨entry, lane⟩ := pair
    obtain ⟨rest, lanes, journal, _, filled, before, after, promoted⟩ :=
      promote_taken regular taken
    rw [promoted]
    simp only [promoteEffects, promoteDepartures, taken, Option.toList_some, List.flatMap_cons,
      List.flatMap_nil, List.append_nil]
    refine .told filled (scheduler.fadeEffects_silent _ _) (fun voice => ?_) journal
    -- The note has its voice before and after, and the one before it has lost its seat.
    have before := (before.map (·.entry.voice)).count_eq voice
    have after := (after.map (·.entry.voice)).count_eq voice
    rw [destroyed?_fadeEffects]
    simp only [List.map_cons, List.map_append, List.map_map, Function.comp_def, List.count_cons,
      List.count_append] at before after
    simp only [voices, Lanes.voices, List.count_nil]
    rw [before, after]
    omega

/-- The voices that are forgotten because their notes have ended. -/
def sweepDepartures (scheduler : Scheduler γ α) : List Nat :=
  (scheduler.lanes.slots.filter (Lanes.isOver scheduler.now)).map (·.entry.voice)

/-- A sweep forgets the voices of notes that have ended. -/
theorem sweep_custody (regular : scheduler.lanes.Regular) :
    Custody scheduler [] scheduler.sweepDepartures scheduler.sweep := by
  have swept : Custody scheduler [] scheduler.sweepDepartures scheduler.swept := by
    refine ⟨regular.expire scheduler.now, rfl, trivial, fun voice => ?_⟩
    -- The slots that are over and those that are not make up all of them.
    have split := ((List.filter_append_perm (Lanes.isOver scheduler.now)
      scheduler.lanes.slots).map (·.entry.voice)).count_eq voice
    rw [List.map_append, List.count_append] at split
    simp only [voices, Lanes.voices, sweepDepartures, Scheduler.swept, Lanes.expire_slots,
      List.filterMap_nil, List.count_nil]
    omega
  -- Whether another sweep is set makes no difference to voices.
  rcases sweep_cases scheduler with same | same
  · rw [same]
    exact swept
  · rw [same]
    exact swept.and_still (ensureSweep_lanes _) (ensureSweep_generator _)

/-- A voice that is created joins those that are held. -/
theorem entered_custody (regular : scheduler.lanes.Regular) (id : NoteId) {cue : Cue α}
    {voice : Nat}
    (created : (ToneGenerator.create scheduler.generator (scheduler.tone cue)).2 = .ok voice)
    (journal : List Notice) :
    Custody scheduler (scheduler.voiceEffects id cue voice none) []
      (scheduler.entered id cue voice journal) where
  regular := entered_regular regular id cue voice journal
  heard := rfl
  granted := by
    -- The generator is asked first, and all that it hears after that are commands.
    have part := silent_commanded (scheduler.part cue) (fun _ => id) (fun _ => id) (fun _ => voice)
      fun command => command
    have rest : scheduler.voiceEffects id cue voice none =
        .created id (scheduler.tone cue) (some voice) ::
          (scheduler.part cue).map (.commanded id id voice) := by
      simp [voiceEffects, fadeEffects]
    rw [rest]
    exact ⟨congrArg Except.toOption created, granted_of_silent part⟩
  balance other := by
    -- One entry joins the slots, with the voice that the generator has given.
    have slots := ((entered_slots regular id cue voice journal).map (·.entry.voice)).count_eq other
    rw [scheduler.filterMap_voiceEffects deaf_given?, destroyed?_voiceEffects]
    simp only [List.map_cons, List.count_cons] at slots
    simp only [voices, Lanes.voices, Effect.given?, Option.toList_some, List.count_cons,
      List.count_nil]
    rw [slots]
    simp [entryOf]

section Entering

variable (regular : scheduler.lanes.Regular) (id : NoteId) (cue : Cue α) (voice : Nat)
  (journal : List Notice)

include regular

/-- A note that has just been entered is found, in the lane whose note sounds as before. -/
theorem entered_taken : ∃ first lane,
    ((scheduler.entered id cue voice journal).lanes.find? cue.pitch).bind (·.takeFuture? id) =
        some (first, lane) ∧ lane.active = (scheduler.lanes.laneOf cue.pitch).active := by
  have filled := entered_regular regular id cue voice journal
  have member := (entered_slots regular id cue voice journal).mem_iff.mpr (List.mem_cons_self ..)
  obtain ⟨first, lane, _, taken⟩ := Lanes.takeFuture?_of_mem filled.ordered member
  obtain ⟨_, _, _, seat, _⟩ := promote_taken filled taken
  -- Whichever note is found under the number, the one that makes way is the one from before.
  exact ⟨first, lane, taken, seat.trans (entered_active regular id cue voice journal)⟩

/-- A note that has just been entered fades out the one that sounds for its pitch. -/
theorem entered_promoteEffects :
    (scheduler.entered id cue voice journal).promoteEffects cue.pitch id =
      scheduler.fadeEffects (fun _ => id) (scheduler.lanes.laneOf cue.pitch).active := by
  obtain ⟨first, lane, taken, seat⟩ := entered_taken regular id cue voice journal
  simp only [promoteEffects, taken, seat, Option.toList_some, List.flatMap_cons, List.flatMap_nil,
    List.append_nil]
  rfl

end Entering

/-- A voice that sounds at once takes the seat of the one that sounds for its pitch. -/
theorem start_custody (regular : scheduler.lanes.Regular) (id : NoteId) {cue : Cue α} {voice : Nat}
    (created : (ToneGenerator.create scheduler.generator (scheduler.tone cue)).2 = .ok voice)
    (journal : List Notice) :
    Custody scheduler
      (scheduler.voiceEffects id cue voice (scheduler.lanes.laneOf cue.pitch).active)
      ((scheduler.lanes.laneOf cue.pitch).active.toList.map (·.voice))
      ((scheduler.entered id cue voice journal).promote cue.pitch id) := by
  -- The note enters the lane among those to come and leaves it for the seat at once.
  have entered := entered_custody regular id created journal
  obtain ⟨first, lane, taken, seat⟩ := entered_taken regular id cue voice journal
  have departs : (scheduler.entered id cue voice journal).promoteDepartures cue.pitch id =
      (scheduler.lanes.laneOf cue.pitch).active.toList.map (·.voice) := by
    simp [promoteDepartures, taken, seat]
  have promoted := promote_custody entered.regular cue.pitch id
  rw [entered_promoteEffects regular id cue voice journal, departs] at promoted
  rw [← voiceEffects_append]
  exact entered.trans promoted

/-- The voice that makes way for one that is created, if that sounds at once. -/
def prepareDepartures (scheduler : Scheduler γ α) (cue : Cue α) : List Nat :=
  match (ToneGenerator.create scheduler.generator (scheduler.tone cue)).2 with
  | .error _ => []
  | .ok _ =>
    if (scheduler.tone cue).start ≤ scheduler.now then
      ((scheduler.lanes.find? cue.pitch).bind Lane.active).toList.map (·.voice)
    else []

/-- A voice that is asked for joins those that are held, if it is granted. -/
theorem prepare_custody (regular : scheduler.lanes.Regular) (id : NoteId) (cue : Cue α) :
    Custody scheduler (scheduler.prepareEffects id cue) (scheduler.prepareDepartures cue)
      (scheduler.prepare id cue.pitch cue.start cue.finish cue.velocity cue.pan).1 := by
  cases outcome : (ToneGenerator.create scheduler.generator (scheduler.tone cue)).2 with
  | error cause =>
    -- The generator has been asked in vain, and the lanes stay as they are.
    rw [prepare_refused id outcome, prepareEffects_refused id outcome, prepareDepartures, outcome]
    refine ⟨regular, rfl, ⟨congrArg Except.toOption outcome, trivial⟩, fun voice => ?_⟩
    simp [voices, Scheduler.told, List.filterMap_cons, Effect.given?, Effect.destroyed?]
  | ok voice =>
    -- The clock decides whether the voice sounds at once or waits for its start.
    obtain ⟨journal, prepared⟩ := prepare_created id outcome
    rw [prepared, prepareEffects_created id outcome, prepareDepartures, outcome,
      ← Lanes.laneOf_active]
    by_cases begun : (scheduler.tone cue).start ≤ scheduler.now
    · simp only [if_pos begun]
      exact (start_custody regular id outcome journal).and_still (ensureSweep_lanes _)
        (ensureSweep_generator _)
    · -- Setting a timer for the start of the note does not touch voices.
      simp only [if_neg begun]
      have entered := entered_custody regular id outcome journal
      exact entered.and_still (ensureSweep_lanes _) (ensureSweep_generator _)

/-- The voice that makes way for a note that is placed. -/
def placeDepartures (scheduler : Scheduler γ α) (note : Note α) : List Nat :=
  if note.finish < scheduler.now then []
  else if scheduler.now + 2.0 * scheduler.settings.leadTime < note.start then []
  else scheduler.prepareDepartures note.cue

/-- A note that is placed gets a voice unless it is over or far ahead. -/
theorem place_custody (regular : scheduler.lanes.Regular) (id : NoteId) (note : Note α) :
    Custody scheduler (scheduler.placeEffects id note) (scheduler.placeDepartures note)
      (scheduler.place id note).1 := by
  unfold place placeEffects placeDepartures
  -- A note that is over or far ahead does not get as far as the generator.
  by_cases ended : note.finish < scheduler.now
  · simp only [if_pos ended]
    exact .still regular rfl rfl
  · simp only [if_neg ended]
    by_cases far : scheduler.now + 2.0 * scheduler.settings.leadTime < note.start
    · simp only [if_pos far]
      exact .still regular rfl rfl
    · simp only [if_neg far]
      exact prepare_custody regular id note.cue

/-- The voice that makes way for a note that is scheduled. -/
def scheduleDepartures (scheduler : Scheduler γ α) (note : Note α) (id? : Option NoteId) :
    List Nat :=
  match id? with
  | some id => (scheduler.cancel id).1.placeDepartures note
  | none => scheduler.freshId.1.placeDepartures note

/-- What is held under a number that is given is destroyed before the note is placed. -/
theorem schedule_custody (regular : scheduler.lanes.Regular) (note : Note α)
    (id? : Option NoteId) :
    Custody scheduler (scheduler.scheduleEffects note id?) (scheduler.scheduleDepartures note id?)
      (scheduler.schedule note id?).1 := by
  cases id? with
  | some id =>
    -- A voice that the number stood for is destroyed, not displaced.
    have cancelled := cancel_custody regular id
    exact cancelled.trans (place_custody cancelled.regular id note)
  | none =>
    have numbered : Custody scheduler [] [] scheduler.freshId.1 := .still regular rfl rfl
    exact numbered.trans (place_custody numbered.regular scheduler.freshId.2 note)

/-- Sounding a pitch creates at most one voice. -/
theorem playPitch_custody (regular : scheduler.lanes.Regular) (pitch : Pitch) (velocity : α) :
    ∃ departed, Custody scheduler (scheduler.playPitchEffects pitch velocity) departed
      (scheduler.playPitch pitch velocity).1 := by
  -- A velocity that is refused changes nothing; a number is given out before the voice is made.
  unfold playPitch playPitchEffects
  cases Note.checkVelocity velocity with
  | error cause => exact ⟨[], .still regular rfl rfl⟩
  | ok _ =>
    have numbered : Custody scheduler [] [] scheduler.freshId.1 := .still regular rfl rfl
    exact ⟨_, numbered.trans (prepare_custody numbered.regular scheduler.freshId.2
      (scheduler.heldCue pitch velocity))⟩

/-- The voices that leave by the work of a timer that has been taken out. -/
def fireDepartures (scheduler : Scheduler γ α) (action : Action α) : List Nat :=
  match action with
  | .reschedule id note => (scheduler.dropTicket id).scheduleDepartures note (some id)
  | .promote id pitch => scheduler.promoteDepartures pitch id
  | .sweep => scheduler.sweepDepartures

/-- The work of a timer is accounted for. -/
theorem fire_custody (regular : scheduler.lanes.Regular) (action : Action α) :
    Custody scheduler (scheduler.fireEffects action) (scheduler.fireDepartures action)
      (scheduler.fire action).1 := by
  -- That the table forgets the timer of the note does not touch voices.
  have dropped : ∀ id, Custody scheduler [] [] (scheduler.dropTicket id) :=
    fun _ => .still regular rfl rfl
  cases action with
  | reschedule id note =>
    exact (dropped id).trans (schedule_custody (dropped id).regular note (some id))
  | promote id pitch => exact (dropped id).trans (promote_custody (dropped id).regular pitch id)
  | sweep => exact sweep_custody regular

/-- The voices that leave by the work of due timers. -/
def fireDueDepartures (scheduler : Scheduler γ α) (horizon : Nat) : Nat → List Nat
  | 0 => []
  | rounds + 1 =>
    match scheduler.timers.popDue? scheduler.now horizon with
    | none => []
    | some (action, timers) =>
      let popped := { scheduler with timers }
      popped.fireDepartures action ++
        match popped.fire action with
        | (_, .error _) => []
        | (next, .ok ()) => next.fireDueDepartures horizon rounds

/-- The work of due timers is accounted for. -/
theorem fireDue_custody (regular : scheduler.lanes.Regular) (horizon rounds : Nat) :
    Custody scheduler (scheduler.fireDueEffects horizon rounds)
      (scheduler.fireDueDepartures horizon rounds) (scheduler.fireDue horizon rounds).1 := by
  -- The lanes stay regular through each round, which is all that the next one asks for.
  induction rounds generalizing scheduler with
  | zero => exact .still regular rfl rfl
  | succ rounds ih =>
    rw [fireDue, fireDueEffects, fireDueDepartures]
    cases popped : scheduler.timers.popDue? scheduler.now horizon with
    | none => exact .still regular rfl rfl
    | some pair =>
      obtain ⟨action, rest⟩ := pair
      obtain ⟨timer, queued, rfl, _⟩ := Timers.popDue?_spec popped
      have taken : Custody scheduler [.fired timer] [] { scheduler with timers := rest } :=
        .taken regular timer rest
      have work := taken.trans (fire_custody taken.regular timer.action)
      simp only [queued, List.head?_cons, Option.toList_some, List.map_cons, List.map_nil]
      cases fired : ({ scheduler with timers := rest }).fire timer.action with
      | mk next outcome =>
        rw [fired] at work
        cases outcome with
        | error cause =>
          -- The timers behind a failed one are not fired, so the account ends here.
          simpa using work
        | ok _ => exact work.trans (ih work.regular)

/-- Every request is accounted for, whatever number it names. -/
theorem perform_custody (regular : scheduler.lanes.Regular) (request : Request α) :
    ∃ departed, Custody scheduler (scheduler.effects request) departed
      (scheduler.perform request) := by
  -- There is one lemma for each kind of request; two of them let voices leave.
  cases request with
  | schedule note id? => exact ⟨_, schedule_custody regular note id?⟩
  | playPitch pitch velocity => exact playPitch_custody regular pitch velocity
  | releasePitch pitch => exact ⟨[], releasePitch_custody regular pitch⟩
  | releaseAll => exact ⟨[], releaseAll_custody regular⟩
  | cancel id => exact ⟨[], cancel_custody regular id⟩
  | cancelAll => exact ⟨[], cancelAll_custody scheduler⟩
  | advance => exact ⟨_, fireDue_custody regular _ _⟩
  | setClock now => exact ⟨[], .still regular rfl rfl⟩

/-- A run minds its voices, whatever numbers come with its requests. -/
theorem Minded.run {scheduler : Scheduler (Recorder α) α} (minded : scheduler.Minded)
    (requests : List (Request α)) : (scheduler.run requests).Minded := by
  -- No request asks more of the state that it meets than that its voices are minded.
  induction requests generalizing scheduler with
  | nil => exact minded
  | cons request later ih =>
    obtain ⟨_, custody⟩ := perform_custody minded.regular request
    exact ih (minded.custody custody)

end Scheduler

end Melody
