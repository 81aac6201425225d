import Melody.Scheduler.Operation

/-! Runs of a scheduler, with the effects that each request has on voices and timers. -/

namespace Melody

/-- What a scheduler can be asked to do, a move of its clock included. -/
inductive Request (α : Type) where
  | schedule (note : Note α) (id? : Option NoteId)
  | playPitch (pitch : Pitch) (velocity : α)
  | releasePitch (pitch : Pitch)
  | releaseAll
  | cancel (id : NoteId)
  | cancelAll
  | advance
  | setClock (now : α)

/-- What happens to a voice or a timer, with the notes that are behind it. -/
inductive Effect (α : Type) where
  /-- A timer is taken out because it is due. -/
  | fired (timer : Timer α)
  /-- A voice is asked for on behalf of a note, and is there if it was created. -/
  | created (id : NoteId) (tone : Tone α) (voice? : Option Nat)
  /-- A note is the cause of a command to the voice of a note. -/
  | commanded (cause owner : NoteId) (voice : Nat) (command : Command α)

/-- What a voice is created from. -/
structure Cue (α : Type) where
  pitch : Pitch
  start : α
  finish : Ending α
  velocity : α
  pan : α

/-- The cue of a note. -/
def Note.cue {α : Type} [Scalar α] (note : Note α) : Cue α :=
  ⟨note.pitch, note.start, .at note.finish, note.velocity, note.pan⟩

/-- An effect that a note causes, or that its voice or its timer undergoes. -/
def Effect.Concerns {α : Type} (id : NoteId) : Effect α → Prop
  | fired timer => timer.action.note? = some id
  | created owner _ _ => owner = id
  | commanded cause owner _ _ => cause = id ∨ owner = id

namespace Scheduler

variable {γ α : Type} [Analytic α]

/-- A scheduler that has been asked for nothing yet. -/
def new (generator : γ) (now : α) (settings : Settings α) : Scheduler γ α :=
  { generator, now, settings }

/-- The effect of fading out an entry. -/
def fadeEffect (scheduler : Scheduler γ α) (cause : NoteId) (entry : Entry α) : Effect α :=
  let level := scheduler.sustainLevel * entry.velocity
  .commanded cause entry.id entry.voice
    (.release scheduler.now (scheduler.settings.release.scaleY level))

/-- The effects of fading out an entry that sounds beyond now. -/
def fadeEffects (scheduler : Scheduler γ α) (cause : Entry α → NoteId) (seated : Option (Entry α)) :
    List (Effect α) :=
  (seated.filter (·.finish.isAfter scheduler.now)).toList.map fun entry =>
    scheduler.fadeEffect (cause entry) entry

/-- The effects of dropping the voice of a note. -/
def cancelEffects (scheduler : Scheduler γ α) (id : NoteId) : List (Effect α) :=
  (scheduler.lanes.take? id).toList.map fun (entry, _) =>
    .commanded id entry.id entry.voice .destroy

/-- The effects of dropping every voice. -/
def cancelAllEffects (scheduler : Scheduler γ α) : List (Effect α) :=
  (scheduler.lanes.flatMap Lane.entries).map fun entry =>
    .commanded entry.id entry.id entry.voice .destroy

/-- The effects of fading out the note that sounds in a lane. -/
def releaseLaneEffects (scheduler : Scheduler γ α) (lane : Lane α) : List (Effect α) :=
  scheduler.fadeEffects Entry.id lane.active

/-- The effects of fading out the note that sounds for a pitch. -/
def releasePitchEffects (scheduler : Scheduler γ α) (pitch : Pitch) : List (Effect α) :=
  (scheduler.lanes.find? pitch).toList.flatMap scheduler.releaseLaneEffects

/-- The effects of fading out every note that sounds. -/
def releaseAllEffects (scheduler : Scheduler γ α) : List (Effect α) :=
  scheduler.lanes.flatMap scheduler.releaseLaneEffects

/-- The effects of letting a prepared note sound. -/
def promoteEffects (scheduler : Scheduler γ α) (pitch : Pitch) (id : NoteId) : List (Effect α) :=
  ((scheduler.lanes.find? pitch).bind (·.takeFuture? id)).toList.flatMap fun (_, lane) =>
    scheduler.fadeEffects (fun _ => id) lane.active

/-- The cue of a pitch that sounds from now until it is released. -/
def heldCue (scheduler : Scheduler γ α) (pitch : Pitch) (velocity : α) : Cue α :=
  ⟨pitch, scheduler.now, .never, velocity, 0.0⟩

/-- What the generator is told of a cue, which starts no earlier than now. -/
def tone (scheduler : Scheduler γ α) (cue : Cue α) : Tone α where
  frequency := scheduler.settings.mapping.frequency cue.pitch
  start := Scalar.larger cue.start scheduler.now
  finish := cue.finish
  velocity := cue.velocity
  pan := cue.pan

/-- The commands that a voice gets for a cue when it has been created. -/
def part (scheduler : Scheduler γ α) (cue : Cue α) : List (Command α) :=
  script scheduler.settings scheduler.sustainLevel (scheduler.tone cue).start cue.finish
    cue.velocity

/-- The entry of a note whose voice was created from a cue. -/
def entryOf (scheduler : Scheduler γ α) (id : NoteId) (cue : Cue α) (voice : Nat) : Entry α :=
  ⟨id, voice, (scheduler.tone cue).start, cue.finish, cue.velocity⟩

variable [ToneGenerator γ α]

/-- The effects of creating the voice of a note. -/
def prepareEffects (scheduler : Scheduler γ α) (id : NoteId) (cue : Cue α) : List (Effect α) :=
  let tone := scheduler.tone cue
  match (ToneGenerator.create scheduler.generator tone).2 with
  | .error _ => [.created id tone none]
  | .ok voice =>
    -- A voice that sounds at once takes the seat, one for later leaves it alone.
    let displaced := if tone.start ≤ scheduler.now then
      (scheduler.lanes.find? cue.pitch).bind Lane.active else none
    .created id tone (some voice) :: (scheduler.part cue).map (.commanded id id voice) ++
      scheduler.fadeEffects (fun _ => id) displaced

/-- The effects of scheduling a note under a number. -/
def placeEffects (scheduler : Scheduler γ α) (id : NoteId) (note : Note α) : List (Effect α) :=
  -- A note that is over is dropped, and one that is far ahead has no voice yet.
  if note.finish < scheduler.now then []
  else if scheduler.now + 2.0 * scheduler.settings.leadTime < note.start then []
  else scheduler.prepareEffects id note.cue

/-- The effects of scheduling a note. -/
def scheduleEffects (scheduler : Scheduler γ α) (note : Note α) (id? : Option NoteId) :
    List (Effect α) :=
  match id? with
  | some id => scheduler.cancelEffects id ++ (scheduler.cancel id).1.placeEffects id note
  | none => scheduler.freshId.1.placeEffects scheduler.freshId.2 note

/-- The effects of sounding a pitch. -/
def playPitchEffects (scheduler : Scheduler γ α) (pitch : Pitch) (velocity : α) :
    List (Effect α) :=
  match Note.checkVelocity velocity with
  | .error _ => []
  | .ok () =>
    scheduler.freshId.1.prepareEffects scheduler.freshId.2 (scheduler.heldCue pitch velocity)

/-- The effects of the work of a timer that has been taken out. -/
def fireEffects (scheduler : Scheduler γ α) (action : Action α) : List (Effect α) :=
  match action with
  | .reschedule id note => (scheduler.dropTicket id).scheduleEffects note (some id)
  | .promote id pitch => scheduler.promoteEffects pitch id
  | .sweep => []

/-- The effects of firing due timers. -/
def fireDueEffects (scheduler : Scheduler γ α) (horizon : Nat) : Nat → List (Effect α)
  | 0 => []
  | rounds + 1 =>
    match scheduler.timers.popDue? scheduler.now horizon with
    | none => []
    | some (action, timers) =>
      let popped := { scheduler with timers }
      -- The timer comes before the effects of its work, and later timers after them.
      scheduler.timers.queue.head?.toList.map .fired ++ popped.fireEffects action ++
        match popped.fire action with
        | (_, .error _) => []
        | (next, .ok ()) => next.fireDueEffects horizon rounds

/-- The effects of a request. -/
def effects (scheduler : Scheduler γ α) : Request α → List (Effect α)
  | .schedule note id? => scheduler.scheduleEffects note id?
  | .playPitch pitch velocity => scheduler.playPitchEffects pitch velocity
  | .releasePitch pitch => scheduler.releasePitchEffects pitch
  | .releaseAll => scheduler.releaseAllEffects
  | .cancel id => scheduler.cancelEffects id
  | .cancelAll => scheduler.cancelAllEffects
  | .advance => scheduler.fireDueEffects scheduler.timers.tickets scheduler.timers.count
  | .setClock _ => []

/-- The scheduler after a request. -/
def perform (scheduler : Scheduler γ α) : Request α → Scheduler γ α
  | .schedule note id? => (scheduler.schedule note id?).1
  | .playPitch pitch velocity => (scheduler.playPitch pitch velocity).1
  | .releasePitch pitch => (scheduler.releasePitch pitch).1
  | .releaseAll => scheduler.releaseAll
  | .cancel id => (scheduler.cancel id).1
  | .cancelAll => scheduler.cancelAll
  | .advance => scheduler.advance.1
  | .setClock now => scheduler.setClock now

/-- The scheduler after requests in their order. -/
def run (scheduler : Scheduler γ α) (requests : List (Request α)) : Scheduler γ α :=
  requests.foldl perform scheduler

/-- The effects of requests in their order. -/
def history (scheduler : Scheduler γ α) : List (Request α) → List (Effect α)
  | [] => []
  | request :: later => scheduler.effects request ++ (scheduler.perform request).history later

/-- Every request meets a condition in the state in which it is made. -/
def Along (allowed : Scheduler γ α → Request α → Prop) (scheduler : Scheduler γ α) :
    List (Request α) → Prop
  | [] => True
  | request :: later =>
    allowed scheduler request ∧ Along allowed (scheduler.perform request) later

/-- A note is scheduled under a number only if that number has been given out before. -/
def Issued (scheduler : Scheduler γ α) : Request α → Prop
  | .schedule _ (some id) => id.number < scheduler.nextId
  | _ => True

instance (scheduler : Scheduler γ α) : DecidablePred scheduler.Issued := fun request =>
  match request with
  | .schedule _ (some id) => inferInstanceAs (Decidable (id.number < scheduler.nextId))
  | .schedule _ none | .playPitch .. | .releasePitch _ | .releaseAll | .cancel _ | .cancelAll
  | .advance | .setClock _ => .isTrue trivial

/-- Whether every request of a run is allowed can be found out by making the run. -/
instance Along.decidable {allowed : Scheduler γ α → Request α → Prop}
    [decided : ∀ scheduler, DecidablePred (allowed scheduler)] (scheduler : Scheduler γ α) :
    (requests : List (Request α)) → Decidable (scheduler.Along allowed requests)
  | [] => .isTrue trivial
  | request :: later =>
    @instDecidableAnd _ _ (decided scheduler request) (decidable (scheduler.perform request) later)

/-- Requests that meet a condition meet every weaker one. -/
theorem Along.imp {allowed admitted : Scheduler γ α → Request α → Prop}
    (weaker : ∀ scheduler request, allowed scheduler request → admitted scheduler request)
    {scheduler : Scheduler γ α} {requests : List (Request α)}
    (along : scheduler.Along allowed requests) : scheduler.Along admitted requests := by
  induction requests generalizing scheduler with
  | nil => trivial
  | cons request later ih => exact ⟨weaker scheduler request along.1, ih along.2⟩

/-- A run of no requests changes nothing. -/
@[simp] theorem run_nil (scheduler : Scheduler γ α) : scheduler.run [] = scheduler :=
  rfl

/-- A run performs its first request first. -/
@[simp] theorem run_cons (scheduler : Scheduler γ α) (request : Request α)
    (later : List (Request α)) :
    scheduler.run (request :: later) = (scheduler.perform request).run later :=
  rfl

/-- A run of requests after others starts where those end. -/
theorem run_append (scheduler : Scheduler γ α) (requests later : List (Request α)) :
    scheduler.run (requests ++ later) = (scheduler.run requests).run later :=
  List.foldl_append

/-- A run that is followed by requests under a condition meets it throughout. -/
theorem along_append {allowed : Scheduler γ α → Request α → Prop} {scheduler : Scheduler γ α}
    {early late : List (Request α)} :
    scheduler.Along allowed (early ++ late) ↔
      scheduler.Along allowed early ∧ (scheduler.run early).Along allowed late := by
  induction early generalizing scheduler with
  | nil => simp [Along]
  | cons request early ih => simp [Along, ih, and_assoc]

end Scheduler

end Melody
