import Melody.Proofs.Scheduler.Lanes
import Melody.Proofs.Scheduler.Queue
import Melody.Proofs.Scheduler.Run

/-! The elementary moves that every request is made of, each with its effects. -/

namespace Melody

/-- What a run may ask of a scheduler, beyond numbers that have been given out. -/
structure Rules (α : Type) where
  /-- The notes that may have a voice, and the cues that it may be created from. -/
  fit : NoteId → Cue α → Prop
  /-- The moves of the clock. -/
  ticks : α → α → Prop

/-- The rules that rule nothing out. -/
def Rules.free {α : Type} : Rules α :=
  ⟨fun _ _ => True, fun _ _ => True⟩

section Hearing

variable {γ α : Type} [ToneGenerator γ α]

/-- A generator after it has been told of an effect. -/
def Effect.heardBy (generator : γ) : Effect α → γ
  | fired _ => generator
  | created _ tone _ => (ToneGenerator.create generator tone).1
  | commanded _ _ voice command => (ToneGenerator.obey generator voice command).1

/-- A generator after it has been told of effects in their order. -/
def hear (generator : γ) (effects : List (Effect α)) : γ :=
  effects.foldl Effect.heardBy generator

/-- Effects that follow others reach the generator that those leave. -/
theorem hear_append (generator : γ) (effects later : List (Effect α)) :
    hear generator (effects ++ later) = hear (hear generator effects) later :=
  List.foldl_append

end Hearing

namespace Scheduler

variable {γ α : Type}

section Telling

variable [ToneGenerator γ α]

/-- The scheduler after effects on its voices have reached its generator. -/
def told (scheduler : Scheduler γ α) (effects : List (Effect α)) (lanes : Lanes α)
    (journal : List Notice) : Scheduler γ α :=
  { scheduler with lanes, generator := hear scheduler.generator effects, journal }

end Telling

variable [Analytic α]

/-- A request is one that the rules admit, under a number that has been given out. -/
def Obeys (rules : Rules α) (scheduler : Scheduler γ α) (request : Request α) : Prop :=
  scheduler.Issued request ∧ match request with
    | .schedule note id? => rules.fit (id?.getD scheduler.freshId.2) note.cue
    | .playPitch pitch velocity => Note.checkVelocity velocity = .ok () →
      rules.fit scheduler.freshId.2 (scheduler.heldCue pitch velocity)
    | .setClock now => rules.ticks scheduler.now now
    | _ => True

/-- Without further rules it is enough that numbers have been given out. -/
theorem obeys_free {scheduler : Scheduler γ α} {request : Request α}
    (issued : scheduler.Issued request) :
    scheduler.Obeys .free request := by
  refine ⟨issued, ?_⟩
  cases request with
  | playPitch pitch velocity => exact fun _ => trivial
  | _ => trivial

/-- A note has no timer and no voice. -/
structure Lacks (scheduler : Scheduler γ α) (id : NoteId) : Prop where
  unlisted : ∀ pair ∈ scheduler.tickets, pair.1 ≠ id
  untimed : ∀ timer ∈ scheduler.timers.queue, timer.action.note? ≠ some id
  unvoiced : ∀ slot ∈ scheduler.lanes.slots, slot.entry.id ≠ id

/-- The scheduler without what a note waits for. -/
def unset (scheduler : Scheduler γ α) (id : NoteId) : Scheduler γ α :=
  { scheduler with
    timers := scheduler.timers.without id
    tickets := scheduler.tickets.filter (·.1 != id) }

/-- The effects of a voice that has been created and of the entry that makes way for it. -/
def voiceEffects (scheduler : Scheduler γ α) (id : NoteId) (cue : Cue α) (voice : Nat)
    (displaced : Option (Entry α)) : List (Effect α) :=
  .created id (scheduler.tone cue) (some voice) ::
    (scheduler.part cue).map (.commanded id id voice) ++
      scheduler.fadeEffects (fun _ => id) displaced

/-- The effects of a voice that is created come before those on the one that makes way for it. -/
theorem voiceEffects_append {scheduler : Scheduler γ α} (id : NoteId) (cue : Cue α) (voice : Nat)
    (displaced : Option (Entry α)) :
    scheduler.voiceEffects id cue voice none ++ scheduler.fadeEffects (fun _ => id) displaced =
      scheduler.voiceEffects id cue voice displaced := by
  simp [voiceEffects, fadeEffects]

/-- The scheduler without the notes that have ended and without a sweep ahead. -/
def swept (scheduler : Scheduler γ α) : Scheduler γ α :=
  { scheduler with lanes := scheduler.lanes.expire scheduler.now, sweepPending := false }

/-- A sweep returns unless nothing is left to wait for. -/
theorem sweep_eq (scheduler : Scheduler γ α) :
    scheduler.sweep =
      if scheduler.swept.isIdle then scheduler.swept else scheduler.swept.ensureSweep :=
  rfl

/-- A sweep touches the lanes and the timers only. -/
theorem sweep_cases (scheduler : Scheduler γ α) :
    scheduler.sweep = scheduler.swept ∨ scheduler.sweep = scheduler.swept.ensureSweep := by
  rw [sweep_eq]
  split
  · exact Or.inl rfl
  · exact Or.inr rfl

/-- Making sure of a sweep touches the timers only. -/
theorem ensureSweep_eq (scheduler : Scheduler γ α) :
    scheduler.ensureSweep =
      { scheduler with timers := scheduler.ensureSweep.timers, sweepPending := true } := by
  unfold ensureSweep
  by_cases pending : scheduler.sweepPending = true
  · rw [if_pos pending, ← pending]
  · rw [if_neg pending]

/-- Making sure of a sweep keeps the lanes. -/
@[simp] theorem ensureSweep_lanes (scheduler : Scheduler γ α) :
    scheduler.ensureSweep.lanes = scheduler.lanes := by rw [ensureSweep_eq]

/-- Making sure of a sweep keeps the generator. -/
@[simp] theorem ensureSweep_generator (scheduler : Scheduler γ α) :
    scheduler.ensureSweep.generator = scheduler.generator := by rw [ensureSweep_eq]

/-- Making sure of a sweep keeps the clock. -/
@[simp] theorem ensureSweep_now (scheduler : Scheduler γ α) :
    scheduler.ensureSweep.now = scheduler.now := by rw [ensureSweep_eq]

/-- Making sure of a sweep keeps the table of waiting notes. -/
@[simp] theorem ensureSweep_tickets (scheduler : Scheduler γ α) :
    scheduler.ensureSweep.tickets = scheduler.tickets := by rw [ensureSweep_eq]

/-- Making sure of a sweep keeps the settings. -/
@[simp] theorem ensureSweep_settings (scheduler : Scheduler γ α) :
    scheduler.ensureSweep.settings = scheduler.settings := by rw [ensureSweep_eq]

/-- Making sure of a sweep gives out no number. -/
@[simp] theorem ensureSweep_nextId (scheduler : Scheduler γ α) :
    scheduler.ensureSweep.nextId = scheduler.nextId := by rw [ensureSweep_eq]

variable [ToneGenerator γ α]

/-- One elementary move, with its effects. -/
inductive Move (rules : Rules α) :
    Scheduler γ α → List (Effect α) → Scheduler γ α → Prop where
  /-- The clock moves. -/
  | clock {scheduler : Scheduler γ α} {now : α} (ticks : rules.ticks scheduler.now now) :
      Move rules scheduler [] (scheduler.setClock now)
  /-- A number is given out. -/
  | issue {scheduler : Scheduler γ α} : Move rules scheduler [] scheduler.freshId.1
  /-- A note without a voice stops waiting. -/
  | forget {scheduler : Scheduler γ α} {id : NoteId}
      (unvoiced : ∀ slot ∈ scheduler.lanes.slots, slot.entry.id ≠ id) :
      Move rules scheduler [] (scheduler.unset id)
  /-- A note with a voice loses it. -/
  | withdraw {scheduler : Scheduler γ α} {id : NoteId} {slot : Slot α} {lanes : Lanes α}
      {journal : List Notice} (regular : lanes.Regular)
      (slots : scheduler.lanes.slots.Perm (slot :: lanes.slots)) (named : slot.entry.id = id) :
      Move rules scheduler [.commanded id slot.entry.id slot.entry.voice .destroy]
        ((scheduler.unset id).told
          [.commanded id slot.entry.id slot.entry.voice .destroy] lanes journal)
  /-- Every note stops waiting or loses its voice. -/
  | clear {scheduler : Scheduler γ α} {journal : List Notice} :
      Move rules scheduler scheduler.cancelAllEffects
        { scheduler.told scheduler.cancelAllEffects [] journal with
          timers := scheduler.timers.dropNotes, tickets := [] }
  /-- A note that sounds beyond now is made to end now. -/
  | fade {scheduler : Scheduler γ α} {pitch : Pitch} {entry : Entry α} {rest : List (Slot α)}
      {lanes : Lanes α} {journal : List Notice} (regular : lanes.Regular)
      (sounds : entry.finish.isAfter scheduler.now = true)
      (before : scheduler.lanes.slots.Perm (⟨pitch, true, entry⟩ :: rest))
      (after : lanes.slots.Perm
        (⟨pitch, true, { entry with finish := .at scheduler.now }⟩ :: rest)) :
      Move rules scheduler [scheduler.fadeEffect entry.id entry]
        (scheduler.told [scheduler.fadeEffect entry.id entry] lanes journal)
  /-- A note that is far ahead is put off until one lead time is left before its start. -/
  | defer {scheduler : Scheduler γ α} {id : NoteId} {note : Note α}
      (lacks : scheduler.Lacks id) (issued : id.number < scheduler.nextId)
      (fit : rules.fit id note.cue)
      (far : scheduler.now + 2.0 * scheduler.settings.leadTime < note.start) :
      Move rules scheduler [] (scheduler.setTimer id (note.start - scheduler.settings.leadTime)
        (.reschedule id note))
  /-- A voice is refused. -/
  | refuse {scheduler : Scheduler γ α} {id : NoteId} {cue : Cue α} {cause : CreationFault}
      (lacks : scheduler.Lacks id) (issued : id.number < scheduler.nextId) (fit : rules.fit id cue)
      (refused : (ToneGenerator.create scheduler.generator (scheduler.tone cue)).2 = .error cause) :
      Move rules scheduler [.created id (scheduler.tone cue) none]
        (scheduler.told [.created id (scheduler.tone cue) none] scheduler.lanes scheduler.journal)
  /-- A voice is created and sounds at once. -/
  | start {scheduler : Scheduler γ α} {id : NoteId} {cue : Cue α} {voice : Nat}
      {displaced : Option (Entry α)} {rest : List (Slot α)} {lanes : Lanes α}
      {journal : List Notice} (lacks : scheduler.Lacks id)
      (issued : id.number < scheduler.nextId) (fit : rules.fit id cue)
      (created : (ToneGenerator.create scheduler.generator (scheduler.tone cue)).2 = .ok voice)
      (begun : (scheduler.tone cue).start ≤ scheduler.now) (regular : lanes.Regular)
      (before : scheduler.lanes.slots.Perm (displaced.toList.map (⟨cue.pitch, true, ·⟩) ++ rest))
      (after : lanes.slots.Perm (⟨cue.pitch, true, scheduler.entryOf id cue voice⟩ :: rest)) :
      Move rules scheduler (scheduler.voiceEffects id cue voice displaced)
        (scheduler.told (scheduler.voiceEffects id cue voice displaced) lanes journal).ensureSweep
  /-- A voice is created and waits for its start. -/
  | book {scheduler : Scheduler γ α} {id : NoteId} {cue : Cue α} {voice : Nat} {lanes : Lanes α}
      {journal : List Notice} (lacks : scheduler.Lacks id)
      (issued : id.number < scheduler.nextId) (fit : rules.fit id cue)
      (created : (ToneGenerator.create scheduler.generator (scheduler.tone cue)).2 = .ok voice)
      (ahead : ¬ (scheduler.tone cue).start ≤ scheduler.now) (regular : lanes.Regular)
      (after : lanes.slots.Perm
        (⟨cue.pitch, false, scheduler.entryOf id cue voice⟩ :: scheduler.lanes.slots)) :
      Move rules scheduler (scheduler.voiceEffects id cue voice none)
        ((scheduler.told (scheduler.voiceEffects id cue voice none) lanes journal).setTimer id
          (scheduler.tone cue).start (.promote id cue.pitch)).ensureSweep
  /-- The timer of a note that was put off fires. -/
  | wake {scheduler : Scheduler γ α} {timer : Timer α} {later : List (Timer α)} {id : NoteId}
      {note : Note α} (queued : scheduler.timers.queue = timer :: later)
      (due : ¬ scheduler.now < timer.due) (action : timer.action = .reschedule id note) :
      Move rules scheduler [.fired timer] (scheduler.unset id)
  /-- The timer of a prepared note fires. -/
  | promote {scheduler : Scheduler γ α} {timer : Timer α} {later : List (Timer α)} {id : NoteId}
      {pitch : Pitch} {entry : Entry α} {displaced : Option (Entry α)} {rest : List (Slot α)}
      {lanes : Lanes α} {journal : List Notice}
      (queued : scheduler.timers.queue = timer :: later) (due : ¬ scheduler.now < timer.due)
      (action : timer.action = .promote id pitch) (named : entry.id = id) (regular : lanes.Regular)
      (before : scheduler.lanes.slots.Perm
        (⟨pitch, false, entry⟩ :: (displaced.toList.map (⟨pitch, true, ·⟩) ++ rest)))
      (after : lanes.slots.Perm (⟨pitch, true, entry⟩ :: rest)) :
      Move rules scheduler (.fired timer :: scheduler.fadeEffects (fun _ => id) displaced)
        ((scheduler.unset id).told (.fired timer :: scheduler.fadeEffects (fun _ => id) displaced)
          lanes journal)
  /-- The timer of a sweep fires. -/
  | sweep {scheduler : Scheduler γ α} {timer : Timer α} {rest : Timers α}
      (queued : scheduler.timers.queue = timer :: rest.queue)
      (counted : rest.tickets = scheduler.timers.tickets) (due : ¬ scheduler.now < timer.due)
      (action : timer.action = .sweep) :
      Move rules scheduler [.fired timer] ({ scheduler with timers := rest }).sweep

/-- No move takes back a number that has been given out. -/
theorem Move.nextId_le {rules : Rules α} {scheduler next : Scheduler γ α}
    {effects : List (Effect α)} (move : Move rules scheduler effects next) :
    scheduler.nextId ≤ next.nextId := by
  cases move with
  -- Giving out a number is the only move that changes the count.
  | issue => exact Nat.le_succ _
  | start => rw [ensureSweep_nextId]; exact Nat.le_refl _
  | book => rw [ensureSweep_nextId]; exact Nat.le_refl _
  | @sweep timer rest queued counted due action =>
    rcases sweep_cases ({ scheduler with timers := rest }) with same | same
    · rw [same]
      exact Nat.le_refl _
    · rw [same, ensureSweep_nextId]
      exact Nat.le_refl _
  | _ => exact Nat.le_refl _

/-- No move changes the settings. -/
theorem Move.settings_eq {rules : Rules α} {scheduler next : Scheduler γ α}
    {effects : List (Effect α)} (move : Move rules scheduler effects next) :
    next.settings = scheduler.settings := by
  -- Only setting up a sweep needs a word, the other moves are updates of other fields.
  cases move with
  | start => exact ensureSweep_settings _
  | book => exact ensureSweep_settings _
  | @sweep timer rest queued counted due action =>
    rcases sweep_cases ({ scheduler with timers := rest }) with same | same
    · rw [same]
      rfl
    · rw [same, ensureSweep_settings]
      rfl
  | _ => rfl

/-- The generator hears of the effects of a move and of nothing else. -/
theorem Move.generator_eq {rules : Rules α} {scheduler next : Scheduler γ α}
    {effects : List (Effect α)} (move : Move rules scheduler effects next) :
    next.generator = hear scheduler.generator effects := by
  -- Sweeps and the timers for them say nothing to the generator.
  cases move with
  | start => exact ensureSweep_generator _
  | book => exact ensureSweep_generator _
  | @sweep timer rest queued counted due action =>
    rcases sweep_cases ({ scheduler with timers := rest }) with same | same
    · rw [same]
      rfl
    · rw [same, ensureSweep_generator]
      rfl
  | _ => rfl

/-- Moves one after the other, with the effects of all of them. -/
inductive Moves (rules : Rules α) :
    Scheduler γ α → List (Effect α) → Scheduler γ α → Prop where
  | done {scheduler : Scheduler γ α} : Moves rules scheduler [] scheduler
  | step {scheduler next last : Scheduler γ α} {effects later : List (Effect α)}
      (move : Move rules scheduler effects next) (rest : Moves rules next later last) :
      Moves rules scheduler (effects ++ later) last

namespace Moves

variable {rules : Rules α} {scheduler next last : Scheduler γ α} {effects later : List (Effect α)}

/-- One move is a sequence of moves. -/
theorem single (move : Move rules scheduler effects next) : Moves rules scheduler effects next := by
  simpa using step move done

/-- Moves may be followed by moves. -/
theorem trans (first : Moves rules scheduler effects next) (second : Moves rules next later last) :
    Moves rules scheduler (effects ++ later) last := by
  -- The induction is on the first sequence, whose moves come before the second.
  induction first with
  | done => exact second
  | step move _ ih => simpa using step move (ih second)

/-- No moves take back a number that has been given out. -/
theorem nextId_le (moves : Moves rules scheduler effects next) :
    scheduler.nextId ≤ next.nextId := by
  induction moves with
  | done => exact Nat.le_refl _
  | step move _ ih => exact Nat.le_trans move.nextId_le ih

/-- What every move keeps holds after all of them. -/
theorem induction {holds : Scheduler γ α → Prop}
    (kept : ∀ {scheduler effects next}, holds scheduler → Move rules scheduler effects next →
      holds next)
    (moves : Moves rules scheduler effects last) (start : holds scheduler) : holds last := by
  induction moves with
  | done => exact start
  | step move _ ih => exact ih (kept start move)

/-- The generator hears of the effects of moves and of nothing else. -/
theorem generator_eq (moves : Moves rules scheduler effects next) :
    next.generator = hear scheduler.generator effects := by
  induction moves with
  | done => rfl
  | step move _ ih => rw [ih, move.generator_eq, hear_append]

/-- No moves change the settings. -/
theorem settings_eq (moves : Moves rules scheduler effects next) :
    next.settings = scheduler.settings := by
  induction moves with
  | done => rfl
  | step move _ ih => exact ih.trans move.settings_eq

end Moves

end Scheduler

end Melody
