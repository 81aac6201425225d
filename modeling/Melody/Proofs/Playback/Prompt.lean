import Melody.Proofs.Scheduler.Waking
import Melody.Proofs.Playback.Trace

/-! A scheduler in which no note is put off creates the voices of notes near ahead at once. -/

namespace Melody

/-- The tone of a voice that has been created. -/
def Effect.voiced? {α : Type} : Effect α → Option (Tone α)
  | created _ tone (some _) => some tone
  | created _ _ none => none
  | fired _ => none
  | commanded .. => none

/-- No voice is created by a command. -/
theorem deaf_voiced? {α : Type} : Effect.Deaf (Effect.voiced? : Effect α → Option (Tone α)) :=
  fun _ _ _ _ => rfl

/-- The tones of the voices that have been created, in order. -/
def voiced {α : Type} (effects : List (Effect α)) : List (Tone α) :=
  effects.filterMap Effect.voiced?

/-- No effects voice no notes. -/
@[simp] theorem voiced_nil {α : Type} : voiced ([] : List (Effect α)) = [] :=
  rfl

/-- Effects voice notes one after the other. -/
@[simp] theorem voiced_append {α : Type} (effects later : List (Effect α)) :
    voiced (effects ++ later) = voiced effects ++ voiced later :=
  List.filterMap_append

namespace Scheduler

/-- The rules that no note may have a voice. -/
def mute {α : Type} : Rules α :=
  ⟨fun _ _ => False, fun _ _ => True⟩

section Voicing

variable {γ α : Type} [Analytic α] {scheduler next : Scheduler γ α}

/-- A voice that has been created is created once. -/
theorem voiced_voiceEffects (id : NoteId) (cue : Cue α) (voice : Nat)
    (displaced : Option (Entry α)) :
    voiced (scheduler.voiceEffects id cue voice displaced) = [scheduler.tone cue] :=
  scheduler.filterMap_voiceEffects deaf_voiced? id cue voice displaced

variable [ToneGenerator γ α]

/-- No voice is created where no note may have one. -/
theorem Moves.unvoiced {effects : List (Effect α)} (moves : Moves mute scheduler effects next) :
    voiced effects = [] :=
  moves.filterMap_eq_nil deaf_voiced? (fun _ => rfl) fun _ _ _ _ fit => fit.elim

end Voicing

variable {γ α : Type} [ExactScalar α] [ToneGenerator γ α] {scheduler : Scheduler γ α}

/-- A scheduler with a generator that does not fail, and with no note that is put off. -/
structure Clear (scheduler : Scheduler γ α) : Prop where
  coherent : Coherent mute scheduler
  forward : scheduler.settings.Forward
  unfailing : Unfailing scheduler.generator

/-- A note that lies ahead within twice the lead time. -/
structure Ahead (scheduler : Scheduler γ α) (note : Note α) : Prop where
  begins : scheduler.now ≤ note.start
  near : note.start ≤ scheduler.now + 2 * scheduler.settings.leadTime
  lasts : note.start ≤ note.finish

namespace Clear

/-- Firing the timers that are due creates no voice. -/
theorem advance (clear : scheduler.Clear) :
    scheduler.advance.2 = .ok () ∧ voiced (scheduler.effects .advance) = [] ∧
      scheduler.advance.1.Clear ∧ scheduler.advance.1.settings = scheduler.settings := by
  have moves := clear.coherent.fireDue_moves scheduler.timers.tickets scheduler.timers.count
  refine ⟨clear.coherent.fireDue_ok clear.unfailing _ _, moves.unvoiced, ?_, moves.settings_eq⟩
  exact ⟨moves.coherent clear.coherent, moves.settings_eq ▸ clear.forward,
    moves.unfailing clear.unfailing⟩

/-- A cue has its voice created when it is prepared for a note that nothing is held for. -/
theorem prepare (clear : scheduler.Clear) {id : NoteId} (lacks : scheduler.Lacks id)
    (issued : id.number < scheduler.nextId) (cue : Cue α) :
    ∃ next, scheduler.prepare id cue.pitch cue.start cue.finish cue.velocity cue.pan =
        (next, .ok ()) ∧
      voiced (scheduler.prepareEffects id cue) = [scheduler.tone cue] ∧
      next.Clear ∧ next.now = scheduler.now ∧ next.settings = scheduler.settings := by
  obtain ⟨voice, created⟩ := clear.unfailing [] (scheduler.tone cue)
  obtain ⟨journal, prepared⟩ := prepare_created id created
  have coherent : Coherent .free scheduler := clear.coherent.refit fun _ _ _ _ _ => trivial
  have move := coherent.prepare_move cue lacks issued trivial
  have onward := Onward.prepare scheduler clear.forward id cue
  have ok := congrArg Prod.snd prepared
  refine ⟨_, Prod.ext rfl ok, ?_, ⟨?_, ?_, ?_⟩, onward.now, onward.settings⟩
  · rw [prepareEffects_created id created, voiced_voiceEffects]
  · -- Preparing a note puts off no other one.
    refine (coherent.of_move move).refit fun timer member other note action => ?_
    exact clear.coherent.fits timer (mem_of_mem_prepare action member) other note action
  · exact onward.settings ▸ clear.forward
  · exact (Moves.single move).unfailing clear.unfailing

/-- A note that lies ahead has its voice created when it is placed. -/
theorem place (clear : scheduler.Clear) {id : NoteId} (lacks : scheduler.Lacks id)
    (issued : id.number < scheduler.nextId) {note : Note α} (ahead : scheduler.Ahead note) :
    ∃ next, scheduler.place id note = (next, .ok (some id)) ∧
      voiced (scheduler.placeEffects id note) = [scheduler.tone note.cue] ∧
      next.Clear ∧ next.now = scheduler.now ∧ next.settings = scheduler.settings := by
  have lasts : ¬ note.finish < scheduler.now := not_lt.mpr (ahead.begins.trans ahead.lasts)
  -- A note this near is prepared at once, without a timer.
  have near := near_iff.mpr ahead.near
  obtain ⟨next, prepared, created, rest⟩ := clear.prepare lacks issued note.cue
  refine ⟨next, ?_, ?_, rest⟩
  · rw [Scheduler.place, if_neg lasts, if_neg near]
    exact congrArg (fun result => (result.1, result.2.map fun _ => some id)) prepared
  · rw [placeEffects, if_neg lasts, if_neg near]
    exact created

/-- A note that lies ahead has its voice created as soon as it is scheduled. -/
theorem schedule (clear : scheduler.Clear) {note : Note α} (ahead : scheduler.Ahead note) :
    ∃ next, scheduler.schedule note none = (next, .ok (some scheduler.freshId.2)) ∧
      voiced (scheduler.effects (.schedule note none)) = [scheduler.tone note.cue] ∧
      next.Clear ∧ next.now = scheduler.now ∧ next.settings = scheduler.settings := by
  have given : Move mute scheduler [] scheduler.freshId.1 := .issue
  have numbered : scheduler.freshId.1.Clear :=
    ⟨clear.coherent.of_move given, clear.forward, clear.unfailing⟩
  exact numbered.place clear.coherent.lacks_fresh (Nat.lt_succ_self _)
    ⟨ahead.begins, ahead.near, ahead.lasts⟩

/-- Notes that lie ahead have their voices created one after the other. -/
theorem scheduleNotes {notes : List (Note α)} (clear : scheduler.Clear)
    (ahead : ∀ note ∈ notes, scheduler.Ahead note) :
    ∃ next ids, scheduler.scheduleNotes notes = (next, .ok ids) ∧
      voiced (scheduler.scheduleNotesEffects notes) =
        notes.map (fun note => scheduler.tone note.cue) ∧
      next.Clear ∧ next.settings = scheduler.settings := by
  -- The clock stands still, so what lies ahead of the first note lies ahead of all the others.
  induction notes generalizing scheduler with
  | nil => exact ⟨scheduler, [], rfl, rfl, clear, rfl⟩
  | cons note later ih =>
    obtain ⟨next, scheduled, created, still, now, settings⟩ :=
      clear.schedule (ahead note (List.mem_cons_self ..))
    have others : ∀ other ∈ later, next.Ahead other := by
      intro other member
      obtain ⟨begins, near, lasts⟩ := ahead other (List.mem_cons_of_mem _ member)
      exact ⟨now ▸ begins, by rw [now, settings]; exact near, lasts⟩
    obtain ⟨last, ids, rest, voices, ready, same⟩ := ih still others
    have tone : ∀ cue, next.tone cue = scheduler.tone cue := fun cue => by
      rw [Scheduler.tone, Scheduler.tone, now, settings]
    refine ⟨last, scheduler.freshId.2 :: ids, ?_, ?_, ready, same.trans settings⟩
    · rw [Scheduler.scheduleNotes, scheduled]
      simp only [rest]
      rfl
    · rw [scheduleNotesEffects, scheduled, voiced_append, created]
      simp only [voices, tone, List.map_cons, List.singleton_append]

end Clear

end Scheduler

end Melody
