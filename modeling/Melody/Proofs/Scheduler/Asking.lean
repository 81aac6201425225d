import Melody.Proofs.Scheduler.Firing

/-! What a generator is asked for on behalf of a note, and generators that never fail. -/

namespace Melody

/-- What a generator is asked for on behalf of a note, with the voice if one is created. -/
def Effect.asked? {α : Type} (id : NoteId) : Effect α → Option (Tone α × Option Nat)
  | created owner tone voice? => if owner = id then some (tone, voice?) else none
  | fired _ => none
  | commanded .. => none

/-- No command asks for a voice. -/
theorem deaf_asked? {α : Type} {id : NoteId} :
    Effect.Deaf (Effect.asked? id : Effect α → Option (Tone α × Option Nat)) :=
  fun _ _ _ _ => rfl

/-- What a generator is asked for on behalf of a note, in order. -/
def asks {α : Type} (id : NoteId) (effects : List (Effect α)) : List (Tone α × Option Nat) :=
  effects.filterMap (Effect.asked? id)

/-- Every voice that was asked for has been created. -/
def Served {α : Type} (effects : List (Effect α)) : Prop :=
  ∀ id tone, .created id tone none ∉ effects

/-- A generator that creates every voice, whatever it has been told before. -/
def Unfailing {γ α : Type} [ToneGenerator γ α] (generator : γ) : Prop :=
  ∀ (effects : List (Effect α)) (tone : Tone α),
    ∃ voice, (ToneGenerator.create (hear generator effects) tone).2 = .ok voice

namespace Scheduler

variable {γ α : Type} {id : NoteId}

section Asking

variable {effects later : List (Effect α)}

/-- No effects ask for nothing. -/
@[simp] theorem asks_nil : asks id ([] : List (Effect α)) = [] :=
  rfl

/-- Effects ask one after the other. -/
@[simp] theorem asks_append : asks id (effects ++ later) = asks id effects ++ asks id later :=
  List.filterMap_append

/-- A generator is asked for nothing on behalf of a note that has at most a timer fired. -/
theorem asks_of_silent
    (silent : ∀ effect ∈ effects, effect.Concerns id → ∃ timer, effect = .fired timer) :
    asks id effects = [] := by
  refine List.filterMap_eq_nil_iff.mpr fun effect member => ?_
  -- A creation for this note would not be silent.
  cases effect with
  | created owner tone voice? =>
    have other : ¬ owner = id := fun same => by
      obtain ⟨timer, fired⟩ := silent _ member same
      cases fired
    simp [Effect.asked?, other]
  | _ => rfl

/-- A generator is asked for nothing on behalf of a note that no effect concerns. -/
theorem asks_of_apart (apart : ∀ effect ∈ effects, ¬ effect.Concerns id) :
    asks id effects = [] :=
  asks_of_silent fun effect member concerned => absurd concerned (apart effect member)

end Asking

variable {scheduler : Scheduler γ α}

/-- To cancel a note asks for no voice. -/
@[simp] theorem asks_cancelEffects (other : NoteId) :
    asks id (scheduler.cancelEffects other) = [] :=
  filterMap_cancelEffects deaf_asked? scheduler other

variable [Analytic α]

/-- A voice that has been created was asked for once. -/
theorem asks_voiceEffects (cue : Cue α) (voice : Nat) (displaced : Option (Entry α)) :
    asks id (scheduler.voiceEffects id cue voice displaced) =
      [(scheduler.tone cue, some voice)] := by
  rw [asks, scheduler.filterMap_voiceEffects deaf_asked?, Effect.asked?, if_pos rfl]
  rfl

variable [ToneGenerator γ α]

/-- A voice is asked for once, and is created if the generator does not fail. -/
theorem asks_prepareEffects (cue : Cue α) :
    ∃ voice?, asks id (scheduler.prepareEffects id cue) = [(scheduler.tone cue, voice?)] ∧
      (Unfailing scheduler.generator → ∃ voice, voice? = some voice) := by
  cases outcome : (ToneGenerator.create scheduler.generator (scheduler.tone cue)).2 with
  | error cause =>
    rw [prepareEffects_refused id outcome]
    -- A generator that does not fail creates a voice also if it is told nothing more.
    refine ⟨none, by simp [asks, Effect.asked?], fun unfailing => ?_⟩
    obtain ⟨voice, created⟩ := unfailing [] (scheduler.tone cue)
    rw [show hear scheduler.generator [] = scheduler.generator from rfl, outcome] at created
    contradiction
  | ok voice =>
    rw [prepareEffects_created id outcome, asks_voiceEffects]
    exact ⟨some voice, rfl, fun _ => ⟨voice, rfl⟩⟩

/-- A note that is spared is not asked for. -/
theorem Moves.unasked {effects : List (Effect α)} {next : Scheduler γ α}
    (moves : Moves (sparing id) scheduler effects next) : asks id effects = [] :=
  moves.filterMap_eq_nil deaf_asked? (fun _ => rfl) fun _ _ _ _ fit => if_neg fit

/-- A generator that does not fail goes on without failing. -/
theorem Moves.unfailing {rules : Rules α} {effects : List (Effect α)} {next : Scheduler γ α}
    (moves : Moves rules scheduler effects next) (unfailing : Unfailing scheduler.generator) :
    Unfailing next.generator := by
  intro later tone
  rw [moves.generator_eq, ← hear_append]
  exact unfailing (effects ++ later) tone

/-- A generator that does not fail creates every voice that a move asks for. -/
theorem Move.served {rules : Rules α} {effects : List (Effect α)} {next : Scheduler γ α}
    (move : Move rules scheduler effects next) (unfailing : Unfailing scheduler.generator) :
    Served effects := by
  intro other tone refused
  -- Only a refusal and the creation of a voice ask for one, and the latter gets it.
  have voiced : ∀ {note cue voice displaced},
      .created other tone none ∉ scheduler.voiceEffects note cue voice displaced := by
    simp [voiceEffects, fadeEffects, fadeEffect]
  cases move with
  | refuse _ _ _ failed =>
    obtain ⟨voice, created⟩ := unfailing [] _
    rw [show hear scheduler.generator [] = scheduler.generator from rfl, failed] at created
    contradiction
  | start => exact voiced refused
  | book => exact voiced refused
  | promote => simp [fadeEffects, fadeEffect] at refused
  | clear => simp [cancelAllEffects] at refused
  | withdraw => simp at refused
  | fade => simp [fadeEffect] at refused
  | wake => simp at refused
  | sweep => simp at refused
  | _ => cases refused

/-- A generator that does not fail creates every voice that moves ask for. -/
theorem Moves.served {rules : Rules α} {effects : List (Effect α)} {next : Scheduler γ α}
    (moves : Moves rules scheduler effects next) (unfailing : Unfailing scheduler.generator) :
    Served effects := by
  -- What is refused is refused in the first move or in one of the others.
  induction moves with
  | done => exact fun _ _ => List.not_mem_nil
  | step move _ ih =>
    intro other tone refused
    rcases List.mem_append.mp refused with early | late
    · exact move.served unfailing other tone early
    · exact ih ((Moves.single move).unfailing unfailing) other tone late

/-- What a run asks for is what each of its requests asks for. -/
theorem asks_history_cons (request : Request α) (later : List (Request α)) :
    asks id (scheduler.history (request :: later)) =
      asks id (scheduler.effects request) ++ asks id ((scheduler.perform request).history later) :=
  asks_append

end Scheduler

namespace Recorder

variable {α : Type}

/-- No effect changes which attempts at a voice succeed. -/
theorem hear_admits (recorder : Recorder α) (effects : List (Effect α)) :
    (hear recorder effects).admits = recorder.admits := by
  -- An attempt is counted, and which attempts succeed was settled beforehand.
  induction effects generalizing recorder with
  | nil => rfl
  | cons effect later ih =>
    refine (ih (effect.heardBy recorder)).trans ?_
    cases effect with
    | created _ tone _ =>
      show (recorder.create tone).1.admits = _
      unfold Recorder.create
      split <;> rfl
    | _ => rfl

/-- A recorder that admits every attempt does not fail. -/
theorem unfailing {recorder : Recorder α} (admits : ∀ attempt, recorder.admits attempt = true) :
    Unfailing recorder := by
  intro effects tone
  have admitted : (hear recorder effects).admits (hear recorder effects).attempts = true := by
    rw [hear_admits]
    exact admits _
  exact ⟨_, congrArg Prod.snd (if_pos admitted)⟩

end Recorder

namespace Scheduler

variable {γ α : Type} [ExactScalar α] [ToneGenerator γ α] {scheduler : Scheduler γ α}

/-- Placing a note fails only if it asks for a voice and none is created. -/
theorem place_ok (scheduler : Scheduler γ α) {id : NoteId} {note : Note α}
    (served : Served (scheduler.placeEffects id note)) :
    ∃ id?, (scheduler.place id note).2 = .ok id? := by
  unfold placeEffects at served
  unfold place
  -- A note that is over or far ahead asks for nothing yet.
  by_cases ended : note.finish < scheduler.now
  · rw [if_pos ended]
    exact ⟨_, rfl⟩
  · rw [if_neg ended] at served ⊢
    by_cases far : scheduler.now + 2.0 * scheduler.settings.leadTime < note.start
    · rw [if_pos far]
      exact ⟨_, rfl⟩
    · rw [if_neg far] at served ⊢
      cases outcome : (ToneGenerator.create scheduler.generator (scheduler.tone note.cue)).2 with
      | error cause =>
        rw [prepareEffects_refused id outcome] at served
        exact absurd (List.mem_singleton_self _) (served id _)
      | ok voice =>
        obtain ⟨journal, prepared⟩ := prepare_created id outcome
        exact ⟨some id, congrArg (fun result => result.2.map fun _ => some id) prepared⟩

/-- Firing due timers fails only if a voice is asked for and none is created. -/
theorem Coherent.fireDue_served {rules : Rules α} (coherent : Coherent rules scheduler)
    (horizon rounds : Nat) (served : Served (scheduler.fireDueEffects horizon rounds)) :
    (scheduler.fireDue horizon rounds).2 = .ok () := by
  -- The work of each timer leaves a coherent scheduler, and its effects come before the others.
  induction rounds generalizing scheduler with
  | zero => rfl
  | succ rounds ih =>
    rw [fireDueEffects] at served
    rw [fireDue]
    cases popped : scheduler.timers.popDue? scheduler.now horizon with
    | none => rfl
    | some pair =>
      obtain ⟨action, rest⟩ := pair
      obtain ⟨first, queued, rfl, counted, due, _⟩ := Timers.popDue?_spec popped
      rw [popped] at served
      have moves := coherent.fire_moves queued counted due
      -- Of the work of timers only the placing of a note can fail.
      have worked : (({ scheduler with timers := rest }).fire first.action).2 = .ok () := by
        cases action : first.action with
        | reschedule id note =>
          obtain ⟨fired, effects⟩ := coherent.fire_reschedule queued counted action
          have placed : Served ((scheduler.unset id).placeEffects id note) := by
            intro other tone refused
            rw [← effects, ← action] at refused
            exact served other tone (List.mem_append_left _ (List.mem_append_right _ refused))
          obtain ⟨id?, outcome⟩ := place_ok (scheduler.unset id) placed
          rw [fired]
          exact congrArg (Except.map fun _ => ()) outcome
        | promote id pitch => rfl
        | sweep => rfl
      dsimp only at served ⊢
      cases fired : ({ scheduler with timers := rest }).fire first.action with
      | mk next outcome =>
        rw [fired] at moves worked served
        cases worked
        exact ih (moves.coherent coherent) fun other tone refused =>
          served other tone (List.mem_append_right _ refused)

/-- Firing due timers fails only if the generator does. -/
theorem Coherent.fireDue_ok {rules : Rules α} (coherent : Coherent rules scheduler)
    (unfailing : Unfailing scheduler.generator) (horizon rounds : Nat) :
    (scheduler.fireDue horizon rounds).2 = .ok () :=
  coherent.fireDue_served horizon rounds
    ((coherent.fireDue_moves horizon rounds).served unfailing)

end Scheduler

end Melody
