import Melody.Proofs.Scheduler.Steps

/-! What is read off the effects of a scheduler when its commands to voices are passed over. -/

namespace Melody

/-- A reading of effects that gets nothing from a command. -/
def Effect.Deaf {α β : Type} (read : Effect α → Option β) : Prop :=
  ∀ cause owner voice command, read (.commanded cause owner voice command) = none

namespace Scheduler

variable {γ α β δ : Type} {read : Effect α → Option β}

/-- Nothing is read off commands. -/
theorem filterMap_commands (deaf : Effect.Deaf read) (items : List δ) (cause owner : δ → NoteId)
    (voice : δ → Nat) (command : δ → Command α) :
    (items.map fun item => Effect.commanded (cause item) (owner item) (voice item)
      (command item)).filterMap read = [] := by
  refine List.filterMap_eq_nil_iff.mpr fun effect member => ?_
  obtain ⟨item, _, rfl⟩ := List.mem_map.mp member
  exact deaf ..

/-- Nothing is read off the dropping of a note. -/
theorem filterMap_cancelEffects (deaf : Effect.Deaf read) (scheduler : Scheduler γ α)
    (id : NoteId) : (scheduler.cancelEffects id).filterMap read = [] :=
  filterMap_commands deaf (scheduler.lanes.take? id).toList (fun _ => id) (·.1.id) (·.1.voice) _

/-- Nothing is read off the dropping of every note. -/
theorem filterMap_cancelAllEffects (deaf : Effect.Deaf read) (scheduler : Scheduler γ α) :
    scheduler.cancelAllEffects.filterMap read = [] :=
  filterMap_commands deaf _ Entry.id Entry.id Entry.voice _

variable [Analytic α] (scheduler : Scheduler γ α)

/-- Nothing is read off the fading of a note. -/
theorem filterMap_fadeEffects (deaf : Effect.Deaf read) (cause : Entry α → NoteId)
    (seated : Option (Entry α)) : (scheduler.fadeEffects cause seated).filterMap read = [] :=
  filterMap_commands deaf _ cause Entry.id Entry.voice _

/-- Only its creation is read off a voice that has been created. -/
theorem filterMap_voiceEffects (deaf : Effect.Deaf read) (id : NoteId) (cue : Cue α) (voice : Nat)
    (displaced : Option (Entry α)) :
    (scheduler.voiceEffects id cue voice displaced).filterMap read =
      (read (.created id (scheduler.tone cue) (some voice))).toList := by
  have part : ((scheduler.part cue).map (Effect.commanded id id voice)).filterMap read = [] :=
    filterMap_commands deaf _ (fun _ => id) (fun _ => id) (fun _ => voice) _
  -- The commands to the new voice come between its creation and the fading of another one.
  rw [voiceEffects, List.filterMap_append, scheduler.filterMap_fadeEffects deaf, List.append_nil,
    List.filterMap_cons, part]
  cases read (.created id (scheduler.tone cue) (some voice)) with
  | none => rfl
  | some reading => rfl

variable [ToneGenerator γ α] {scheduler} {rules : Rules α} {effects : List (Effect α)}
  {next : Scheduler γ α}

/-- Nothing is read off a move if nothing is read off timers and off voices that are allowed. -/
theorem Move.filterMap_eq_nil (move : Move rules scheduler effects next) (deaf : Effect.Deaf read)
    (timers : ∀ timer, read (.fired timer) = none)
    (created : ∀ id cue tone voice?, rules.fit id cue → read (.created id tone voice?) = none) :
    effects.filterMap read = [] := by
  -- Each move has timers, commands or a creation as its effects, none of which is read.
  cases move with
  | withdraw _ _ _ => simp [deaf _ _ _ _]
  | clear => exact scheduler.filterMap_cancelAllEffects deaf
  | fade _ _ _ _ => simp [fadeEffect, deaf _ _ _ _]
  | refuse _ _ fit _ => simp [created _ _ _ _ fit]
  | start _ _ fit _ _ _ _ _ =>
    rw [scheduler.filterMap_voiceEffects deaf, created _ _ _ _ fit, Option.toList_none]
  | book _ _ fit _ _ _ _ =>
    rw [scheduler.filterMap_voiceEffects deaf, created _ _ _ _ fit, Option.toList_none]
  | wake _ _ _ => simp [timers]
  | promote _ _ _ _ _ _ _ =>
    rw [List.filterMap_cons, timers]
    exact scheduler.filterMap_fadeEffects deaf _ _
  | sweep _ _ _ _ => simp [timers]
  | _ => rfl

/-- Moves of which no effect is read give an empty reading. -/
theorem Moves.filterMap_eq_nil (moves : Moves rules scheduler effects next)
    (deaf : Effect.Deaf read) (timers : ∀ timer, read (.fired timer) = none)
    (created : ∀ id cue tone voice?, rules.fit id cue → read (.created id tone voice?) = none) :
    effects.filterMap read = [] := by
  induction moves with
  | done => rfl
  | step move _ ih =>
    rw [List.filterMap_append, move.filterMap_eq_nil deaf timers created, ih, List.append_nil]

end Scheduler

end Melody
