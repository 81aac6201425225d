import Melody.Proofs.Scheduler.Steps

/-! A scheduler without notes stays silent until one is scheduled or sounded. -/

namespace Melody

/-- A request that may lead to a voice. -/
def Request.begins {α : Type} : Request α → Bool
  | schedule .. | playPitch .. => true
  | _ => false

namespace Scheduler

variable {γ α : Type}

/-- No note has an entry or a timer, so that all that is left to do is to sweep. -/
structure Silent (scheduler : Scheduler γ α) : Prop where
  lanes : scheduler.lanes = []
  tickets : scheduler.tickets = []
  timers : ∀ timer ∈ scheduler.timers.queue, timer.action = .sweep

/-- Nothing is waiting or sounding in silence. -/
theorem Silent.isIdle {scheduler : Scheduler γ α} (silent : scheduler.Silent) :
    scheduler.isIdle = true := by
  -- A sweep is about no note, and there is no other timer.
  have waits : scheduler.timers.awaitsNote = false :=
    List.any_eq_false.mpr fun timer member => by simp [silent.timers timer member, Action.note?]
  rw [Scheduler.isIdle, silent.lanes, waits]
  rfl

/-- Nothing has been heard, and nothing can be heard before a note is scheduled or sounded. -/
structure Unheard (scheduler next : Scheduler γ α) : Prop where
  silent : next.Silent
  generator : next.generator = scheduler.generator

variable [Analytic α] {scheduler : Scheduler γ α}

/-- Without entries a sweep finds nothing to forget, and none is set after it. -/
theorem Silent.sweep (silent : scheduler.Silent) : scheduler.Unheard scheduler.sweep := by
  -- Without lanes nothing expires, and an idle scheduler pushes no sweep.
  have expired : scheduler.lanes.expire scheduler.now = [] := by
    rw [silent.lanes]
    rfl
  have swept : scheduler.swept.Silent := ⟨expired, silent.tickets, silent.timers⟩
  rw [sweep_eq, if_pos swept.isIdle]
  exact ⟨swept, rfl⟩

variable [ToneGenerator γ α]

omit [Analytic α] in
/-- Cancelling every note leaves silence. -/
theorem silent_cancelAll (scheduler : Scheduler γ α) : scheduler.cancelAll.Silent := by
  obtain ⟨journal, cleared⟩ := scheduler.cancelAll_eq
  rw [cleared]
  refine ⟨rfl, rfl, fun timer member => ?_⟩
  -- The timers that stay are about no note.
  have noteless : timer.action.note? = none := by simpa using (List.mem_filter.mp member).2
  exact Action.note?_eq_none.mp noteless

namespace Silent

/-- Firing due timers is no more than sweeping, and does not fail. -/
theorem fireDue (silent : scheduler.Silent) (horizon rounds : Nat) :
    scheduler.Unheard (scheduler.fireDue horizon rounds).1 ∧
      (scheduler.fireDue horizon rounds).2 = .ok () := by
  -- A sweep leaves silence behind it, so the next timer is a sweep as well.
  induction rounds generalizing scheduler with
  | zero => exact ⟨⟨silent, rfl⟩, rfl⟩
  | succ rounds ih =>
    rw [Scheduler.fireDue]
    cases popped : scheduler.timers.popDue? scheduler.now horizon with
    | none => exact ⟨⟨silent, rfl⟩, rfl⟩
    | some pair =>
      obtain ⟨action, rest⟩ := pair
      obtain ⟨timer, queued, rfl, _⟩ := Timers.popDue?_spec popped
      have sweeps := silent.timers timer (queued ▸ List.mem_cons_self ..)
      have left : Silent { scheduler with timers := rest } :=
        ⟨silent.lanes, silent.tickets, fun other member =>
          silent.timers other (queued ▸ List.mem_cons_of_mem _ member)⟩
      have swept := left.sweep
      obtain ⟨unheard, ok⟩ := ih swept.silent
      rw [sweeps]
      exact ⟨⟨unheard.silent, unheard.generator.trans swept.generator⟩, ok⟩

/-- A request that begins nothing is not heard in silence. -/
theorem perform (silent : scheduler.Silent) {request : Request α} (quiet : request.begins = false) :
    scheduler.Unheard (scheduler.perform request) := by
  have same : scheduler.Unheard scheduler := ⟨silent, rfl⟩
  -- Most requests look for an entry or a timer of a note and find none.
  cases request with
  | schedule => simp [Request.begins] at quiet
  | playPitch => simp [Request.begins] at quiet
  | releasePitch pitch =>
    have none : scheduler.releasePitch pitch = (scheduler, false) := by
      rw [releasePitch, silent.lanes]
      rfl
    rw [Scheduler.perform, none]
    exact same
  | releaseAll =>
    have none : scheduler.releaseAll = scheduler := by
      rw [releaseAll, silent.lanes]
      rfl
    rw [Scheduler.perform, none]
    exact same
  | cancel id =>
    -- There is neither a timer to take back nor a voice to destroy.
    have none : scheduler.cancel id = (scheduler, false) := by
      simp [cancel, dropTimer, dropVoice, silent.tickets, silent.lanes, Lanes.take?]
    rw [Scheduler.perform, none]
    exact same
  | cancelAll =>
    obtain ⟨journal, cleared⟩ := scheduler.cancelAll_eq
    have none : scheduler.cancelAllEffects = [] := by
      rw [cancelAllEffects, silent.lanes]
      rfl
    -- Nothing is left that could be destroyed.
    refine ⟨scheduler.silent_cancelAll, ?_⟩
    show scheduler.cancelAll.generator = _
    rw [cleared, none]
    rfl
  | advance => exact (silent.fireDue _ _).1
  | setClock now => exact ⟨⟨silent.lanes, silent.tickets, silent.timers⟩, rfl⟩

/-- Requests that begin nothing are not heard in silence. -/
theorem run (silent : scheduler.Silent) {requests : List (Request α)}
    (quiet : ∀ request ∈ requests, request.begins = false) :
    scheduler.Unheard (scheduler.run requests) := by
  -- Silence is what a request asks for and what it leaves, so it carries the induction.
  induction requests generalizing scheduler with
  | nil => exact ⟨silent, rfl⟩
  | cons request later ih =>
    have first := silent.perform (quiet request (List.mem_cons_self ..))
    have rest := ih first.silent fun next member => quiet next (List.mem_cons_of_mem _ member)
    exact ⟨rest.silent, rest.generator.trans first.generator⟩

end Silent

end Scheduler

end Melody
