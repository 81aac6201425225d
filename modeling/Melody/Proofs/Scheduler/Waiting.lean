import Melody.Proofs.Scheduler.Asking

/-! Nothing happens to a note that has been put off until its timer fires. -/

namespace Melody

namespace Timers

variable {α : Type}

/-- Timers some of which may have gone, and others have been set with tickets given out since. -/
structure Continues (timers next : Timers α) : Prop where
  counted : timers.tickets ≤ next.tickets
  known : ∀ timer ∈ next.queue, timer ∈ timers.queue ∨ timers.tickets ≤ timer.ticket

namespace Continues

variable {timers next last : Timers α}

/-- A queue continues itself. -/
theorem refl (timers : Timers α) : timers.Continues timers :=
  ⟨Nat.le_refl _, fun _ member => Or.inl member⟩

/-- What continues a continued queue continues the queue. -/
theorem trans (first : timers.Continues next) (second : next.Continues last) :
    timers.Continues last where
  counted := Nat.le_trans first.counted second.counted
  known timer member := by
    rcases second.known timer member with stays | newer
    · exact first.known timer stays
    · exact Or.inr (Nat.le_trans first.counted newer)

/-- Some timers go. -/
theorem of_subset (left : ∀ timer ∈ next.queue, timer ∈ timers.queue)
    (counted : next.tickets = timers.tickets) : timers.Continues next :=
  ⟨counted ▸ Nat.le_refl _, fun timer member => Or.inl (left timer member)⟩

/-- A timer is set. -/
theorem push [Scalar α] (timers : Timers α) (due : α) (action : Action α) :
    timers.Continues (timers.push due action).1 where
  counted := Nat.le_succ _
  known timer member := by
    rcases mem_insert.mp member with rfl | stays
    · exact Or.inr (Nat.le_refl _)
    · exact Or.inl stays

end Continues

end Timers

namespace Scheduler

variable {γ α : Type} [Analytic α] {rules : Rules α} {scheduler next : Scheduler γ α} {id : NoteId}

/-- Making sure of a sweep takes back no timer and reuses no ticket. -/
theorem continues_ensureSweep {timers : Timers α}
    (continues : timers.Continues scheduler.timers) :
    timers.Continues scheduler.ensureSweep.timers := by
  unfold ensureSweep
  split
  · exact continues
  · exact continues.trans (.push ..)

variable [ToneGenerator γ α]

/-- No move reuses a ticket. -/
theorem Move.continues {effects : List (Effect α)} (move : Move rules scheduler effects next) :
    scheduler.timers.Continues next.timers := by
  -- A move filters timers out or sets one with the next ticket, a note's before that of a sweep.
  have unset : ∀ id, scheduler.timers.Continues (scheduler.unset id).timers := fun id =>
    .of_subset (fun _ member => List.mem_of_mem_filter member) rfl
  cases move with
  | clock _ => exact .refl _
  | issue => exact .refl _
  | forget _ => exact unset _
  | withdraw _ _ _ => exact unset _
  | clear => exact .of_subset (fun _ member => List.mem_of_mem_filter member) rfl
  | fade _ _ _ _ => exact .refl _
  | defer _ _ _ _ => exact .push ..
  | refuse _ _ _ _ => exact .refl _
  | start _ _ _ _ _ _ _ _ => exact continues_ensureSweep (.refl _)
  | book _ _ _ _ _ _ _ => exact continues_ensureSweep (.push ..)
  | wake _ _ _ => exact unset _
  | promote _ _ _ _ _ _ _ => exact unset _
  | @sweep timer rest queued counted due action =>
    have popped : scheduler.timers.Continues rest :=
      .of_subset (fun other member => queued ▸ List.mem_cons_of_mem _ member) counted
    rcases sweep_cases ({ scheduler with timers := rest }) with same | same
    · rw [same]
      exact popped
    · rw [same]
      exact continues_ensureSweep popped

/-- No moves reuse a ticket. -/
theorem Moves.continues {effects : List (Effect α)} (moves : Moves rules scheduler effects next) :
    scheduler.timers.Continues next.timers := by
  induction moves with
  | done => exact .refl _
  | step move _ ih => exact move.continues.trans ih

/-- No move concerns a note that is put off before and after it. -/
theorem Move.spared {effects : List (Effect α)} (coherent : Coherent rules scheduler)
    {timer : Timer α} {note : Note α} (queued : timer ∈ scheduler.timers.queue)
    (action : timer.action = .reschedule id note) (move : Move rules scheduler effects next)
    (stays : timer ∈ next.timers.queue) : ∀ effect ∈ effects, ¬ effect.Concerns id := by
  -- The note has no voice, and a move that gives a note one finds it without a timer.
  have noted : timer.action.note? = some id := by rw [action]; rfl
  have absent : ∀ {slot others}, scheduler.slots.Perm others → slot ∈ others →
      slot.entry.id ≠ id := fun perm member =>
    coherent.apart timer queued id note action _ (perm.mem_iff.mpr member)
  have other : ∀ {other}, scheduler.Lacks other → other ≠ id := by
    rintro other lacks rfl
    exact lacks.untimed timer queued noted
  have unset : ∀ {other}, timer ∈ (scheduler.unset other).timers.queue → other ≠ id := by
    rintro other member rfl
    have apart := (List.mem_filter.mp member).2
    simp [noted] at apart
  cases move with
  | clock _ => simp
  | issue => simp
  | forget _ => simp
  | defer _ _ _ _ => simp
  | refuse lacks _ _ _ =>
    rintro effect (_ | ⟨_, ⟨⟩⟩)
    exact other lacks
  | withdraw regular slots named =>
    have apart := absent slots (List.mem_cons_self ..)
    rintro effect (_ | ⟨_, ⟨⟩⟩)
    exact fun concerned => concerned.elim (named ▸ apart) apart
  | clear =>
    intro effect member
    obtain ⟨entry, inside, rfl⟩ := List.mem_map.mp member
    rw [← Lanes.slots_entries] at inside
    obtain ⟨slot, present, rfl⟩ := List.mem_map.mp inside
    have apart := coherent.apart timer queued id note action slot present
    exact fun concerned => concerned.elim apart apart
  | fade regular sounds before after =>
    have apart := absent before (List.mem_cons_self ..)
    rintro effect (_ | ⟨_, ⟨⟩⟩)
    exact fun concerned => concerned.elim apart apart
  | start lacks _ _ _ _ _ before after =>
    refine voiceEffects_apart (other lacks) fun entry seated => ?_
    exact absent before (List.mem_append_left _ (List.mem_map_of_mem (by simp [seated])))
  | book lacks _ _ _ _ _ after => exact voiceEffects_apart (other lacks) (by simp)
  | wake _ due woken =>
    rintro effect (_ | ⟨_, ⟨⟩⟩)
    -- The timer that fires is gone, so it is about another note.
    show ¬ Action.note? _ = _
    rw [woken]
    exact fun same => unset stays (Option.some.inj same)
  | promote _ due promoted named regular before after =>
    have apart := unset stays
    rintro effect (_ | ⟨_, faded⟩)
    · show ¬ Action.note? _ = _
      rw [promoted]
      exact fun same => apart (Option.some.inj same)
    · refine fadeEffects_apart (fun entry seated => ⟨apart, ?_⟩) effect faded
      exact absent before (List.mem_cons_of_mem _
        (List.mem_append_left _ (List.mem_map_of_mem (by simp [seated]))))
  | sweep _ _ _ swept =>
    rintro effect (_ | ⟨_, ⟨⟩⟩)
    show ¬ Action.note? _ = _
    rw [swept]
    simp [Action.note?]

/-- No moves concern a note that is put off before and after them. -/
theorem Moves.spared {effects : List (Effect α)} (coherent : Coherent rules scheduler)
    {timer : Timer α} {note : Note α} (queued : timer ∈ scheduler.timers.queue)
    (action : timer.action = .reschedule id note) (moves : Moves rules scheduler effects next)
    (stays : timer ∈ next.timers.queue) : ∀ effect ∈ effects, ¬ effect.Concerns id := by
  induction moves with
  | done => simp
  | @step scheduler middle last effects later move rest ih =>
    -- Its ticket is an old one, so the timer has been there all the time.
    have older := Nat.lt_of_lt_of_le (coherent.linked.bounded timer queued) move.continues.counted
    have between : timer ∈ middle.timers.queue := by
      rcases rest.continues.known timer stays with present | newer
      · exact present
      · omega
    intro effect member
    rcases List.mem_append.mp member with early | late
    · exact move.spared coherent queued action between effect early
    · exact ih (coherent.of_move move) between stays effect late

end Scheduler

/-- A request takes back what is held for a note. -/
def Request.drops {α : Type} (id : NoteId) : Request α → Bool
  | schedule _ (some other) => other == id
  | cancel other => other == id
  | cancelAll => true
  | schedule _ none | playPitch .. | releasePitch _ | releaseAll | advance | setClock _ => false

/-- A request schedules a note under a number that is given. -/
def Request.renews {α : Type} (id : NoteId) : Request α → Bool
  | schedule _ (some other) => other == id
  | schedule _ none | playPitch .. | releasePitch _ | releaseAll | cancel _ | cancelAll | advance
  | setClock _ => false

namespace Scheduler

section Timing

variable {γ α : Type} [ToneGenerator γ α]

/-- Dropping every note takes back their timers. -/
theorem cancelAll_timers (scheduler : Scheduler γ α) :
    scheduler.cancelAll.timers = scheduler.timers.dropNotes := by
  obtain ⟨journal, told⟩ := destroy_eq ({ scheduler with
    timers := scheduler.timers.dropNotes, tickets := [], lanes := [] })
    (scheduler.lanes.flatMap Lane.entries)
  exact congrArg Scheduler.timers told

variable [Analytic α] {rules : Rules α} {scheduler : Scheduler γ α}

/-- Fading out the note that sounds in a lane leaves the timers alone. -/
theorem releaseLane_timers (scheduler : Scheduler γ α) (lane : Lane α) :
    (scheduler.releaseLane lane).1.timers = scheduler.timers := by
  unfold releaseLane
  split
  · rfl
  · split <;> rfl

/-- Fading out every note that sounds leaves the timers alone. -/
theorem releaseAll_timers (scheduler : Scheduler γ α) :
    scheduler.releaseAll.timers = scheduler.timers := by
  -- The lanes are released one by one, each on the scheduler that the one before left.
  suffices general : ∀ (lanes : Lanes α) (current : Scheduler γ α),
      (lanes.foldl (fun scheduler lane => (scheduler.releaseLane lane).1) current).timers =
        current.timers from general scheduler.lanes scheduler
  intro lanes
  induction lanes with
  | nil => exact fun _ => rfl
  | cons lane later ih => exact fun current => (ih _).trans (releaseLane_timers current lane)

/-- Cancelling a note takes no time. -/
theorem Coherent.cancel_now (coherent : Coherent rules scheduler) (id : NoteId) :
    (scheduler.cancel id).1.now = scheduler.now := by
  have dropped := congrArg Scheduler.now (coherent.dropTimer_eq id)
  simp only [cancel, dropVoice]
  split <;> exact dropped

/-- Cancelling a note takes back its timer and no other. -/
theorem Coherent.cancel_timers (coherent : Coherent rules scheduler) (id : NoteId) :
    (scheduler.cancel id).1.timers = scheduler.timers.without id := by
  have dropped := congrArg Scheduler.timers (coherent.dropTimer_eq id)
  simp only [cancel, dropVoice]
  split <;> exact dropped

end Timing

variable {γ α : Type} [ExactScalar α] [ToneGenerator γ α] {rules : Rules α}
  {scheduler : Scheduler γ α} {id : NoteId}

/-- A timer about a note stays unless the note is dropped or the timer is due. -/
theorem Coherent.mem_perform (coherent : Coherent rules scheduler)
    (forward : scheduler.settings.Forward) {timer : Timer α}
    (queued : timer ∈ scheduler.timers.queue) (noted : timer.action.note? = some id)
    {request : Request α} (kept : request.drops id = false)
    (ahead : request = .advance → scheduler.now < timer.due) :
    timer ∈ (scheduler.perform request).timers.queue := by
  have cancelled : ∀ other, (other == id) = false →
      timer ∈ (scheduler.cancel other).1.timers.queue := by
    intro other apart
    rw [coherent.cancel_timers]
    have apart : id ≠ other := fun same => by simp [same] at apart
    exact List.mem_filter.mpr ⟨queued, by simp [noted, apart]⟩
  -- Requests that do not drop the note only add timers, and an advance comes too early.
  cases request with
  | schedule note id? =>
    cases id? with
    | none =>
      have placed := Onward.place scheduler.freshId.1 forward scheduler.freshId.2 note
      exact placed.timers.subset timer queued
    | some other =>
      have settings := (coherent.cancel_move other).1.settings_eq
      have placed := Onward.place (scheduler.cancel other).1 (settings ▸ forward) other note
      exact placed.timers.subset timer (cancelled other kept)
  | playPitch pitch velocity =>
    show timer ∈ (scheduler.playPitch pitch velocity).1.timers.queue
    unfold playPitch
    split
    · exact queued
    · have prepared := Onward.prepare scheduler.freshId.1 forward scheduler.freshId.2
        (scheduler.heldCue pitch velocity)
      exact prepared.timers.subset timer queued
  | releasePitch pitch =>
    show timer ∈ (scheduler.releasePitch pitch).1.timers.queue
    unfold releasePitch
    split
    · exact queued
    · rw [releaseLane_timers]
      exact queued
  | releaseAll =>
    show timer ∈ scheduler.releaseAll.timers.queue
    rw [releaseAll_timers]
    exact queued
  | cancel other => exact cancelled other kept
  | cancelAll => contradiction
  | advance => exact coherent.mem_fireDue forward _ _ queued (ahead rfl)
  | setClock now => exact queued

end Scheduler

end Melody
