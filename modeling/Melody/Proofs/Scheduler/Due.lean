import Melody.Proofs.Scalar.Field
import Melody.Proofs.Scheduler.Cancellation

/-! Timers stand in the order in which they are due, and no work sets one for the past. -/

namespace Melody

/-- A timer is due before another one, or at the same time and was set before it. -/
def Timer.Before {α : Type} [LT α] (first second : Timer α) : Prop :=
  first.due < second.due ∨ first.due = second.due ∧ first.ticket < second.ticket

namespace Timers

/-- Timers stand in the order in which they are due and in which they were set. -/
def Sorted {α : Type} [LT α] (queue : List (Timer α)) : Prop :=
  queue.Pairwise Timer.Before

/-- The timers that are due by a time and were set before a ticket was given out. -/
def dueBy {α : Type} [Scalar α] (now : α) (horizon : Nat) (queue : List (Timer α)) :
    List (Timer α) :=
  queue.filter fun timer => decide (timer.due ≤ now) && decide (timer.ticket < horizon)

variable {α : Type} [ExactScalar α] {now : α} {horizon : Nat}

/-- A timer is due when its time has come and its ticket is below the horizon. -/
theorem mem_dueBy {queue : List (Timer α)} {timer : Timer α} :
    timer ∈ dueBy now horizon queue ↔ timer ∈ queue ∧ timer.due ≤ now ∧ timer.ticket < horizon := by
  simp [dueBy, List.mem_filter]

/-- A timer that was set last finds its place behind those that are due no later. -/
theorem Sorted.insert {queue : List (Timer α)} (sorted : Sorted queue) {timer : Timer α}
    (latest : ∀ other ∈ queue, other.ticket < timer.ticket) : Sorted (insert timer queue) := by
  induction queue with
  | nil => exact List.pairwise_singleton _ _
  | cons next later ih =>
    have behind := List.pairwise_cons.mp sorted
    unfold Timers.insert
    by_cases earlier : Scalar.order timer.due next.due = .lt
    · -- It stops before the first timer that is due later, and so before all behind that one.
      rw [if_pos earlier]
      have first : timer.due < next.due := Scalar.order_eq_lt.mp earlier
      refine List.pairwise_cons.mpr ⟨fun other member => ?_, sorted⟩
      rcases List.mem_cons.mp member with rfl | inside
      · exact Or.inl first
      · rcases behind.1 other inside with below | ⟨same, _⟩
        · exact Or.inl (first.trans below)
        · exact Or.inl (same ▸ first)
    · -- It passes a timer that is due no later and was set before it.
      rw [if_neg earlier]
      have passed : next.due ≤ timer.due :=
        not_lt.mp fun below => earlier (Scalar.order_eq_lt.mpr below)
      have rest := ih behind.2 fun other member => latest other (List.mem_cons_of_mem _ member)
      refine List.pairwise_cons.mpr ⟨fun other member => ?_, rest⟩
      rcases mem_insert.mp member with rfl | inside
      · rcases lt_or_eq_of_le passed with below | same
        · exact Or.inl below
        · exact Or.inr ⟨same, latest next (List.mem_cons_self ..)⟩
      · exact behind.1 other inside

/-- Timers in order, with a count of tickets beyond all of theirs. -/
structure Ranked (timers : Timers α) : Prop where
  sorted : Sorted timers.queue
  bounded : ∀ timer ∈ timers.queue, timer.ticket < timers.tickets

namespace Ranked

variable {timers : Timers α}

/-- A timer that is set comes to stand in order. -/
theorem push (ranked : timers.Ranked) (due : α) (action : Action α) :
    (timers.push due action).1.Ranked where
  sorted := ranked.sorted.insert ranked.bounded
  bounded timer member := by
    rcases mem_insert.mp member with rfl | inside
    · exact Nat.lt_succ_self _
    · exact Nat.lt_succ_of_lt (ranked.bounded timer inside)

/-- Timers that are left when others go stay in order. -/
theorem sublist (ranked : timers.Ranked) {rest : Timers α}
    (left : rest.queue.Sublist timers.queue) (counted : rest.tickets = timers.tickets) :
    rest.Ranked where
  sorted := ranked.sorted.sublist left
  bounded timer member := counted ▸ ranked.bounded timer (left.subset member)

end Ranked

/-- A timer that a selection leaves out does not show in it when it is set. -/
theorem filter_insert_of_neg (keep : Timer α → Bool) {timer : Timer α}
    (dropped : keep timer = false) (queue : List (Timer α)) :
    (insert timer queue).filter keep = queue.filter keep := by
  -- Wherever the timer is put, it is left out again.
  induction queue with
  | nil => simp [insert, dropped]
  | cons next later ih =>
    unfold insert
    by_cases earlier : Scalar.order timer.due next.due = .lt
    · rw [if_pos earlier, List.filter_cons_of_neg (by simp [dropped])]
    · rw [if_neg earlier, List.filter_cons, List.filter_cons, ih]

/-- Timers to which others have been added one by one, none of them due before a time. -/
inductive Grown (now : α) : Timers α → Timers α → Prop where
  | refl {timers : Timers α} : Grown now timers timers
  | push {timers next : Timers α} (grown : Grown now timers next) {due : α} (late : now ≤ due)
      (action : Action α) : Grown now timers (next.push due action).1

namespace Grown

variable {timers next last : Timers α}

/-- Timers that have grown may grow further. -/
theorem trans (first : Grown now timers next) (second : Grown now next last) :
    Grown now timers last := by
  induction second with
  | refl => exact first
  | push _ late action ih => exact ih.push late action

/-- Tickets are given out and not taken back. -/
theorem tickets_le (grown : Grown now timers next) : timers.tickets ≤ next.tickets := by
  induction grown with
  | refl => exact Nat.le_refl _
  | push _ _ _ ih => exact Nat.le_succ_of_le ih

/-- No timer is lost. -/
theorem subset (grown : Grown now timers next) : ∀ timer ∈ timers.queue, timer ∈ next.queue := by
  induction grown with
  | refl => exact fun _ member => member
  | push _ _ _ ih => exact fun timer member => mem_insert.mpr (Or.inr (ih timer member))

/-- What has been added is not due before the time and has a ticket of its own. -/
theorem mem_cases (grown : Grown now timers next) {timer : Timer α} (member : timer ∈ next.queue) :
    timer ∈ timers.queue ∨ now ≤ timer.due ∧ timers.tickets ≤ timer.ticket := by
  -- A timer is either old, or the one just pushed, or one pushed before.
  induction grown with
  | refl => exact Or.inl member
  | @push middle grown due late action ih =>
    rcases mem_insert.mp member with rfl | inside
    · exact Or.inr ⟨late, grown.tickets_le⟩
    · exact ih inside

/-- Timers that grow stay in order. -/
theorem ranked (grown : Grown now timers next) (ranked : timers.Ranked) : next.Ranked := by
  induction grown with
  | refl => exact ranked
  | push _ _ action ih => exact ih.push _ action

/-- What has been added does not show among the timers set before a ticket was given out. -/
theorem dueBy_eq (grown : Grown now timers next) (known : horizon ≤ timers.tickets) :
    dueBy now horizon next.queue = dueBy now horizon timers.queue := by
  induction grown with
  | refl => rfl
  | @push middle grown due late action ih =>
    -- The ticket of a timer that is set now lies beyond the horizon.
    have beyond : ¬ middle.tickets < horizon := by
      have counted := grown.tickets_le
      omega
    rw [← ih]
    exact filter_insert_of_neg _ (by simp [beyond]) _

end Grown

/-- The first of the timers due is the head of a queue whose later timers are not overdue. -/
theorem dueBy_eq_cons {queue later : List (Timer α)} {timer : Timer α} (sorted : Sorted queue)
    (late : ∀ other ∈ queue, horizon ≤ other.ticket → now ≤ other.due)
    (due : dueBy now horizon queue = timer :: later) :
    ∃ rest, queue = timer :: rest ∧ dueBy now horizon rest = later := by
  cases queue with
  | nil => contradiction
  | cons head rest =>
    by_cases first : head.due ≤ now ∧ head.ticket < horizon
    · -- The head is due itself.
      rw [dueBy, List.filter_cons_of_pos (by simp [first])] at due
      obtain ⟨rfl, behind⟩ := List.cons.inj due
      exact ⟨rest, rfl, behind⟩
    · -- Otherwise it would be due after a timer that it stands before.
      exfalso
      have member : timer ∈ dueBy now horizon (head :: rest) := due ▸ List.mem_cons_self ..
      obtain ⟨inside, reached, older⟩ := mem_dueBy.mp member
      rcases List.mem_cons.mp inside with rfl | behind
      · exact first ⟨reached, older⟩
      · have before := (List.pairwise_cons.mp sorted).1 timer behind
        have early : head.due ≤ now := by
          rcases before with below | ⟨same, _⟩
          · exact below.le.trans reached
          · exact same ▸ reached
        have newer : horizon ≤ head.ticket := Nat.le_of_not_lt fun older => first ⟨early, older⟩
        have reaches := late head (List.mem_cons_self ..) newer
        rcases before with below | ⟨_, set⟩
        · exact absurd (below.trans_le reached) (not_lt.mpr reaches)
        · omega

/-- Nothing is taken out when none of the timers set before a ticket is due. -/
theorem popDue?_eq_none {timers : Timers α} (none : dueBy now horizon timers.queue = []) :
    timers.popDue? now horizon = Option.none := by
  -- A timer that is taken would be among those that are due.
  cases popped : timers.popDue? now horizon with
  | none => rfl
  | some pair =>
    obtain ⟨timer, queued, _, _, reached, older⟩ := popDue?_spec popped
    have member : timer ∈ dueBy now horizon timers.queue :=
      mem_dueBy.mpr ⟨queued ▸ List.mem_cons_self .., not_lt.mp reached, older⟩
    rw [none] at member
    contradiction

/-- The first of the timers due is taken out, and the others stay due. -/
theorem popDue?_eq_some {timers : Timers α} {timer : Timer α} {later : List (Timer α)}
    (sorted : Sorted timers.queue)
    (late : ∀ other ∈ timers.queue, horizon ≤ other.ticket → now ≤ other.due)
    (due : dueBy now horizon timers.queue = timer :: later) :
    ∃ rest : Timers α, timers.popDue? now horizon = some (timer.action, rest) ∧
      timers.queue = timer :: rest.queue ∧ rest.tickets = timers.tickets ∧
      dueBy now horizon rest.queue = later := by
  obtain ⟨rest, queued, behind⟩ := dueBy_eq_cons sorted late due
  obtain ⟨_, reached, older⟩ := mem_dueBy.mp (due ▸ List.mem_cons_self .. :
    timer ∈ dueBy now horizon timers.queue)
  -- The first of those that are due is at the head of the queue.
  have ready : ¬ (now < timer.due ∨ horizon ≤ timer.ticket) := by
    rw [not_or]
    exact ⟨not_lt.mpr reached, by omega⟩
  refine ⟨{ timers with queue := rest }, ?_, queued, rfl, behind⟩
  rw [popDue?, queued]
  exact if_neg ready

end Timers

namespace Scheduler

variable {γ α : Type} [ExactScalar α]

/-- A note is put off unless it lies within twice the lead time. -/
theorem near_iff {scheduler : Scheduler γ α} {start : α} :
    ¬ scheduler.now + 2.0 * scheduler.settings.leadTime < start ↔
      start ≤ scheduler.now + 2 * scheduler.settings.leadTime := by
  rw [Scalar.two_eq, not_lt]

/-- Work under which the clock stands still and timers are added for later times only. -/
structure Onward (scheduler next : Scheduler γ α) : Prop where
  now : next.now = scheduler.now
  settings : next.settings = scheduler.settings
  timers : Timers.Grown scheduler.now scheduler.timers next.timers

namespace Onward

variable {scheduler next last : Scheduler γ α}

/-- No work is done. -/
theorem refl (scheduler : Scheduler γ α) : scheduler.Onward scheduler :=
  ⟨rfl, rfl, .refl⟩

/-- Work may be followed by work. -/
theorem trans (first : scheduler.Onward next) (second : next.Onward last) :
    scheduler.Onward last where
  now := second.now.trans first.now
  settings := second.settings.trans first.settings
  timers := first.timers.trans (first.now ▸ second.timers)

/-- A timer is set for a note. -/
theorem setTimer (scheduler : Scheduler γ α) (id : NoteId) {due : α} (late : scheduler.now ≤ due)
    (action : Action α) : scheduler.Onward (scheduler.setTimer id due action) :=
  ⟨rfl, rfl, Timers.Grown.refl.push late action⟩

/-- A sweep is set if none is ahead. -/
theorem ensureSweep (scheduler : Scheduler γ α) (forward : scheduler.settings.Forward) :
    scheduler.Onward scheduler.ensureSweep := by
  unfold Scheduler.ensureSweep
  -- A sweep is set up once, at a later time.
  by_cases pending : scheduler.sweepPending = true
  · rw [if_pos pending]
    exact .refl scheduler
  · rw [if_neg pending]
    have late : scheduler.now ≤ scheduler.now + scheduler.settings.sweepInterval :=
      le_add_of_nonneg_right forward.interval
    exact ⟨rfl, rfl, Timers.Grown.refl.push late .sweep⟩

variable [ToneGenerator γ α]

/-- Letting a note sound sets no timer. -/
theorem promote (scheduler : Scheduler γ α) (pitch : Pitch) (id : NoteId) :
    scheduler.Onward (scheduler.promote pitch id) := by
  -- Promoting sets no timer.
  cases taken : (scheduler.lanes.find? pitch).bind (·.takeFuture? id) with
  | none =>
    have same : scheduler.promote pitch id = scheduler := by rw [Scheduler.promote, taken]
    rw [same]
    exact .refl scheduler
  | some pair =>
    obtain ⟨journal, told⟩ := promote_told taken
    rw [told]
    exact ⟨rfl, rfl, .refl⟩

/-- A voice that is created sets a timer for its start, if that is still to come. -/
theorem prepare (scheduler : Scheduler γ α) (forward : scheduler.settings.Forward) (id : NoteId)
    (cue : Cue α) : scheduler.Onward
      (scheduler.prepare id cue.pitch cue.start cue.finish cue.velocity cue.pan).1 := by
  cases outcome : (ToneGenerator.create scheduler.generator (scheduler.tone cue)).2 with
  | error cause =>
    rw [prepare_refused id outcome]
    exact ⟨rfl, rfl, .refl⟩
  | ok voice =>
    obtain ⟨journal, prepared⟩ := prepare_created id outcome
    have entered : scheduler.Onward (scheduler.entered id cue voice journal) := ⟨rfl, rfl, .refl⟩
    rw [prepared]
    -- A note that has begun sounds at once, and any other waits for its start.
    by_cases begun : (scheduler.tone cue).start ≤ scheduler.now
    · rw [if_pos begun]
      have promoted := entered.trans (promote _ cue.pitch id)
      exact promoted.trans (ensureSweep _ (promoted.settings ▸ forward))
    · rw [if_neg begun]
      have late : (scheduler.entered id cue voice journal).now ≤ (scheduler.tone cue).start :=
        le_of_lt (not_le.mp begun)
      have booked := entered.trans (setTimer _ id late (.promote id cue.pitch))
      exact booked.trans (ensureSweep _ (booked.settings ▸ forward))

/-- A note that is put off waits for a time that is still to come. -/
theorem place (scheduler : Scheduler γ α) (forward : scheduler.settings.Forward) (id : NoteId)
    (note : Note α) : scheduler.Onward (scheduler.place id note).1 := by
  unfold Scheduler.place
  by_cases ended : note.finish < scheduler.now
  · rw [if_pos ended]
    exact .refl scheduler
  · rw [if_neg ended]
    by_cases far : scheduler.now + 2.0 * scheduler.settings.leadTime < note.start
    · rw [if_pos far]
      -- Two lead times are left, of which the timer leaves one.
      have late : scheduler.now ≤ note.start - scheduler.settings.leadTime := by
        have lead := forward.lead
        rw [Scalar.two_eq] at far
        linarith
      exact setTimer scheduler id late (.reschedule id note)
    · rw [if_neg far]
      exact prepare scheduler forward id note.cue

end Onward

end Scheduler

end Melody
