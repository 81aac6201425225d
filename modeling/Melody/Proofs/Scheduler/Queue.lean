import Mathlib.Data.List.Perm.Basic
import Mathlib.Data.List.Nodup
import Melody.Scheduler.Timers

/-! The timers in step with the table that says which timer each note waits for. -/

namespace Melody

/-- Only a sweep is about no note. -/
@[simp] theorem Action.note?_eq_none {α : Type} {action : Action α} :
    action.note? = none ↔ action = .sweep := by
  cases action <;> simp [note?]

namespace Timers

variable {α : Type}

/-- A queue with one more timer holds that timer beside the ones before. -/
theorem insert_perm [Scalar α] (timer : Timer α) (queue : List (Timer α)) :
    (insert timer queue).Perm (timer :: queue) := by
  induction queue with
  | nil => exact List.Perm.refl _
  | cons next later ih =>
    -- The timer stops before the first one that is due later, and passes the others.
    by_cases earlier : Scalar.order timer.due next.due = .lt
    · simp [insert, earlier]
    · simp only [insert, if_neg earlier]
      exact (ih.cons next).trans (List.Perm.swap ..)

/-- A due timer that is taken out was the first of the queue. -/
theorem popDue?_spec [Scalar α] {timers rest : Timers α} {now : α} {horizon : Nat}
    {action : Action α} (popped : timers.popDue? now horizon = some (action, rest)) :
    ∃ timer, timers.queue = timer :: rest.queue ∧ timer.action = action ∧
      rest.tickets = timers.tickets ∧ ¬ now < timer.due ∧ timer.ticket < horizon := by
  unfold popDue? at popped
  cases queued : timers.queue with
  | nil => simp [queued] at popped
  | cons timer later =>
    -- Only the head is looked at, which waits if it is not due or was set too late.
    by_cases waits : now < timer.due ∨ horizon ≤ timer.ticket
    · simp [queued, if_pos waits] at popped
    · simp only [queued, if_neg waits, Option.some.injEq, Prod.mk.injEq] at popped
      obtain ⟨rfl, rfl⟩ := popped
      rw [not_or] at waits
      exact ⟨timer, rfl, rfl, rfl, waits.1, Nat.lt_of_not_le waits.2⟩

/-- The timers without those of a note. -/
def without (timers : Timers α) (id : NoteId) : Timers α :=
  { timers with queue := timers.queue.filter (·.action.note? != some id) }

/-- The sweeps among timers. -/
def sweepCount (timers : Timers α) : Nat :=
  timers.queue.countP (·.action.note?.isNone)

/-- Taking back what a note waits for takes back no sweep. -/
theorem sweepCount_without (timers : Timers α) (id : NoteId) :
    (timers.without id).sweepCount = timers.sweepCount := by
  simp only [sweepCount, without, List.countP_filter]
  -- A sweep is about no note, so it passes the filter.
  apply List.countP_congr
  intro timer _
  cases timer.action <;> simp [Action.note?]

/-- Taking back the timers of all notes takes back no sweep. -/
theorem sweepCount_dropNotes (timers : Timers α) :
    timers.dropNotes.sweepCount = timers.sweepCount := by
  simp [sweepCount, dropNotes, List.countP_filter]

/-- Setting a timer adds a sweep if it is one. -/
theorem sweepCount_push [Scalar α] (timers : Timers α) (due : α) (action : Action α) :
    (timers.push due action).1.sweepCount =
      timers.sweepCount + if action.note?.isNone then 1 else 0 := by
  show (insert _ _).countP _ = _
  rw [(insert_perm _ _).countP_eq, List.countP_cons]
  rfl

/-- Every timer has a ticket of its own, and the table has each note that a timer is about. -/
structure Linked (timers : Timers α) (tickets : List (NoteId × Nat)) : Prop where
  numbered : (timers.queue.map Timer.ticket).Nodup
  bounded : ∀ timer ∈ timers.queue, timer.ticket < timers.tickets
  single : (tickets.map Prod.fst).Nodup
  listed : ∀ id ticket, (id, ticket) ∈ tickets ↔
    ∃ timer ∈ timers.queue, timer.ticket = ticket ∧ timer.action.note? = some id

namespace Linked

variable {timers : Timers α} {tickets : List (NoteId × Nat)}

/-- No timers are linked to an empty table. -/
theorem empty : Linked ({} : Timers α) [] := by
  constructor <;> simp

/-- Two entries of the table for one note are the same. -/
theorem ticket_eq (linked : Linked timers tickets) {id : NoteId} {first second : Nat}
    (one : (id, first) ∈ tickets) (other : (id, second) ∈ tickets) : first = second := by
  have same := List.inj_on_of_nodup_map linked.single one other rfl
  simpa using same

/-- Two timers with one ticket are the same. -/
theorem timer_eq (linked : Linked timers tickets) {first second : Timer α}
    (one : first ∈ timers.queue) (other : second ∈ timers.queue)
    (same : first.ticket = second.ticket) : first = second :=
  List.inj_on_of_nodup_map linked.numbered one other same

/-- Two timers about one note are the same. -/
theorem timer_eq_of_note (linked : Linked timers tickets) {first second : Timer α} {id : NoteId}
    (one : first ∈ timers.queue) (other : second ∈ timers.queue)
    (firstNote : first.action.note? = some id) (secondNote : second.action.note? = some id) :
    first = second :=
  -- The table has one ticket for the note, and a ticket is that of one timer.
  linked.timer_eq one other (linked.ticket_eq
    ((linked.listed id _).mpr ⟨first, one, rfl, firstNote⟩)
    ((linked.listed id _).mpr ⟨second, other, rfl, secondNote⟩))

/-- A note that is not in the table has no timer. -/
theorem note_ne (linked : Linked timers tickets) {id : NoteId}
    (free : ∀ pair ∈ tickets, pair.1 ≠ id) {timer : Timer α} (member : timer ∈ timers.queue) :
    timer.action.note? ≠ some id := fun noted =>
  free (id, timer.ticket) ((linked.listed id _).mpr ⟨timer, member, rfl, noted⟩) rfl

/-- No note has two timers. -/
theorem notes_nodup (linked : Linked timers tickets) :
    (timers.queue.filterMap (·.action.note?)).Nodup := by
  -- Timers with one note would be the same timer twice, against the tickets being distinct.
  have distinct : timers.queue.Nodup := List.Nodup.of_map _ linked.numbered
  refine List.pairwise_filterMap.mpr (List.Pairwise.imp_of_mem ?_ distinct)
  intro first second one other apart id firstNote id' secondNote same
  subst same
  exact apart (linked.timer_eq_of_note one other firstNote secondNote)

/-- Taking back the timer of a ticket takes back what its note waits for. -/
theorem remove_eq (linked : Linked timers tickets) {id : NoteId} {ticket : Nat}
    (member : (id, ticket) ∈ tickets) : timers.remove ticket = timers.without id := by
  obtain ⟨timer, queued, rfl, noted⟩ := (linked.listed id ticket).mp member
  -- The ticket and the note pick out the same timer.
  have same : timers.queue.filter (·.ticket != timer.ticket) =
      timers.queue.filter (·.action.note? != some id) := by
    apply List.filter_congr
    intro other present
    rw [Bool.eq_iff_iff, bne_iff_ne, bne_iff_ne, not_iff_not]
    constructor
    · intro equal
      rw [linked.timer_eq present queued equal, noted]
    · intro about
      rw [linked.timer_eq_of_note present queued about noted]
  simp [remove, without, same]

/-- Taking out the first timer takes back what its note waits for. -/
theorem pop_eq (linked : Linked timers tickets) {timer : Timer α} {rest : Timers α} {id : NoteId}
    (queued : timers.queue = timer :: rest.queue) (counted : rest.tickets = timers.tickets)
    (noted : timer.action.note? = some id) : rest = timers.without id := by
  -- Another timer of the note would be the head once more, under a ticket used twice.
  have kept : rest.queue.filter (·.action.note? != some id) = rest.queue := by
    apply List.filter_eq_self.mpr
    intro other present
    rw [bne_iff_ne]
    intro about
    have numbered := linked.numbered
    rw [queued, List.map_cons, List.nodup_cons] at numbered
    have same := linked.timer_eq_of_note (queued ▸ List.mem_cons_of_mem _ present)
      (queued ▸ List.mem_cons_self ..) about noted
    exact numbered.1 (same ▸ List.mem_map_of_mem present)
  have whole : timers.queue.filter (·.action.note? != some id) = rest.queue := by
    rw [queued, List.filter_cons_of_neg (by simp [noted]), kept]
  simp [Timers.without, whole, ← counted]

/-- A note can be taken out of the table together with its timer. -/
theorem without (linked : Linked timers tickets) (id : NoteId) :
    Linked (timers.without id) (tickets.filter (·.1 != id)) where
  numbered := linked.numbered.sublist (List.filter_sublist.map _)
  bounded timer member := linked.bounded timer (List.mem_of_mem_filter member)
  single := linked.single.sublist (List.filter_sublist.map _)
  listed other ticket := by
    simp only [List.mem_filter, linked.listed, Timers.without, bne_iff_ne, ne_eq]
    -- Timers and tickets of the note go together.
    constructor
    · rintro ⟨⟨timer, member, same, noted⟩, apart⟩
      exact ⟨timer, ⟨member, by simpa [noted] using apart⟩, same, noted⟩
    · rintro ⟨timer, ⟨member, apart⟩, same, noted⟩
      exact ⟨⟨timer, member, same, noted⟩, by simpa [noted] using apart⟩

/-- Setting a timer gives it a ticket that no other timer has. -/
theorem push_numbered [Scalar α] (linked : Linked timers tickets) (due : α) (action : Action α) :
    ((timers.push due action).1.queue.map Timer.ticket).Nodup ∧
      ∀ timer ∈ (timers.push due action).1.queue,
        timer.ticket < (timers.push due action).1.tickets := by
  constructor
  · -- The new ticket is the count of the earlier ones, so none of them equals it.
    refine ((insert_perm _ _).map Timer.ticket).nodup_iff.mpr ?_
    simp only [List.map_cons, List.nodup_cons, List.mem_map, not_exists, not_and]
    exact ⟨fun timer member => Nat.ne_of_lt (linked.bounded timer member), linked.numbered⟩
  · intro timer member
    rcases List.mem_cons.mp ((insert_perm _ _).mem_iff.mp member) with rfl | inside
    · exact Nat.lt_succ_self _
    · exact Nat.lt_succ_of_lt (linked.bounded timer inside)

/-- A note that is not in the table enters it with a timer of its own. -/
theorem push [Scalar α] (linked : Linked timers tickets) {id : NoteId}
    (free : ∀ pair ∈ tickets, pair.1 ≠ id) (due : α) {action : Action α}
    (noted : action.note? = some id) :
    Linked (timers.push due action).1 ((id, (timers.push due action).2) :: tickets) where
  numbered := (linked.push_numbered due action).1
  bounded := (linked.push_numbered due action).2
  single := by
    simp only [List.map_cons, List.nodup_cons, List.mem_map, not_exists, not_and]
    exact ⟨free, linked.single⟩
  listed other ticket := by
    -- The new timer is the only one about the new note, and the only one with the new ticket.
    simp only [Timers.push, List.mem_cons, (insert_perm _ _).mem_iff, Prod.mk.injEq]
    constructor
    · rintro (⟨rfl, rfl⟩ | member)
      · exact ⟨_, Or.inl rfl, rfl, noted⟩
      · obtain ⟨timer, present, same, about⟩ := (linked.listed other ticket).mp member
        exact ⟨timer, Or.inr present, same, about⟩
    · rintro ⟨timer, rfl | present, same, about⟩
      · exact Or.inl ⟨Option.some.inj (about.symm.trans noted), same.symm⟩
      · exact Or.inr ((linked.listed other ticket).mpr ⟨timer, present, same, about⟩)

/-- Taking a note out of a table that does not have it changes nothing. -/
theorem filter_eq_of_free {tickets : List (NoteId × Nat)} {id : NoteId}
    (free : ∀ pair ∈ tickets, pair.1 ≠ id) : tickets.filter (·.1 != id) = tickets :=
  List.filter_eq_self.mpr fun pair member => by simpa using free pair member

/-- A sweep is set without an entry in the table. -/
theorem push_sweep [Scalar α] (linked : Linked timers tickets) (due : α) :
    Linked (timers.push due .sweep).1 tickets where
  numbered := (linked.push_numbered due .sweep).1
  bounded := (linked.push_numbered due .sweep).2
  single := linked.single
  listed other ticket := by
    -- The new timer is about no note and asks for no entry.
    simp only [linked.listed, Timers.push, (insert_perm _ _).mem_iff, List.mem_cons]
    constructor
    · rintro ⟨timer, present, same, about⟩
      exact ⟨timer, Or.inr present, same, about⟩
    · rintro ⟨timer, rfl | present, same, about⟩
      · simp [Action.note?] at about
      · exact ⟨timer, present, same, about⟩

/-- A sweep is taken out without a change of the table. -/
theorem pop_sweep (linked : Linked timers tickets) {timer : Timer α} {rest : Timers α}
    (queued : timers.queue = timer :: rest.queue) (counted : rest.tickets = timers.tickets)
    (sweep : timer.action = .sweep) : Linked rest tickets where
  numbered := by
    have numbered := linked.numbered
    rw [queued, List.map_cons] at numbered
    exact (List.nodup_cons.mp numbered).2
  bounded other member := by
    rw [counted]
    exact linked.bounded other (queued ▸ List.mem_cons_of_mem _ member)
  single := linked.single
  listed id ticket := by
    -- A sweep has no ticket, so the tickets stay.
    rw [linked.listed, queued]
    simp [sweep, Action.note?]

/-- Taking back every timer of a note empties the table. -/
theorem dropNotes (linked : Linked timers tickets) : Linked timers.dropNotes [] where
  numbered := linked.numbered.sublist (List.filter_sublist.map _)
  bounded timer member := linked.bounded timer (List.mem_of_mem_filter member)
  single := List.nodup_nil
  listed id ticket := by
    -- A timer that is left is about no note, so the empty table lacks nothing.
    simp only [List.not_mem_nil, false_iff, not_exists, not_and]
    intro timer member _ noted
    have about := (List.mem_filter.mp member).2
    simp [noted] at about

end Linked

end Timers

end Melody
