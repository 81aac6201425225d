import Melody.Note.Basic

/-! Timers in the order in which they are due. -/

namespace Melody

/-- The number by which a scheduled note goes. -/
structure NoteId where
  number : Nat
deriving DecidableEq, Repr

/-- The spelling of a note number. -/
def NoteId.text (id : NoteId) : String :=
  "#" ++ toString id.number

/-- Work that is put off. -/
inductive Action (α : Type) where
  /-- A note that was too far ahead is scheduled again. -/
  | reschedule (id : NoteId) (note : Note α)
  /-- A prepared note becomes the one that sounds. -/
  | promote (id : NoteId) (pitch : Pitch)
  /-- Notes that have ended are forgotten. -/
  | sweep
deriving DecidableEq, Repr

/-- The note that an action is about. -/
def Action.note? {α : Type} : Action α → Option NoteId
  | reschedule id _ => some id
  | promote id _ => some id
  | sweep => none

/-- An action with its due time and its place in the order of all timers ever set. -/
structure Timer (α : Type) where
  due : α
  ticket : Nat
  action : Action α
deriving DecidableEq, Repr

/-- Pending timers, earliest first, with the ticket of the next one. -/
structure Timers (α : Type) where
  queue : List (Timer α) := []
  tickets : Nat := 0
deriving DecidableEq, Repr

namespace Timers

variable {α : Type}

/-- Puts a timer behind those that are due no later. -/
def insert [Scalar α] (timer : Timer α) : List (Timer α) → List (Timer α)
  | [] => [timer]
  | next :: later =>
    -- Timers that are due together stay in the order in which they were set.
    if Scalar.order timer.due next.due = .lt then timer :: next :: later
    else next :: insert timer later

/-- A queue with one more timer holds that timer and the ones before. -/
theorem mem_insert [Scalar α] {timer other : Timer α} {queue : List (Timer α)} :
    other ∈ insert timer queue ↔ other = timer ∨ other ∈ queue := by
  induction queue with
  | nil => simp [insert]
  | cons next later ih =>
    by_cases earlier : Scalar.order timer.due next.due = .lt
    · simp [insert, earlier]
    · simp only [insert, earlier, if_false, List.mem_cons, ih]
      exact or_left_comm

/-- A queue with one more timer is one longer. -/
theorem length_insert [Scalar α] (timer : Timer α) (queue : List (Timer α)) :
    (insert timer queue).length = queue.length + 1 := by
  induction queue with
  | nil => rfl
  | cons next later ih =>
    by_cases earlier : Scalar.order timer.due next.due = .lt
    · simp [insert, earlier]
    · simp [insert, earlier, ih]

/-- Sets a timer and gives its ticket. -/
def push [Scalar α] (timers : Timers α) (due : α) (action : Action α) : Timers α × Nat :=
  let timer : Timer α := ⟨due, timers.tickets, action⟩
  (⟨insert timer timers.queue, timers.tickets + 1⟩, timers.tickets)

/-- Takes back the timer of a ticket. -/
def remove (timers : Timers α) (ticket : Nat) : Timers α :=
  { timers with queue := timers.queue.filter (·.ticket != ticket) }

/-- Takes out the earliest timer, if it is due and was set before a given ticket. -/
def popDue? [Scalar α] (timers : Timers α) (now : α) (horizon : Nat) :
    Option (Action α × Timers α) :=
  match timers.queue with
  | [] => none
  | timer :: later =>
    -- The queue is in order, so no later timer is due if the first one is not.
    if now < timer.due ∨ horizon ≤ timer.ticket then none
    else some (timer.action, { timers with queue := later })

/-- Takes back every timer of a note. -/
def dropNotes (timers : Timers α) : Timers α :=
  { timers with queue := timers.queue.filter (·.action.note?.isNone) }

/-- The number of pending timers. -/
def count (timers : Timers α) : Nat :=
  timers.queue.length

/-- Some timer is about a note. -/
def awaitsNote (timers : Timers α) : Bool :=
  timers.queue.any (·.action.note?.isSome)

end Timers

end Melody
