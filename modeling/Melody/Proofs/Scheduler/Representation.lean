import Melody.Binary64
import Melody.Proofs.Scheduler.Steps
import Melody.Voice.Recorder

/-! The tables of a scheduler agree with each other in every state that it can reach. -/

namespace Melody.Scheduler

variable {γ α : Type}

/-- What the lanes, the timers, the table of waiting notes and the sweep have in common. -/
structure Represented (scheduler : Scheduler γ α) : Prop where
  /-- No note has two entries in the lanes. -/
  single : ((scheduler.lanes.flatMap Lane.entries).map Entry.id).Nodup
  /-- The table has no note twice, and the queue has neither a ticket nor a note twice. -/
  keyed : (scheduler.tickets.map Prod.fst).Nodup ∧
    (scheduler.timers.queue.map Timer.ticket).Nodup ∧
    (scheduler.timers.queue.filterMap (·.action.note?)).Nodup
  /-- A note has a ticket in the table exactly when the timer of the ticket is about the note. -/
  listed : ∀ id ticket, (id, ticket) ∈ scheduler.tickets ↔
    ∃ timer ∈ scheduler.timers.queue, timer.ticket = ticket ∧ timer.action.note? = some id
  /-- Every timer but a sweep is the one that the table gives for some note. -/
  reached : ∀ timer ∈ scheduler.timers.queue, timer.action ≠ .sweep →
    ∃ id, timer.action.note? = some id ∧ (id, timer.ticket) ∈ scheduler.tickets
  /-- A note is to come in a lane exactly when its timer lets it sound there, at its start. -/
  future : ∀ id pitch start,
    (∃ lane ∈ scheduler.lanes, lane.pitch = pitch ∧
      ∃ entry ∈ lane.future, entry.id = id ∧ entry.start = start) ↔
    ∃ timer ∈ scheduler.timers.queue, timer.action = .promote id pitch ∧ timer.due = start
  /-- A note that is put off is in no lane. -/
  deferred : ∀ timer ∈ scheduler.timers.queue, ∀ id note, timer.action = .reschedule id note →
    scheduler.lanes.has id = false
  /-- A note is put off, to come or sounding, but only one of these. -/
  exclusive : ∀ id, (scheduler.isDeferred id && scheduler.isFuture id) = false ∧
    (scheduler.isDeferred id && scheduler.isActive id) = false ∧
    (scheduler.isFuture id && scheduler.isActive id) = false
  /-- Every pitch has one lane at most, and no lane is empty. -/
  occupied : scheduler.lanes.Ordered ∧ ∀ lane ∈ scheduler.lanes, lane.isEmpty = false
  /-- One sweep is among the timers if a sweep is pending, and none otherwise. -/
  sweeps : scheduler.timers.sweepCount = if scheduler.sweepPending then 1 else 0
  /-- A sweep is pending whenever a lane has an entry. -/
  watched : scheduler.lanes.flatMap Lane.entries ≠ [] → scheduler.sweepPending = true

/-- A note is future when it waits in a slot. -/
theorem isFuture_iff (scheduler : Scheduler γ α) {id : NoteId} :
    scheduler.isFuture id = true ↔
      ∃ slot ∈ scheduler.slots, slot.sounding = false ∧ slot.entry.id = id := by
  simp only [isFuture, Lane.isFuture, List.any_eq_true, beq_iff_eq, slots]
  -- The slots that do not sound are those of the future entries of the lanes.
  constructor
  · rintro ⟨lane, inside, entry, member, named⟩
    have present : ⟨lane.pitch, false, entry⟩ ∈ scheduler.lanes.slots :=
      Lanes.mem_slots.mpr ⟨lane, inside, rfl, by simpa⟩
    exact ⟨_, present, rfl, named⟩
  · rintro ⟨slot, present, waits, named⟩
    obtain ⟨lane, inside, _, seated⟩ := Lanes.mem_slots.mp present
    rw [waits] at seated
    exact ⟨lane, inside, slot.entry, seated, named⟩

/-- A note is active when it sounds in a slot. -/
theorem isActive_iff (scheduler : Scheduler γ α) {id : NoteId} :
    scheduler.isActive id = true ↔
      ∃ slot ∈ scheduler.slots, slot.sounding = true ∧ slot.entry.id = id := by
  simp only [isActive, Lane.isActive, List.any_eq_true, Option.any_eq_true, beq_iff_eq, slots]
  -- The slots that sound are those of the active entries of the lanes.
  constructor
  · rintro ⟨lane, inside, entry, seated, named⟩
    have present : ⟨lane.pitch, true, entry⟩ ∈ scheduler.lanes.slots :=
      Lanes.mem_slots.mpr ⟨lane, inside, rfl, by simpa⟩
    exact ⟨_, present, rfl, named⟩
  · rintro ⟨slot, present, sounds, named⟩
    obtain ⟨lane, inside, _, seated⟩ := Lanes.mem_slots.mp present
    rw [sounds, if_pos rfl] at seated
    exact ⟨lane, inside, slot.entry, seated, named⟩

/-- A note is deferred when it has a timer but no slot. -/
theorem isDeferred_iff (scheduler : Scheduler γ α) {id : NoteId} :
    scheduler.isDeferred id = true ↔
      (∃ pair ∈ scheduler.tickets, pair.1 = id) ∧ ∀ slot ∈ scheduler.slots, slot.entry.id ≠ id := by
  rw [isDeferred, Bool.and_eq_true, Bool.not_eq_true', Bool.eq_false_iff, ne_eq, Lanes.has_iff]
  simp

variable [Analytic α] {rules : Rules α} {scheduler : Scheduler γ α}

namespace Coherent

/-- A note waits in a lane for its start exactly when a timer promotes it then. -/
theorem future_iff (coherent : Coherent rules scheduler) (id : NoteId) (pitch : Pitch)
    (start : α) :
    (∃ lane ∈ scheduler.lanes, lane.pitch = pitch ∧
      ∃ entry ∈ lane.future, entry.id = id ∧ entry.start = start) ↔
    ∃ timer ∈ scheduler.timers.queue, timer.action = .promote id pitch ∧ timer.due = start := by
  constructor
  · rintro ⟨lane, inside, rfl, entry, waits, rfl, rfl⟩
    -- The slot of the entry was promised its timer.
    have member : ⟨lane.pitch, false, entry⟩ ∈ scheduler.slots :=
      Lanes.mem_slots.mpr ⟨lane, inside, rfl, by simpa⟩
    exact coherent.promised _ member rfl
  · rintro ⟨timer, queued, action, rfl⟩
    -- The timer is set for a slot, which names the lane and the entry.
    obtain ⟨slot, member, waits, rfl, rfl, due⟩ := coherent.kept timer queued id pitch action
    obtain ⟨lane, inside, samePitch, seated⟩ := Lanes.mem_slots.mp member
    rw [waits] at seated
    exact ⟨lane, inside, samePitch, slot.entry, seated, rfl, due⟩

/-- A note is in one of the three states at most. -/
theorem exclusive (coherent : Coherent rules scheduler) (id : NoteId) :
    (scheduler.isDeferred id && scheduler.isFuture id) = false ∧
      (scheduler.isDeferred id && scheduler.isActive id) = false ∧
      (scheduler.isFuture id && scheduler.isActive id) = false := by
  -- A deferred note has no slot, and a slot is either sounding or not.
  simp only [Bool.eq_false_iff, ne_eq, Bool.and_eq_true, isDeferred_iff, isFuture_iff,
    isActive_iff, not_and]
  refine ⟨?_, ?_, ?_⟩
  · rintro ⟨_, unvoiced⟩ ⟨slot, member, _, named⟩
    exact unvoiced slot member named
  · rintro ⟨_, unvoiced⟩ ⟨slot, member, _, named⟩
    exact unvoiced slot member named
  · rintro ⟨slot, member, waits, named⟩ ⟨other, present, sounds, same⟩
    have equal := coherent.slot_eq member present (named.trans same.symm)
    rw [equal, sounds] at waits
    contradiction

/-- Tables that are in step represent each note once. -/
theorem represented (coherent : Coherent rules scheduler) : Represented scheduler where
  single := by
    rw [← Lanes.slots_entries, List.map_map]
    exact coherent.distinct
  keyed := ⟨coherent.linked.single, coherent.linked.numbered, coherent.linked.notes_nodup⟩
  listed := coherent.linked.listed
  reached timer queued other := by
    -- A timer without a note is a sweep, and any other one is listed under its note.
    cases noted : timer.action.note? with
    | none => exact absurd (Action.note?_eq_none.mp noted) other
    | some id => exact ⟨id, rfl, (coherent.linked.listed id _).mpr ⟨timer, queued, rfl, noted⟩⟩
  future := coherent.future_iff
  deferred timer queued id note action := by
    rw [Bool.eq_false_iff, ne_eq, Lanes.has_iff]
    rintro ⟨slot, member, named⟩
    exact coherent.apart timer queued id note action slot member named
  exclusive := coherent.exclusive
  occupied := ⟨coherent.regular.ordered, coherent.regular.occupied⟩
  sweeps := coherent.sweeps
  watched filled := by
    -- Without slots there would be no entries.
    refine coherent.watched fun bare => filled ?_
    rw [← Lanes.slots_entries, show scheduler.lanes.slots = [] from bare, List.map_nil]

end Coherent

variable [ToneGenerator γ α]

/-- Every run that reuses only numbers that were given out keeps the tables in step. -/
theorem run_represented (generator : γ) (now : α) (settings : Settings α)
    {requests : List (Request α)} (issued : (new generator now settings).Along Issued requests) :
    ((new generator now settings).run requests).Represented := by
  -- The tables agree at the start, and every move of the run keeps them so.
  have coherent := Coherent.initial .free generator now settings
  exact ((coherent.run_moves (issued.imp fun _ _ => obeys_free)).coherent coherent).represented

/-- A note is put off, comes to sound, and is replaced under its own number and cancelled. -/
theorem run_represented_replaced :
    ((new ({} : Recorder Float) 0.0 .standard).run
      [.schedule ⟨⟨60⟩, 5.0, 1.0, 1.0, 0.0⟩ none, .setClock 5.0, .advance,
        .schedule ⟨⟨60⟩, 6.0, 1.0, 1.0, 0.0⟩ (some ⟨0⟩), .playPitch ⟨60⟩ 1.0,
        .cancel ⟨0⟩]).Represented :=
  run_represented ({} : Recorder Float) 0.0 .standard (by decide +kernel)

end Melody.Scheduler
