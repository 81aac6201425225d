import Melody.Proofs.Scheduler.Move

/-! Lanes, timers, tickets and the pending sweep stay in step through every move. -/

namespace Melody.Scheduler

variable {γ α : Type}

/-- The slots of a scheduler. -/
abbrev slots (scheduler : Scheduler γ α) : List (Slot α) :=
  scheduler.lanes.slots

variable [Analytic α]

/-- Lanes and timers agree on which notes are put off, which are prepared and which sound. -/
structure Consistent (rules : Rules α) (scheduler : Scheduler γ α) : Prop where
  regular : scheduler.lanes.Regular
  linked : scheduler.timers.Linked scheduler.tickets
  distinct : (scheduler.slots.map (·.entry.id)).Nodup
  promised : ∀ slot ∈ scheduler.slots, slot.sounding = false →
    ∃ timer ∈ scheduler.timers.queue,
      timer.action = .promote slot.entry.id slot.pitch ∧ timer.due = slot.entry.start
  kept : ∀ timer ∈ scheduler.timers.queue, ∀ id pitch, timer.action = .promote id pitch →
    ∃ slot ∈ scheduler.slots, slot.sounding = false ∧ slot.pitch = pitch ∧
      slot.entry.id = id ∧ slot.entry.start = timer.due
  apart : ∀ timer ∈ scheduler.timers.queue, ∀ id note, timer.action = .reschedule id note →
    ∀ slot ∈ scheduler.slots, slot.entry.id ≠ id
  issued : ∀ slot ∈ scheduler.slots, slot.entry.id.number < scheduler.nextId
  issuedTimers : ∀ timer ∈ scheduler.timers.queue, ∀ id, timer.action.note? = some id →
    id.number < scheduler.nextId
  fits : ∀ timer ∈ scheduler.timers.queue, ∀ id note, timer.action = .reschedule id note →
    rules.fit id note.cue

/-- A consistent scheduler with a sweep ahead of it whenever a note has a voice. -/
structure Coherent (rules : Rules α) (scheduler : Scheduler γ α) : Prop
    extends Consistent rules scheduler where
  sweeps : scheduler.timers.sweepCount = if scheduler.sweepPending then 1 else 0
  watched : scheduler.slots ≠ [] → scheduler.sweepPending = true

variable {rules : Rules α} {scheduler next : Scheduler γ α}

namespace Consistent

/-- Slots of one note are the same. -/
theorem slot_eq (consistent : Consistent rules scheduler) {first second : Slot α}
    (one : first ∈ scheduler.slots) (other : second ∈ scheduler.slots)
    (same : first.entry.id = second.entry.id) : first = second :=
  List.inj_on_of_nodup_map consistent.distinct one other same

/-- Taking notes away from the future slots and from the timers alike keeps both in step. -/
theorem shrink (consistent : Consistent rules scheduler) (gone : NoteId → Prop)
    (counted : next.nextId = scheduler.nextId) (regular : next.lanes.Regular)
    (linked : next.timers.Linked next.tickets) (distinct : (next.slots.map (·.entry.id)).Nodup)
    (timers : ∀ timer id, timer.action.note? = some id →
      (timer ∈ next.timers.queue ↔ timer ∈ scheduler.timers.queue ∧ ¬ gone id))
    (future : ∀ slot, slot.sounding = false →
      (slot ∈ next.slots ↔ slot ∈ scheduler.slots ∧ ¬ gone slot.entry.id))
    (known : ∀ slot ∈ next.slots, (∃ old ∈ scheduler.slots, old.entry.id = slot.entry.id) ∨
      scheduler.Lacks slot.entry.id ∧ slot.entry.id.number < scheduler.nextId) :
    Consistent rules next where
  regular := regular
  linked := linked
  distinct := distinct
  promised slot member waits := by
    -- A future slot that is left keeps its note, and so the timer that it was promised.
    obtain ⟨present, stays⟩ := (future slot waits).mp member
    obtain ⟨timer, queued, action, due⟩ := consistent.promised slot present waits
    have noted : timer.action.note? = some slot.entry.id := by rw [action]; rfl
    exact ⟨timer, (timers timer slot.entry.id noted).mpr ⟨queued, stays⟩, action, due⟩
  kept timer member id pitch action := by
    -- A timer that is left keeps its note, and so the slot that it is set for.
    obtain ⟨queued, stays⟩ := (timers timer id (by rw [action]; rfl)).mp member
    obtain ⟨slot, present, waits, same, named, start⟩ :=
      consistent.kept timer queued id pitch action
    exact ⟨slot, (future slot waits).mpr ⟨present, named ▸ stays⟩, waits, same, named, start⟩
  apart timer member id note action slot present := by
    have noted : timer.action.note? = some id := by rw [action]; rfl
    obtain ⟨queued, _⟩ := (timers timer id noted).mp member
    -- The slot is an old one, or that of a note without any timer.
    rcases known slot present with ⟨old, inside, same⟩ | ⟨lacks, _⟩
    · exact same ▸ consistent.apart timer queued id note action old inside
    · rintro rfl
      exact lacks.untimed timer queued noted
  issued slot member := by
    rw [counted]
    rcases known slot member with ⟨old, inside, same⟩ | ⟨_, given⟩
    · exact same ▸ consistent.issued old inside
    · exact given
  issuedTimers timer member id noted := by
    rw [counted]
    exact consistent.issuedTimers timer ((timers timer id noted).mp member).1 id noted
  fits timer member id note action :=
    consistent.fits timer ((timers timer id (by rw [action]; rfl)).mp member).1 id note action

/-- Only a number that has been given out is behind a slot or a timer. -/
theorem lacks_of_le (consistent : Consistent rules scheduler) {id : NoteId}
    (fresh : scheduler.nextId ≤ id.number) : scheduler.Lacks id where
  unlisted pair member := by
    rintro rfl
    -- An entry of the table has a timer, and the numbers of timers lie below the next one.
    obtain ⟨timer, queued, _, noted⟩ := (consistent.linked.listed pair.1 pair.2).mp member
    exact absurd (consistent.issuedTimers timer queued _ noted) (by omega)
  untimed timer queued noted :=
    absurd (consistent.issuedTimers timer queued id noted) (by omega)
  unvoiced slot member := by
    rintro rfl
    exact absurd (consistent.issued slot member) (by omega)

end Consistent

/-- A timer that is set for a note joins those that are set already. -/
theorem mem_setTimer {id : NoteId} {due : α} {action : Action α} {timer : Timer α} :
    timer ∈ (scheduler.setTimer id due action).timers.queue ↔
      timer = ⟨due, scheduler.timers.tickets, action⟩ ∨ timer ∈ scheduler.timers.queue := by
  rw [← List.mem_cons]
  exact (Timers.insert_perm _ _).mem_iff

/-- A timer that is set for a note without one is the note's only timer. -/
theorem setTimer_linked (linked : scheduler.timers.Linked scheduler.tickets) {id : NoteId}
    (free : ∀ pair ∈ scheduler.tickets, pair.1 ≠ id) (due : α) {action : Action α}
    (noted : action.note? = some id) :
    (scheduler.setTimer id due action).timers.Linked
      (scheduler.setTimer id due action).tickets := by
  -- The note is not in the table, so taking it out before it is set changes nothing.
  have pushed := linked.push free due noted
  rw [← Timers.Linked.filter_eq_of_free free] at pushed
  exact pushed

namespace Consistent

/-- A note that nothing is held for is put off with a timer of its own. -/
theorem defer (consistent : Consistent rules scheduler) {id : NoteId} {note : Note α} {due : α}
    (lacks : scheduler.Lacks id) (given : id.number < scheduler.nextId)
    (fit : rules.fit id note.cue) :
    Consistent rules (scheduler.setTimer id due (.reschedule id note)) where
  regular := consistent.regular
  linked := setTimer_linked consistent.linked lacks.unlisted due rfl
  distinct := consistent.distinct
  promised slot member future := by
    obtain ⟨timer, queued, facts⟩ := consistent.promised slot member future
    exact ⟨timer, mem_setTimer.mpr (Or.inr queued), facts⟩
  kept timer member other pitch action := by
    rcases mem_setTimer.mp member with rfl | queued
    · -- The new timer puts a note off, so no slot has to answer it.
      cases action
    · exact consistent.kept timer queued other pitch action
  apart timer member other otherNote action slot present := by
    rcases mem_setTimer.mp member with rfl | queued
    · -- The note that is put off has no slot.
      cases action
      exact lacks.unvoiced slot present
    · exact consistent.apart timer queued other otherNote action slot present
  issued := consistent.issued
  issuedTimers timer member other noted := by
    rcases mem_setTimer.mp member with rfl | queued
    · cases noted
      exact given
    · exact consistent.issuedTimers timer queued other noted
  fits timer member other otherNote action := by
    rcases mem_setTimer.mp member with rfl | queued
    · cases action
      exact fit
    · exact consistent.fits timer queued other otherNote action

/-- A note that nothing is held for enters a lane with a timer for its start. -/
theorem book (consistent : Consistent rules scheduler) (pitch : Pitch) (entry : Entry α)
    (lacks : scheduler.Lacks entry.id) (given : entry.id.number < scheduler.nextId)
    (lanes : next.lanes.Regular)
    (slots : next.slots.Perm (⟨pitch, false, entry⟩ :: scheduler.slots))
    (timers : next.timers = scheduler.timers) (tickets : next.tickets = scheduler.tickets)
    (counted : next.nextId = scheduler.nextId) :
    Consistent rules (next.setTimer entry.id entry.start (.promote entry.id pitch)) where
  regular := lanes
  linked := by
    have linked : next.timers.Linked next.tickets := by
      rw [timers, tickets]
      exact consistent.linked
    exact setTimer_linked linked (tickets ▸ lacks.unlisted) entry.start rfl
  distinct := by
    refine (slots.map (·.entry.id)).nodup_iff.mpr ?_
    simp only [List.map_cons, List.nodup_cons, List.mem_map, not_exists, not_and]
    exact ⟨lacks.unvoiced, consistent.distinct⟩
  promised slot member future := by
    rcases List.mem_cons.mp (slots.mem_iff.mp member) with rfl | present
    · -- The new slot is answered by the new timer.
      exact ⟨_, mem_setTimer.mpr (Or.inl rfl), rfl, rfl⟩
    · obtain ⟨timer, queued, facts⟩ := consistent.promised slot present future
      exact ⟨timer, mem_setTimer.mpr (Or.inr (timers ▸ queued)), facts⟩
  kept timer member id other action := by
    rcases mem_setTimer.mp member with rfl | queued
    · -- The new timer is answered by the new slot.
      cases action
      exact ⟨_, slots.mem_iff.mpr (List.mem_cons_self ..), rfl, rfl, rfl, rfl⟩
    · obtain ⟨slot, present, facts⟩ := consistent.kept timer (timers ▸ queued) id other action
      exact ⟨slot, slots.mem_iff.mpr (List.mem_cons_of_mem _ present), facts⟩
  apart timer member id note action slot present := by
    rcases mem_setTimer.mp member with rfl | queued
    · cases action
    · have noted : timer.action.note? = some id := by rw [action]; rfl
      -- The new slot is that of a note that no older timer is about.
      rcases List.mem_cons.mp (slots.mem_iff.mp present) with rfl | inside
      · rintro rfl
        exact lacks.untimed timer (timers ▸ queued) noted
      · exact consistent.apart timer (timers ▸ queued) id note action slot inside
  issued slot member := by
    show _ < next.nextId
    rw [counted]
    rcases List.mem_cons.mp (slots.mem_iff.mp member) with rfl | present
    · exact given
    · exact consistent.issued slot present
  issuedTimers timer member id noted := by
    show _ < next.nextId
    rw [counted]
    rcases mem_setTimer.mp member with rfl | queued
    · cases noted
      exact given
    · exact consistent.issuedTimers timer (timers ▸ queued) id noted
  fits timer member id note action := by
    rcases mem_setTimer.mp member with rfl | queued
    · cases action
    · exact consistent.fits timer (timers ▸ queued) id note action

/-- A sweep that is set or taken out does not matter to the notes. -/
theorem of_sweeps (consistent : Consistent rules scheduler) (lanes : next.lanes = scheduler.lanes)
    (counted : next.nextId = scheduler.nextId) (linked : next.timers.Linked next.tickets)
    (timers : ∀ timer id, timer.action.note? = some id →
      (timer ∈ next.timers.queue ↔ timer ∈ scheduler.timers.queue)) : Consistent rules next := by
  -- No note goes, so slots and timers of notes are the same as before.
  refine consistent.shrink (fun _ => False) counted (lanes ▸ consistent.regular) linked
    (by rw [slots, lanes]; exact consistent.distinct) (by simpa using timers)
    (by simp [slots, lanes]) ?_
  intro slot member
  exact Or.inl ⟨slot, by rw [slots, ← lanes]; exact member, rfl⟩

/-- The sounding seat of a pitch can pass to a note that nothing else is held for. -/
theorem reseat [ToneGenerator γ α] (consistent : Consistent rules scheduler) {pitch : Pitch}
    {entry : Entry α} {displaced : Option (Entry α)} {rest : List (Slot α)}
    {effects : List (Effect α)} {lanes : Lanes α} {journal : List Notice}
    (regular : lanes.Regular)
    (before : scheduler.slots.Perm (displaced.toList.map (⟨pitch, true, ·⟩) ++ rest))
    (after : lanes.slots.Perm (⟨pitch, true, entry⟩ :: rest))
    (held : (∃ old, displaced = some old ∧ old.id = entry.id) ∨
      scheduler.Lacks entry.id ∧ entry.id.number < scheduler.nextId) :
    Consistent rules (scheduler.told effects lanes journal) := by
  have distinct := (before.map (·.entry.id)).nodup_iff.mp consistent.distinct
  rw [List.map_append, List.nodup_append] at distinct
  -- No other slot has the number, whether the entry was there before or is new.
  have single : ∀ slot ∈ rest, slot.entry.id ≠ entry.id := by
    intro slot member
    rcases held with ⟨old, rfl, named⟩ | ⟨lacks, _⟩
    · exact fun same => distinct.2.2 old.id (by simp) _ (List.mem_map_of_mem member)
        (named.trans same.symm)
    · exact lacks.unvoiced slot (before.mem_iff.mpr (List.mem_append_right _ member))
  refine consistent.shrink (fun _ => False) rfl regular consistent.linked ?_ (by simp [told]) ?_ ?_
  · -- The numbers of the rest are distinct, and the new entry has none of them.
    refine (after.map (·.entry.id)).nodup_iff.mpr ?_
    rw [List.map_cons, List.nodup_cons]
    exact ⟨by simpa using single, distinct.2.1⟩
  · intro slot waits
    -- The seats sound, so the future slots are all in the rest, which stays.
    show slot ∈ lanes.slots ↔ _
    rw [after.mem_iff, before.mem_iff]
    simp only [List.mem_cons, List.mem_append, List.mem_map, not_false_eq_true, and_true]
    constructor
    · rintro (rfl | member)
      · cases waits
      · exact Or.inr member
    · rintro (⟨_, _, rfl⟩ | member)
      · cases waits
      · exact Or.inr member
  · intro slot member
    -- A slot is an old one, or that of the note that nothing was held for.
    rcases List.mem_cons.mp (after.mem_iff.mp member) with rfl | inside
    · rcases held with ⟨old, rfl, named⟩ | fresh
      · exact Or.inl ⟨⟨pitch, true, old⟩, before.mem_iff.mpr (by simp), named⟩
      · exact Or.inr fresh
    · exact Or.inl ⟨slot, before.mem_iff.mpr (List.mem_append_right _ inside), rfl⟩

end Consistent

namespace Coherent

/-- A scheduler that has been asked for nothing yet is coherent. -/
theorem initial (rules : Rules α) (generator : γ) (now : α) (settings : Settings α) :
    Coherent rules (new generator now settings) where
  -- Nothing is held, and no timer is set.
  regular := ⟨List.Pairwise.nil, by simp [new]⟩
  linked := .empty
  distinct := List.nodup_nil
  promised := by simp [new, slots, Lanes.slots]
  kept := by simp [new]
  apart := by simp [new]
  issued := by simp [new, slots, Lanes.slots]
  issuedTimers := by simp [new]
  fits := by simp [new]
  sweeps := rfl
  watched filled := absurd rfl filled

/-- Other rules hold too if they admit the notes that are put off. -/
theorem refit (coherent : Coherent rules scheduler) {others : Rules α}
    (fits : ∀ timer ∈ scheduler.timers.queue, ∀ id note, timer.action = .reschedule id note →
      others.fit id note.cue) : Coherent others scheduler :=
  { coherent with fits }

/-- A scheduler that has a sweep ahead of it needs no other. -/
theorem of_pending (consistent : Consistent rules scheduler)
    (pending : scheduler.sweepPending = true) (sweeps : scheduler.timers.sweepCount = 1) :
    Coherent rules scheduler where
  toConsistent := consistent
  sweeps := by rw [sweeps, if_pos pending]
  watched _ := pending

/-- Making sure of a sweep puts one ahead of every note with a voice. -/
theorem ensureSweep (consistent : Consistent rules scheduler)
    (sweeps : scheduler.timers.sweepCount = if scheduler.sweepPending then 1 else 0) :
    Coherent rules scheduler.ensureSweep := by
  unfold Scheduler.ensureSweep
  -- A sweep that is ahead is enough, and otherwise a single one is set.
  by_cases pending : scheduler.sweepPending = true
  · rw [if_pos pending]
    exact of_pending consistent pending (by rw [sweeps, if_pos pending])
  · rw [if_neg pending]
    have counted := Timers.sweepCount_push scheduler.timers
      (scheduler.now + scheduler.settings.sweepInterval) .sweep
    refine of_pending ?_ rfl (by simpa [sweeps, pending, Action.note?] using counted)
    refine consistent.of_sweeps rfl rfl (consistent.linked.push_sweep _) ?_
    intro timer id noted
    -- A timer about a note is not the sweep that has been set.
    have other : timer ≠ ⟨scheduler.now + scheduler.settings.sweepInterval,
        scheduler.timers.tickets, .sweep⟩ := by
      rintro rfl
      cases noted
    exact (Timers.insert_perm _ _).mem_iff.trans (by simp [other])

/-- A note can lose its timer and its voice together, and make its entry sound. -/
theorem unset [ToneGenerator γ α] (coherent : Coherent rules scheduler) (id : NoteId)
    {effects : List (Effect α)} {lanes : Lanes α} {journal : List Notice} (regular : lanes.Regular)
    (distinct : (lanes.slots.map (·.entry.id)).Nodup)
    (future : ∀ slot, slot.sounding = false →
      (slot ∈ lanes.slots ↔ slot ∈ scheduler.slots ∧ slot.entry.id ≠ id))
    (known : ∀ slot ∈ lanes.slots, ∃ old ∈ scheduler.slots, old.entry.id = slot.entry.id) :
    Coherent rules ((scheduler.unset id).told effects lanes journal) where
  toConsistent := by
    refine coherent.shrink (· = id) rfl regular (coherent.linked.without id) distinct ?_ future
      fun slot member => Or.inl (known slot member)
    intro timer other noted
    -- The filter drops the timers of the note and no others.
    show timer ∈ scheduler.timers.queue.filter _ ↔ _
    simp [List.mem_filter, noted]
  sweeps := (Timers.sweepCount_without scheduler.timers id).trans coherent.sweeps
  watched filled := by
    -- A slot that is left was one of a note that had a sweep ahead.
    obtain ⟨slot, member⟩ := List.exists_mem_of_ne_nil _ filled
    obtain ⟨old, present, _⟩ := known slot member
    exact coherent.watched (List.ne_nil_of_mem present)

/-- A note without a voice can lose its timer. -/
theorem forget [ToneGenerator γ α] (coherent : Coherent rules scheduler) {id : NoteId}
    (unvoiced : ∀ slot ∈ scheduler.slots, slot.entry.id ≠ id) :
    Coherent rules (scheduler.unset id) := by
  have kept : Coherent rules ((scheduler.unset id).told [] scheduler.lanes scheduler.journal) :=
    coherent.unset id coherent.regular coherent.distinct
      (fun slot _ => ⟨fun member => ⟨member, unvoiced slot member⟩, And.left⟩)
      fun slot member => ⟨slot, member, rfl⟩
  exact kept

/-- A note can lose its voice together with its timer. -/
theorem withdraw [ToneGenerator γ α] (coherent : Coherent rules scheduler) {id : NoteId}
    {slot : Slot α} {effects : List (Effect α)} {lanes : Lanes α} {journal : List Notice}
    (regular : lanes.Regular) (slots : scheduler.slots.Perm (slot :: lanes.slots))
    (named : slot.entry.id = id) :
    Coherent rules ((scheduler.unset id).told effects lanes journal) := by
  -- The slot that goes was the only one of its note.
  have distinct := (slots.map (·.entry.id)).nodup_iff.mp coherent.distinct
  rw [List.map_cons, List.nodup_cons, named] at distinct
  refine coherent.unset id regular distinct.2 ?_ ?_
  · intro other _
    rw [slots.mem_iff, List.mem_cons]
    constructor
    · intro member
      exact ⟨Or.inr member, fun same => distinct.1 (same ▸ List.mem_map_of_mem member)⟩
    · rintro ⟨rfl | member, apart⟩
      · exact absurd named apart
      · exact member
  · intro other member
    exact ⟨other, slots.mem_iff.mpr (List.mem_cons_of_mem _ member), rfl⟩

/-- A prepared note can move to the sounding seat when its timer is gone. -/
theorem promote [ToneGenerator γ α] (coherent : Coherent rules scheduler) {pitch : Pitch}
    {entry : Entry α} {displaced : Option (Entry α)} {rest : List (Slot α)}
    {effects : List (Effect α)} {lanes : Lanes α} {journal : List Notice}
    (regular : lanes.Regular)
    (before : scheduler.slots.Perm
      (⟨pitch, false, entry⟩ :: (displaced.toList.map (⟨pitch, true, ·⟩) ++ rest)))
    (after : lanes.slots.Perm (⟨pitch, true, entry⟩ :: rest)) :
    Coherent rules ((scheduler.unset entry.id).told effects lanes journal) := by
  -- The note has one slot, which is not among the rest.
  have distinct := (before.map (·.entry.id)).nodup_iff.mp coherent.distinct
  simp only [List.map_cons, List.nodup_cons, List.map_append, List.mem_append, not_or,
    List.nodup_append] at distinct
  obtain ⟨⟨_, single⟩, _, others, _⟩ := distinct
  refine coherent.unset entry.id regular ?_ ?_ ?_
  · refine (after.map (·.entry.id)).nodup_iff.mpr ?_
    rw [List.map_cons, List.nodup_cons]
    exact ⟨single, others⟩
  · intro slot waits
    rw [after.mem_iff, before.mem_iff]
    simp only [List.mem_cons, List.mem_append, List.mem_map]
    -- It leaves the future slots together with its timer, and the seats are none of them.
    constructor
    · rintro (rfl | member)
      · cases waits
      · exact ⟨Or.inr (Or.inr member), fun same => single (same ▸ List.mem_map_of_mem member)⟩
    · rintro ⟨rfl | ⟨_, _, rfl⟩ | member, apart⟩
      · exact absurd rfl apart
      · cases waits
      · exact Or.inr member
  · intro slot member
    rcases List.mem_cons.mp (after.mem_iff.mp member) with rfl | inside
    · exact ⟨_, before.mem_iff.mpr (List.mem_cons_self ..), rfl⟩
    · exact ⟨slot, before.mem_iff.mpr
        (List.mem_cons_of_mem _ (List.mem_append_right _ inside)), rfl⟩

/-- Nothing stays of any note when every note is dropped. -/
theorem clear [ToneGenerator γ α] (coherent : Coherent rules scheduler)
    {effects : List (Effect α)} {journal : List Notice} :
    Coherent rules { scheduler.told effects [] journal with
      timers := scheduler.timers.dropNotes, tickets := [] } where
  toConsistent := by
    refine coherent.shrink (fun _ => True) rfl ⟨List.Pairwise.nil, by simp [told]⟩
      coherent.linked.dropNotes List.nodup_nil ?_ (by simp [told, Lanes.slots])
      (by simp [told, Lanes.slots])
    intro timer id noted
    -- A timer that is left is about no note.
    show timer ∈ scheduler.timers.queue.filter _ ↔ _
    simp [noted]
  sweeps := (Timers.sweepCount_dropNotes scheduler.timers).trans coherent.sweeps
  watched filled := absurd rfl filled

/-- A sweep forgets notes that have ended and returns while there is something to wait for. -/
theorem sweep (coherent : Coherent rules scheduler) {timer : Timer α} {rest : Timers α}
    (queued : scheduler.timers.queue = timer :: rest.queue)
    (counted : rest.tickets = scheduler.timers.tickets) (action : timer.action = .sweep) :
    Coherent rules ({ scheduler with timers := rest }).sweep := by
  -- The sweep that fires was the only one.
  have alone : rest.sweepCount = 0 := by
    have sweeps := coherent.sweeps
    have first : timer.action.note?.isNone = true := by rw [action]; rfl
    rw [Timers.sweepCount, queued, List.countP_cons, if_pos first] at sweeps
    rw [Timers.sweepCount]
    split at sweeps <;> omega
  have expired := Lanes.expire_slots scheduler.lanes scheduler.now
  -- Nothing that waits for a timer is over, so timers and future slots stay as they are.
  have swept : Consistent rules ({ scheduler with timers := rest }).swept := by
    refine coherent.shrink (fun _ => False) rfl (coherent.regular.expire _)
      (coherent.linked.pop_sweep queued counted action) ?_ ?_ ?_ ?_
    · show ((scheduler.lanes.expire scheduler.now).slots.map _).Nodup
      rw [expired]
      exact coherent.distinct.sublist (List.filter_sublist.map _)
    · intro other id noted
      have apart : other ≠ timer := by
        rintro rfl
        simp [action, Action.note?] at noted
      simp [swept, queued, apart]
    · intro slot waits
      show slot ∈ (scheduler.lanes.expire scheduler.now).slots ↔ _
      rw [expired]
      simp [Lanes.isOver, waits]
    · intro slot member
      have member : slot ∈ (scheduler.lanes.expire scheduler.now).slots := member
      rw [expired] at member
      exact Or.inl ⟨slot, List.mem_of_mem_filter member, rfl⟩
  rw [sweep_eq]
  split
  · -- An idle scheduler has no slots, so it needs no further sweep.
    rename_i idle
    refine ⟨swept, alone, fun filled => absurd ?_ filled⟩
    simp only [isIdle, Bool.and_eq_true, List.isEmpty_iff] at idle
    simp [slots, idle.1, Lanes.slots]
  · exact ensureSweep swept alone

/-- Every move keeps a scheduler coherent. -/
theorem of_move [ToneGenerator γ α] (coherent : Coherent rules scheduler)
    {effects : List (Effect α)} (move : Move rules scheduler effects next) :
    Coherent rules next := by
  cases move with
  | clock _ => exact { coherent with }
  | issue =>
    -- A larger count loosens the bounds on numbers and nothing else.
    exact { coherent with
      issued := fun slot member => Nat.lt_succ_of_lt (coherent.issued slot member)
      issuedTimers := fun timer member id noted =>
        Nat.lt_succ_of_lt (coherent.issuedTimers timer member id noted) }
  | forget unvoiced => exact coherent.forget unvoiced
  | withdraw regular slots named => exact coherent.withdraw regular slots named
  | clear => exact coherent.clear
  | @fade pitch entry rest lanes journal regular sounds before after =>
    -- The entry takes its own seat again, with another end.
    have seated : scheduler.slots.Perm
        ((some entry).toList.map (⟨pitch, true, ·⟩) ++ rest) := before
    refine ⟨coherent.reseat regular seated after (Or.inl ⟨entry, rfl, rfl⟩), coherent.sweeps,
      fun _ => coherent.watched ?_⟩
    exact List.ne_nil_of_mem (before.mem_iff.mpr (List.mem_cons_self ..))
  | defer lacks issued fit far =>
    -- The timer of a note is not a sweep, so the count of sweeps stays.
    refine ⟨coherent.defer lacks issued fit, ?_, coherent.watched⟩
    exact (Timers.sweepCount_push ..).trans coherent.sweeps
  | refuse _ _ _ _ => exact { coherent with }
  | start lacks issued fit created begun regular before after =>
    -- The seat changes hands before a sweep is made sure of.
    exact ensureSweep (coherent.reseat regular before after (Or.inr ⟨lacks, issued⟩))
      coherent.sweeps
  | @book id cue voice lanes journal lacks issued fit created ahead regular after =>
    -- The note enters with its timer before a sweep is made sure of.
    refine ensureSweep (coherent.book cue.pitch (scheduler.entryOf id cue voice) lacks issued
      regular after rfl rfl rfl) ?_
    exact (Timers.sweepCount_push ..).trans coherent.sweeps
  | wake queued due action =>
    -- A note that was put off has no slot, so only its timer goes.
    refine coherent.forget fun slot member => coherent.apart _ ?_ _ _ action slot member
    rw [queued]
    exact List.mem_cons_self ..
  | promote queued due action named regular before after =>
    subst named
    exact coherent.promote regular before after
  | sweep queued counted due action => exact coherent.sweep queued counted action

end Coherent

/-- Moves one after the other keep a scheduler coherent. -/
theorem Moves.coherent [ToneGenerator γ α] {effects : List (Effect α)}
    (moves : Moves rules scheduler effects next) (coherent : Coherent rules scheduler) :
    Coherent rules next :=
  moves.induction (fun coherent move => coherent.of_move move) coherent

end Melody.Scheduler
