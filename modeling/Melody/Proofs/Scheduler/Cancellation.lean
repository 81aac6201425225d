import Melody.Proofs.Scheduler.Ownership
import Melody.Proofs.Scheduler.Representation

/-! A note that has been cancelled stays so, unless it is scheduled again. -/

namespace Melody.Scheduler

variable {γ α : Type} {scheduler next : Scheduler γ α} {id : NoteId}

namespace Lacks

/-- A note stays without anything if nothing of it is added. -/
theorem mono (lacks : scheduler.Lacks id)
    (tickets : ∀ pair ∈ next.tickets, pair ∈ scheduler.tickets ∨ pair.1 ≠ id)
    (timers : ∀ timer ∈ next.timers.queue,
      timer ∈ scheduler.timers.queue ∨ timer.action.note? ≠ some id)
    (unvoiced : ∀ slot ∈ next.lanes.slots, slot.entry.id ≠ id) : next.Lacks id where
  unlisted pair member := (tickets pair member).elim (lacks.unlisted pair) fun apart => apart
  untimed timer member := (timers timer member).elim (lacks.untimed timer) fun apart => apart
  unvoiced := unvoiced

/-- A note without anything stays so when another one stops waiting. -/
theorem unset (lacks : scheduler.Lacks id) (other : NoteId) :
    (scheduler.unset other).Lacks id :=
  lacks.mono (fun _ member => Or.inl (List.mem_of_mem_filter member))
    (fun _ member => Or.inl (List.mem_of_mem_filter member)) lacks.unvoiced

/-- A note that is nowhere is not deferred. -/
theorem isDeferred (lacks : scheduler.Lacks id) : scheduler.isDeferred id = false := by
  rw [Bool.eq_false_iff, ne_eq, isDeferred_iff]
  rintro ⟨⟨pair, member, named⟩, _⟩
  exact lacks.unlisted pair member named

/-- A note that is nowhere is not waiting in a lane. -/
theorem isFuture (lacks : scheduler.Lacks id) : scheduler.isFuture id = false := by
  rw [Bool.eq_false_iff, ne_eq, isFuture_iff]
  rintro ⟨slot, member, _, named⟩
  exact lacks.unvoiced slot member named

/-- A note that is nowhere does not sound. -/
theorem isActive (lacks : scheduler.Lacks id) : scheduler.isActive id = false := by
  rw [Bool.eq_false_iff, ne_eq, isActive_iff]
  rintro ⟨slot, member, _, named⟩
  exact lacks.unvoiced slot member named

variable [Analytic α]

/-- A note without anything stays so when a timer is set for another one. -/
theorem setTimer (lacks : scheduler.Lacks id) {other : NoteId} (apart : other ≠ id) (due : α)
    {action : Action α} (noted : action.note? = some other) :
    (scheduler.setTimer other due action).Lacks id := by
  refine lacks.mono (fun pair member => ?_) (fun timer member => ?_) lacks.unvoiced
  · -- What is new in the table and among the timers is about the other note.
    rcases List.mem_cons.mp member with rfl | kept
    · exact Or.inr apart
    · exact Or.inl (List.mem_of_mem_filter kept)
  · rcases mem_setTimer.mp member with rfl | queued
    · exact Or.inr (by simpa [noted] using apart)
    · exact Or.inl queued

/-- A note without anything stays so when a sweep is set. -/
theorem ensureSweep (lacks : scheduler.Lacks id) : scheduler.ensureSweep.Lacks id := by
  unfold Scheduler.ensureSweep
  -- What may be new among the timers is a sweep, which is about no note.
  by_cases pending : scheduler.sweepPending = true
  · rw [if_pos pending]
    exact lacks
  · rw [if_neg pending]
    refine lacks.mono (fun _ member => Or.inl member) (fun timer member => ?_) lacks.unvoiced
    rcases List.mem_cons.mp ((Timers.insert_perm _ _).mem_iff.mp member) with rfl | queued
    · exact Or.inr (by simp [Action.note?])
    · exact Or.inl queued

end Lacks

/-- A note that is neither put off, to come nor sounding, and that there is nothing to cancel of. -/
structure Gone [ToneGenerator γ α] (scheduler : Scheduler γ α) (id : NoteId) : Prop where
  deferred : scheduler.isDeferred id = false
  future : scheduler.isFuture id = false
  active : scheduler.isActive id = false
  /-- No timer mentions the note. -/
  untimed : ∀ timer ∈ scheduler.timers.queue, timer.action.note? ≠ some id
  /-- To cancel the note again changes nothing and is answered in the negative. -/
  again : scheduler.cancel id = (scheduler, false)

namespace Lacks

variable [ToneGenerator γ α]

/-- A note without anything stays so if it does not enter the lanes. -/
theorem told (lacks : scheduler.Lacks id) {effects : List (Effect α)} {lanes : Lanes α}
    {journal : List Notice} (unvoiced : ∀ slot ∈ lanes.slots, slot.entry.id ≠ id) :
    (scheduler.told effects lanes journal).Lacks id :=
  lacks.mono (fun _ member => Or.inl member) (fun _ member => Or.inl member) unvoiced

/-- Cancelling a note without anything changes nothing. -/
theorem cancel_eq (lacks : scheduler.Lacks id) : scheduler.cancel id = (scheduler, false) := by
  -- Neither the table nor the lanes have anything to be found.
  have waiting : scheduler.tickets.find? (·.1 == id) = none :=
    List.find?_eq_none.mpr fun pair member => by simpa using lacks.unlisted pair member
  have unvoiced : scheduler.lanes.take? id = none := Lanes.take?_eq_none.mpr lacks.unvoiced
  simp [cancel, dropTimer, dropVoice, waiting, unvoiced]

/-- Nothing is left of a note that has neither a timer nor a voice. -/
theorem gone (lacks : scheduler.Lacks id) : scheduler.Gone id where
  deferred := lacks.isDeferred
  future := lacks.isFuture
  active := lacks.isActive
  untimed := lacks.untimed
  again := lacks.cancel_eq

end Lacks

/-- The rules that one note must not be scheduled. -/
def sparing (id : NoteId) : Rules α :=
  ⟨fun other _ => other ≠ id, fun _ _ => True⟩

variable [Analytic α]

/-- Fading out entries of other notes does not concern a note. -/
theorem fadeEffects_apart {cause : Entry α → NoteId} {seated : Option (Entry α)}
    (apart : ∀ entry, seated = some entry → cause entry ≠ id ∧ entry.id ≠ id) :
    ∀ effect ∈ scheduler.fadeEffects cause seated, ¬ effect.Concerns id := by
  intro effect member
  obtain ⟨entry, sounding, rfl⟩ := List.mem_map.mp member
  -- There is an effect only if the seat is taken, by a note that is another one.
  obtain ⟨seated, _⟩ := Option.filter_eq_some_iff.mp (Option.mem_toList.mp sounding)
  exact fun concerned => concerned.elim (apart entry seated).1 (apart entry seated).2

/-- Making the voice of another note does not concern a note. -/
theorem voiceEffects_apart {other : NoteId} (apart : other ≠ id) {cue : Cue α} {voice : Nat}
    {displaced : Option (Entry α)}
    (seated : ∀ entry, displaced = some entry → entry.id ≠ id) :
    ∀ effect ∈ scheduler.voiceEffects other cue voice displaced, ¬ effect.Concerns id := by
  intro effect member
  -- The voice is that of the other note, and so is the cause of the fade.
  rcases List.mem_append.mp member with own | faded
  · rcases List.mem_cons.mp own with rfl | commanded
    · exact apart
    · obtain ⟨command, _, rfl⟩ := List.mem_map.mp commanded
      exact fun concerned => concerned.elim apart apart
  · exact fadeEffects_apart (fun entry here => ⟨apart, seated entry here⟩) effect faded

/-- A coherent scheduler without a note is coherent under the rules that spare it. -/
theorem Lacks.coherent {rules : Rules α} (lacks : scheduler.Lacks id)
    (coherent : Coherent rules scheduler) : Coherent (sparing id) scheduler :=
  -- A note that is put off has a timer, so it is not the one without any.
  { coherent with
    fits := fun timer queued other note action same =>
      lacks.untimed timer queued (by rw [action, ← same]; rfl) }

variable [ToneGenerator γ α]

/-- No move of other notes concerns a note without anything, which stays so. -/
theorem Move.lacks {effects : List (Effect α)} (lacks : scheduler.Lacks id)
    (move : Move (sparing id) scheduler effects next) :
    next.Lacks id ∧ ∀ effect ∈ effects, ¬ effect.Concerns id := by
  -- A note that a move is about has a timer, an entry or a turn of its own, so it is another one.
  have absent : ∀ {slot others}, scheduler.slots.Perm others → slot ∈ others →
      slot.entry.id ≠ id := fun perm member => lacks.unvoiced _ (perm.mem_iff.mpr member)
  cases move with
  | clock _ => exact ⟨{ lacks with }, by simp⟩
  | issue => exact ⟨{ lacks with }, by simp⟩
  | forget _ => exact ⟨lacks.unset _, by simp⟩
  | defer _ _ fit _ => exact ⟨lacks.setTimer fit _ rfl, by simp⟩
  | refuse _ _ fit _ =>
    refine ⟨lacks.told lacks.unvoiced, ?_⟩
    rintro effect (_ | ⟨_, ⟨⟩⟩)
    exact fit
  | withdraw regular slots named =>
    -- The voice that goes is that of a note with an entry.
    have apart := absent slots (List.mem_cons_self ..)
    refine ⟨(lacks.unset _).told fun slot member =>
      absent slots (List.mem_cons_of_mem _ member), ?_⟩
    rintro effect (_ | ⟨_, ⟨⟩⟩)
    exact fun concerned => concerned.elim (named ▸ apart) apart
  | clear =>
    refine ⟨⟨by simp, ?_, by simp [told, Lanes.slots]⟩, ?_⟩
    · -- The timers that are left were there before.
      exact fun timer member => lacks.untimed timer (List.mem_of_mem_filter member)
    · intro effect member
      obtain ⟨entry, inside, rfl⟩ := List.mem_map.mp member
      rw [← Lanes.slots_entries] at inside
      obtain ⟨slot, present, rfl⟩ := List.mem_map.mp inside
      exact fun concerned =>
        concerned.elim (lacks.unvoiced slot present) (lacks.unvoiced slot present)
  | fade regular sounds before after =>
    -- The note that fades has the seat, before and after.
    have apart := absent before (List.mem_cons_self ..)
    refine ⟨lacks.told fun slot member => ?_, ?_⟩
    · -- The seat goes to the note that is let in, and all other slots were there.
      rcases List.mem_cons.mp (after.mem_iff.mp member) with rfl | inside
      · exact apart
      · exact absent before (List.mem_cons_of_mem _ inside)
    · rintro effect (_ | ⟨_, ⟨⟩⟩)
      exact fun concerned => concerned.elim apart apart
  | start _ _ fit _ _ _ before after =>
    refine ⟨(lacks.told fun slot member => ?_).ensureSweep, ?_⟩
    · -- The new slot is that of the note that is let in.
      rcases List.mem_cons.mp (after.mem_iff.mp member) with rfl | inside
      · exact fit
      · exact absent before (List.mem_append_right _ inside)
    · refine voiceEffects_apart fit fun entry seated => ?_
      exact absent before (List.mem_append_left _ (List.mem_map_of_mem (by simp [seated])))
  | book _ _ fit _ _ _ after =>
    refine ⟨((lacks.told fun slot member => ?_).setTimer fit _ rfl).ensureSweep, ?_⟩
    · rcases List.mem_cons.mp (after.mem_iff.mp member) with rfl | inside
      · exact fit
      · exact lacks.unvoiced slot inside
    · exact voiceEffects_apart fit (by simp)
  | wake queued due action =>
    refine ⟨lacks.unset _, ?_⟩
    rintro effect (_ | ⟨_, ⟨⟩⟩)
    -- The timer that fires is about the note that wakes.
    exact lacks.untimed _ (queued ▸ List.mem_cons_self ..)
  | promote queued due action named regular before after =>
    -- The note that comes to sound had an entry, and so did the one that makes way.
    have apart := absent before (List.mem_cons_self ..)
    refine ⟨(lacks.unset _).told fun slot member => ?_, ?_⟩
    · rcases List.mem_cons.mp (after.mem_iff.mp member) with rfl | inside
      · exact apart
      · exact absent before (List.mem_cons_of_mem _ (List.mem_append_right _ inside))
    · rintro effect (_ | ⟨_, faded⟩)
      · exact lacks.untimed _ (queued ▸ List.mem_cons_self ..)
      · refine fadeEffects_apart (fun entry seated => ⟨named ▸ apart, ?_⟩) effect faded
        exact absent before (List.mem_cons_of_mem _
          (List.mem_append_left _ (List.mem_map_of_mem (by simp [seated]))))
  | @sweep timer rest queued counted due action =>
    -- A sweep takes slots and its own timer away and adds none of a note.
    have popped : ({ scheduler with timers := rest }).swept.Lacks id := by
      refine lacks.mono (fun _ member => Or.inl member)
        (fun _ member => Or.inl (queued ▸ List.mem_cons_of_mem _ member)) fun slot member => ?_
      have member : slot ∈ (scheduler.lanes.expire scheduler.now).slots := member
      rw [Lanes.expire_slots] at member
      exact lacks.unvoiced slot (List.mem_of_mem_filter member)
    constructor
    · rcases sweep_cases ({ scheduler with timers := rest }) with same | same
      · exact same ▸ popped
      · exact same ▸ popped.ensureSweep
    · rintro effect (_ | ⟨_, ⟨⟩⟩)
      exact lacks.untimed timer (queued ▸ List.mem_cons_self ..)

/-- No moves of other notes concern a note without anything, which stays so. -/
theorem Moves.lacks {effects : List (Effect α)} (lacks : scheduler.Lacks id)
    (moves : Moves (sparing id) scheduler effects next) :
    next.Lacks id ∧ ∀ effect ∈ effects, ¬ effect.Concerns id := by
  -- What the note lacks at the end of a move it lacks at the start of the next.
  induction moves with
  | done => exact ⟨lacks, by simp⟩
  | step move _ ih =>
    obtain ⟨still, first⟩ := move.lacks lacks
    obtain ⟨last, rest⟩ := ih still
    refine ⟨last, fun effect member => ?_⟩
    rcases List.mem_append.mp member with early | late
    · exact first effect early
    · exact rest effect late

/-- Requests under numbers that were given out, none of which schedules a note again. -/
def Spares (id : NoteId) (scheduler : Scheduler γ α) (request : Request α) : Prop :=
  scheduler.Issued request ∧ ∀ note, request ≠ .schedule note (some id)

/-- A note that is not scheduled under its number is only met if its number is given out. -/
theorem Spares.obeys {rules : Rules α} (coherent : Coherent rules scheduler)
    (free : ∀ other cue, rules.fit other cue) {request : Request α}
    (spares : scheduler.Spares id request)
    (known : id.number < scheduler.nextId ∨ (scheduler.perform request).nextId ≤ id.number) :
    scheduler.Obeys (sparing id) request := by
  -- A number that is given out is neither an earlier nor a later one.
  have fresh : ∀ {state : Scheduler γ α} {effects}, Moves rules scheduler.freshId.1 effects state →
      (scheduler.perform request).nextId = state.nextId → scheduler.freshId.2 ≠ id := by
    rintro state effects moves same rfl
    have grown : scheduler.nextId + 1 ≤ state.nextId := moves.nextId_le
    have number : scheduler.freshId.2.number = scheduler.nextId := rfl
    omega
  have given : Move rules scheduler [] scheduler.freshId.1 := .issue
  refine ⟨spares.1, ?_⟩
  cases request with
  | schedule note id? =>
    cases id? with
    -- The number is given with the request, so it is another one.
    | some other => exact fun same => spares.2 note (same ▸ rfl)
    | none =>
      exact fresh ((coherent.of_move given).place_moves note coherent.lacks_fresh
        (Nat.lt_succ_self _) (free _ _)) rfl
  | playPitch pitch velocity =>
    intro checked
    refine fresh (.single ((coherent.of_move given).prepare_move
      (scheduler.heldCue pitch velocity) coherent.lacks_fresh (Nat.lt_succ_self _) (free _ _))) ?_
    show (scheduler.playPitch pitch velocity).1.nextId = _
    rw [playPitch, checked]
    rfl
  | _ => trivial

/-- A run without a note's number asks for nothing of the note. -/
theorem along_sparing (coherent : Coherent .free scheduler) {requests : List (Request α)}
    (spares : scheduler.Along (Spares id) requests)
    (known : id.number < scheduler.nextId ∨ (scheduler.run requests).nextId ≤ id.number) :
    scheduler.Along (Obeys (sparing id)) requests := by
  induction requests generalizing scheduler with
  | nil => trivial
  | cons request later ih =>
    obtain ⟨first, rest⟩ := spares
    -- The count only grows, so the bound at the end holds in between too.
    have moves := coherent.perform_moves (obeys_free first.1)
    have after := moves.coherent coherent
    have still := (after.run_moves (rest.imp fun _ _ spared => obeys_free spared.1)).nextId_le
    have before := moves.nextId_le
    rw [run_cons] at known
    exact ⟨first.obeys coherent (fun _ _ => trivial) (by omega), ih after rest (by omega)⟩

/-- A note that has a voice loses it to the cancellation, and no other voice is touched. -/
theorem Coherent.cancel_voiced {rules : Rules α} (coherent : Coherent rules scheduler)
    {entry : Entry α} (member : entry ∈ scheduler.entries) (named : entry.id = id) :
    (scheduler.cancel id).1.generator =
        (ToneGenerator.obey scheduler.generator entry.voice .destroy).1 ∧
      scheduler.entries.Perm (entry :: (scheduler.cancel id).1.entries) := by
  obtain ⟨slot, present, rfl⟩ := List.mem_map.mp member
  -- The timer goes first, which neither the lanes nor the generator notice.
  have lanes : (scheduler.dropTimer id).1.lanes = scheduler.lanes := by
    rw [coherent.dropTimer_eq]
    rfl
  have generator : (scheduler.dropTimer id).1.generator = scheduler.generator := by
    rw [coherent.dropTimer_eq]
    rfl
  cases taken : scheduler.lanes.take? id with
  | none => exact absurd named (Lanes.take?_eq_none.mp taken slot present)
  | some pair =>
    obtain ⟨first, rest⟩ := pair
    obtain ⟨same, _, pitch, sounding, slots⟩ := Lanes.take?_spec coherent.regular taken
    -- The slot that is taken out is the one of the note, for there is no second.
    have equal := coherent.slot_eq (slots.mem_iff.mpr (List.mem_cons_self ..)) present
      (same.trans named.symm)
    have equal : first = slot.entry := congrArg Slot.entry equal
    have left : (scheduler.cancel id).1.entries = rest.slots.map Slot.entry := by
      simp [cancel, dropVoice, lanes, taken, command, entries]
    constructor
    · simp [cancel, dropVoice, lanes, generator, taken, equal, command]
    · rw [left, ← equal]
      exact slots.map Slot.entry

/-- A voice was created and is held by no entry. -/
structure Retired (voice : Nat) (recorder : Recorder α) (entries : List (Entry α)) : Prop where
  known : voice < recorder.created
  gone : ∀ entry ∈ entries, entry.voice ≠ voice

section Recording

variable {rules : Rules α} {settings : Settings α} {now : α} {voice : Nat} {recorder : Recorder α}
  {scheduler next : Scheduler (Recorder α) α}

/-- Nothing is written down any more of a voice that is held by no entry. -/
theorem Retired.handover {before after : Recorder α × List (Entry α)}
    (retired : Retired voice before.1 before.2) (step : Handover rules settings now before after) :
    Retired voice after.1 after.2 ∧ after.1.records.filter (·.voice == voice) =
      before.1.records.filter (·.voice == voice) := by
  obtain ⟨known, gone⟩ := retired
  -- Lines about other voices do not show when the record is searched for this one.
  have silent : ∀ {records : List (Record α)}, (∀ record ∈ records, record.voice ≠ voice) →
      (before.1.records ++ records).filter (·.voice == voice) =
        before.1.records.filter (·.voice == voice) := by
    intro records others
    have none : records.filter (·.voice == voice) = [] :=
      List.filter_eq_nil_iff.mpr (by simpa using others)
    rw [List.filter_append, none, List.append_nil]
  cases step with
  | swap perm =>
    exact ⟨⟨known, fun entry member => gone entry (perm.mem_iff.mpr member)⟩, rfl⟩
  | refuse => exact ⟨⟨known, gone⟩, rfl⟩
  | enter fit finish =>
    -- The new voice has the next number, and this one was created before.
    have apart := Nat.ne_of_gt known
    refine ⟨⟨Nat.lt_succ_of_lt known, fun entry member => ?_⟩, silent fun record inside => ?_⟩
    · rcases List.mem_cons.mp member with rfl | inside
      · exact apart
      · exact gone entry inside
    · exact voice_of_mem_opening _ _ _ record inside ▸ apart
  | destroy =>
    refine ⟨⟨known, fun entry member => gone entry (List.mem_cons_of_mem _ member)⟩, silent ?_⟩
    simpa [Record.voice] using gone _ (List.mem_cons_self ..)
  | displace sounds =>
    refine ⟨⟨known, fun entry member => gone entry (List.mem_cons_of_mem _ member)⟩, silent ?_⟩
    simpa [Record.voice] using gone _ (List.mem_cons_self ..)
  | fade sounds =>
    have apart := gone _ (List.mem_cons_self ..)
    refine ⟨⟨known, fun entry member => ?_⟩, silent (by simpa [Record.voice] using apart)⟩
    rcases List.mem_cons.mp member with rfl | inside
    · exact apart
    · exact gone entry (List.mem_cons_of_mem _ inside)
  | forget ended =>
    exact ⟨⟨known, fun entry member => gone entry (List.mem_cons_of_mem _ member)⟩, rfl⟩

/-- Handing over voices leaves a retired voice retired, and tells it nothing. -/
theorem Retired.handovers {before after : Recorder α × List (Entry α)}
    (retired : Retired voice before.1 before.2)
    (steps : Handovers rules settings now before after) :
    Retired voice after.1 after.2 ∧ after.1.records.filter (·.voice == voice) =
      before.1.records.filter (·.voice == voice) := by
  induction steps with
  | refl => exact ⟨retired, rfl⟩
  | tail _ step ih =>
    obtain ⟨still, same⟩ := ih.1.handover step
    exact ⟨still, same.trans ih.2⟩

/-- Moves of a scheduler leave a retired voice retired, and tell it nothing. -/
theorem Retired.moves {effects : List (Effect α)} (moves : Moves rules scheduler effects next)
    (retired : Retired voice scheduler.generator scheduler.entries) :
    Retired voice next.generator next.entries ∧ next.generator.records.filter (·.voice == voice) =
      scheduler.generator.records.filter (·.voice == voice) := by
  -- A move of the clock writes nothing down, and hand-overs nothing of the voice.
  induction moves with
  | done => exact ⟨retired, rfl⟩
  | step move _ ih =>
    rcases move.handovers with ⟨generator, entries, _⟩ | ⟨_, handovers⟩
    · rw [← generator, ← entries] at retired
      obtain ⟨still, same⟩ := ih retired
      exact ⟨still, generator ▸ same⟩
    · obtain ⟨still, same⟩ := retired.handovers handovers
      obtain ⟨last, rest⟩ := ih still
      exact ⟨last, rest.trans same⟩

/-- No effect of moves is about a voice that is held by no entry. -/
theorem Retired.effects {effects : List (Effect α)} (moves : Moves rules scheduler effects next)
    (retired : Retired voice scheduler.generator scheduler.entries) :
    ∀ record ∈ effects.filterMap Effect.record?, record.voice ≠ voice := by
  have same := (retired.moves moves).2
  rw [moves.records, List.filter_append, List.append_right_eq_self, List.filter_eq_nil_iff] at same
  simpa using same

end Recording

/-- What holds of a note after it has been cancelled, at once and in every run that spares it. -/
structure Cancelled (scheduler : Scheduler (Recorder α) α) (id : NoteId) : Prop where
  gone : (scheduler.cancel id).1.Gone id
  /-- The voice of the note has been destroyed once. -/
  destroyed : ∀ entry ∈ scheduler.lanes.flatMap Lane.entries, entry.id = id →
    (scheduler.cancel id).1.generator.destroyCount entry.voice = 1
  /-- Nothing happens any more that the note causes or that its voice or its timer undergoes. -/
  final : ∀ later, (scheduler.cancel id).1.Along (Spares id) later →
    (id.number < scheduler.nextId ∨ ((scheduler.cancel id).1.run later).nextId ≤ id.number) →
    ((scheduler.cancel id).1.run later).Gone id ∧
    (∀ effect ∈ (scheduler.cancel id).1.history later, ¬ effect.Concerns id) ∧
    ((scheduler.cancel id).1.run later).generator.records =
      (scheduler.cancel id).1.generator.records ++
        ((scheduler.cancel id).1.history later).filterMap Effect.record? ∧
    ∀ entry ∈ scheduler.lanes.flatMap Lane.entries, entry.id = id →
      ((scheduler.cancel id).1.run later).generator.destroyCount entry.voice = 1 ∧
      ∀ record ∈ ((scheduler.cancel id).1.history later).filterMap Effect.record?,
        record.voice ≠ entry.voice

section Finality

variable {scheduler : Scheduler (Recorder α) α}

/-- The voice of a note is destroyed once when the note is cancelled, and held no longer. -/
theorem Owned.destroyed (coherent : Coherent .free scheduler)
    (owned : Owned scheduler.generator scheduler.entries) {entry : Entry α}
    (member : entry ∈ scheduler.lanes.flatMap Lane.entries) (named : entry.id = id) :
    (scheduler.cancel id).1.generator.destroyCount entry.voice = 1 ∧
      Retired entry.voice (scheduler.cancel id).1.generator (scheduler.cancel id).1.entries := by
  rw [← Lanes.slots_entries] at member
  obtain ⟨generator, perm⟩ := coherent.cancel_voiced member named
  have generator : (scheduler.cancel id).1.generator =
      scheduler.generator.add [.commanded entry.voice .destroy] := generator
  -- Voices are distinct, so no entry that is left has this one.
  have apart := (perm.map Entry.voice).nodup_iff.mp owned.single
  rw [List.map_cons, List.nodup_cons] at apart
  rw [generator]
  refine ⟨?_, owned.known entry member, fun other inside same => ?_⟩
  · rw [Recorder.destroyCount_add, owned.alive entry member]
    simp [Record.destroys]
  · exact apart.1 (same ▸ List.mem_map_of_mem inside)

/-- A note that is cancelled in a coherent scheduler with voices of its own stays cancelled. -/
theorem Owned.cancelled (coherent : Coherent .free scheduler)
    (owned : Owned scheduler.generator scheduler.entries) (id : NoteId) :
    scheduler.Cancelled id := by
  obtain ⟨move, lacks⟩ := coherent.cancel_move id
  have cancelled := coherent.of_move move
  refine ⟨lacks.gone, fun entry member named => (owned.destroyed coherent member named).1, ?_⟩
  intro later spares known
  -- The run is one under the rules that spare the note, and so are all its moves.
  have along := along_sparing cancelled spares
    (known.imp (fun given => Nat.lt_of_lt_of_le given move.nextId_le) fun ahead => ahead)
  have moves := (lacks.coherent cancelled).run_moves along
  obtain ⟨last, apart⟩ := moves.lacks lacks
  refine ⟨last.gone, apart, moves.records, fun entry member named => ?_⟩
  obtain ⟨once, retired⟩ := owned.destroyed coherent member named
  have others := retired.effects moves
  refine ⟨?_, others⟩
  -- Nothing further is written down of the voice, so it is destroyed no second time.
  rw [Recorder.destroyCount, moves.records, List.countP_append, Record.countP_destroys others,
    Nat.add_zero]
  exact once

end Finality

/-- In every state that a run can reach, a note that is cancelled stays cancelled. -/
theorem run_cancelled (admits : Nat → Bool) (now : α) (settings : Settings α)
    {requests : List (Request α)}
    (issued : (new ({ admits } : Recorder α) now settings).Along Issued requests) (id : NoteId) :
    ((new ({ admits } : Recorder α) now settings).run requests).Cancelled id := by
  -- Coherence and ownership hold at the start and are carried along the moves of the run.
  have moves := (Coherent.initial .free ({ admits } : Recorder α) now settings).run_moves
    (issued.imp fun _ _ => obeys_free)
  exact (Owned.moves moves (.initial admits now settings)).cancelled
    (moves.coherent (.initial .free _ now settings)) id

/-- A note is cancelled while it waits for its start, under a number that it had before. -/
theorem run_cancelled_future :
    ((new ({ admits := fun attempt => attempt != 1 } : Recorder Float) 0.0 .standard).run
      [.schedule ⟨⟨60⟩, 5.0, 1.0, 1.0, 0.0⟩ none, .playPitch ⟨60⟩ 1.0,
        .schedule ⟨⟨60⟩, 0.125, 1.0, 1.0, 0.0⟩ (some ⟨0⟩),
        .schedule ⟨⟨62⟩, 0.125, 1.0, 1.0, 0.0⟩ (some ⟨0⟩)]).Cancelled ⟨0⟩ :=
  run_cancelled (fun attempt => attempt != 1) 0.0 .standard (by decide +kernel) ⟨0⟩

end Melody.Scheduler
