import Melody.Proofs.Scheduler.Coherence

/-! Every request to a coherent scheduler is a sequence of elementary moves. -/

namespace Melody.Scheduler

variable {γ α : Type}

section Telling

variable [ToneGenerator γ α]

/-- Effects that follow others pass through the generator that those leave. -/
theorem told_told (scheduler : Scheduler γ α) (effects later : List (Effect α))
    (lanes next : Lanes α) (journal last : List Notice) :
    (scheduler.told effects lanes journal).told later next last =
      scheduler.told (effects ++ later) next last := by
  simp only [told, hear_append]

/-- Commands to a voice reach the generator and the journal only. -/
theorem commands_eq (scheduler : Scheduler γ α) (id : NoteId) (voice : Nat)
    (commands : List (Command α)) :
    ∃ journal, scheduler.commands voice commands =
      scheduler.told (commands.map (.commanded id id voice)) scheduler.lanes journal := by
  -- Each command hands its notices and the generator to the next one.
  induction commands generalizing scheduler with
  | nil => exact ⟨scheduler.journal, rfl⟩
  | cons first later ih => exact ih (scheduler.command voice first)

/-- Destroying the voices of entries reaches the generator and the journal only. -/
theorem destroy_eq (scheduler : Scheduler γ α) (entries : List (Entry α)) :
    ∃ journal, entries.foldl (fun scheduler entry => scheduler.command entry.voice .destroy)
        scheduler =
      scheduler.told (entries.map fun entry => .commanded entry.id entry.id entry.voice .destroy)
        scheduler.lanes journal := by
  -- The entries lose their voices one after the other, as commands do.
  induction entries generalizing scheduler with
  | nil => exact ⟨scheduler.journal, rfl⟩
  | cons first later ih => exact ih (scheduler.command first.voice .destroy)

/-- Cancelling every note empties the tables and takes their voices away. -/
theorem cancelAll_eq (scheduler : Scheduler γ α) :
    ∃ journal, scheduler.cancelAll = { scheduler.told scheduler.cancelAllEffects [] journal with
      timers := scheduler.timers.dropNotes, tickets := [] } := by
  -- The tables are emptied first, and the voices of the old entries go after that.
  obtain ⟨journal, told⟩ := destroy_eq ({ scheduler with
    timers := scheduler.timers.dropNotes, tickets := [], lanes := [] })
    (scheduler.lanes.flatMap Lane.entries)
  exact ⟨journal, told⟩

end Telling

/-- A note whose timer and voice are gone has nothing left. -/
theorem Lacks.of_unset (scheduler : Scheduler γ α) {next : Scheduler γ α} {id : NoteId}
    (timers : next.timers = scheduler.timers.without id)
    (tickets : next.tickets = scheduler.tickets.filter (·.1 != id))
    (unvoiced : ∀ slot ∈ next.lanes.slots, slot.entry.id ≠ id) : next.Lacks id where
  -- The ticket and the timers were filtered for other notes.
  unlisted pair member := by
    rw [tickets] at member
    simpa using (List.mem_filter.mp member).2
  untimed timer member := by
    rw [timers] at member
    simpa using (List.mem_filter.mp member).2
  unvoiced := unvoiced

variable [Analytic α] {rules : Rules α} {scheduler : Scheduler γ α}

/-- What fading out a lane tells its voice is read off the clock and the settings. -/
theorem releaseLaneEffects_congr {one other : Scheduler γ α} (now : one.now = other.now)
    (settings : one.settings = other.settings) (lane : Lane α) :
    one.releaseLaneEffects lane = other.releaseLaneEffects lane := by
  simp [releaseLaneEffects, fadeEffects, fadeEffect, sustainLevel, now, settings]

section Releasing

variable [ToneGenerator γ α]

/-- Fading out a lane puts the end of its note at now, if the note sounds on, or does nothing. -/
theorem releaseLane_spec (regular : scheduler.lanes.Regular) {lane : Lane α}
    (member : lane ∈ scheduler.lanes) :
    ((scheduler.releaseLane lane).1 = scheduler ∧ scheduler.releaseLaneEffects lane = []) ∨
    ∃ entry rest lanes journal, Lanes.Regular lanes ∧
      entry.finish.isAfter scheduler.now = true ∧
      scheduler.lanes.slots.Perm (⟨lane.pitch, true, entry⟩ :: rest) ∧
      lanes.slots.Perm (⟨lane.pitch, true, { entry with finish := .at scheduler.now }⟩ :: rest) ∧
      scheduler.releaseLaneEffects lane = [scheduler.fadeEffect entry.id entry] ∧
      (scheduler.releaseLane lane).1 =
        scheduler.told [scheduler.fadeEffect entry.id entry] lanes journal := by
  unfold releaseLane releaseLaneEffects fadeEffects
  cases seated : lane.active with
  | none => exact Or.inl ⟨rfl, rfl⟩
  | some entry =>
    by_cases sounds : entry.finish.isAfter scheduler.now = true
    · -- The entry keeps its seat with its end put at now.
      obtain ⟨rest, before, after⟩ := Lanes.seat_slots regular.ordered member seated
        { entry with finish := .at scheduler.now }
      have filled : (scheduler.lanes.update lane.pitch fun lane =>
          { lane with active := some { entry with finish := .at scheduler.now } }).Regular :=
        regular.update lane.pitch (fun _ same => same) fun _ => by simp [Lane.isEmpty]
      simp only [if_pos sounds, Option.filter_some, Option.toList_some, List.map_cons,
        List.map_nil]
      exact Or.inr ⟨entry, rest, _, _, filled, sounds, before, after, rfl, rfl⟩
    · -- A note that is over already is left alone.
      simp only [if_neg sounds, Option.filter_some, Option.toList_none, List.map_nil]
      exact Or.inl ⟨trivial, trivial⟩

/-- Fading out a lane leaves the clock, the settings and the other lanes alone. -/
theorem releaseLane_others (regular : scheduler.lanes.Regular) (lane : Lane α) :
    (scheduler.releaseLane lane).1.now = scheduler.now ∧
      (scheduler.releaseLane lane).1.settings = scheduler.settings ∧
      ∀ other ∈ scheduler.lanes, other.pitch ≠ lane.pitch →
        other ∈ (scheduler.releaseLane lane).1.lanes := by
  unfold releaseLane
  cases lane.active with
  | none => exact ⟨rfl, rfl, fun other inside _ => inside⟩
  | some entry =>
    -- Only the lane that is released is updated.
    by_cases sounds : entry.finish.isAfter scheduler.now = true
    · simp only [if_pos sounds]
      refine ⟨rfl, rfl, fun other inside apart => ?_⟩
      refine (Lanes.update_perm regular.ordered lane.pitch _).mem_iff.mpr ?_
      exact List.mem_cons_of_mem _ (List.mem_filter.mpr ⟨inside, by simpa using apart⟩)
    · simp only [if_neg sounds]
      exact ⟨trivial, trivial, fun other inside _ => inside⟩

/-- Fading out a lane keeps lanes regular. -/
theorem releaseLane_regular (regular : scheduler.lanes.Regular) {lane : Lane α}
    (member : lane ∈ scheduler.lanes) : (scheduler.releaseLane lane).1.lanes.Regular := by
  -- A lane that is not released stays as it is.
  rcases releaseLane_spec regular member with
    ⟨same, _⟩ | ⟨_, _, lanes, _, filled, _, _, _, _, told⟩
  · rw [same]
    exact regular
  · rw [told]
    exact filled

/-- What every lane that is faded out keeps holds after all of them. -/
theorem releaseAll_induction {motive : List (Effect α) → Scheduler γ α → Prop}
    (regular : scheduler.lanes.Regular) (start : motive [] scheduler)
    (kept : ∀ {effects} {current : Scheduler γ α} (lane : Lane α), motive effects current →
      current.lanes.Regular → lane ∈ current.lanes →
      motive (effects ++ current.releaseLaneEffects lane) (current.releaseLane lane).1) :
    motive scheduler.releaseAllEffects scheduler.releaseAll := by
  -- The lanes still ahead are untouched, so what was read of them at first still holds.
  suffices general : ∀ (later : Lanes α) (effects : List (Effect α)) (current : Scheduler γ α),
      motive effects current → current.lanes.Regular →
      current.now = scheduler.now → current.settings = scheduler.settings →
      Lanes.Ordered later → (∀ lane ∈ later, lane ∈ current.lanes) →
      motive (effects ++ later.flatMap scheduler.releaseLaneEffects)
        (later.foldl (fun scheduler lane => (scheduler.releaseLane lane).1) current) from
    general scheduler.lanes [] scheduler start regular rfl rfl regular.ordered
      fun _ member => member
  intro later
  induction later with
  | nil => intro effects current held _ _ _ _ _; simpa using held
  | cons lane later ih =>
    intro effects current held whole now settings ordered present
    have member := present lane (List.mem_cons_self ..)
    obtain ⟨sameNow, sameSettings, others⟩ := releaseLane_others whole lane
    rw [List.flatMap_cons, ← List.append_assoc, ← releaseLaneEffects_congr now settings lane]
    refine ih _ _ (kept lane held whole member) (releaseLane_regular whole member)
      (sameNow.trans now) (sameSettings.trans settings) (List.Pairwise.of_cons ordered)
      fun next inside => ?_
    exact others next (present next (List.mem_cons_of_mem _ inside))
      (Lanes.ne_of_ordered ordered inside (Or.inl rfl))

end Releasing

namespace Coherent

/-- A note without an entry in the table has nothing to be taken back. -/
theorem unset_eq_self (coherent : Coherent rules scheduler) {id : NoteId}
    (free : ∀ pair ∈ scheduler.tickets, pair.1 ≠ id) : scheduler.unset id = scheduler := by
  -- Without an entry in the table there is no timer about the note either.
  have queue : scheduler.timers.queue.filter (·.action.note? != some id) =
      scheduler.timers.queue :=
    List.filter_eq_self.mpr fun timer member => by
      simpa using coherent.linked.note_ne free member
  simp [Scheduler.unset, Timers.without, queue, Timers.Linked.filter_eq_of_free free]

/-- Taking back the timer of a note takes back all that it waits for. -/
theorem dropTimer_eq (coherent : Coherent rules scheduler) (id : NoteId) :
    (scheduler.dropTimer id).1 = scheduler.unset id := by
  unfold dropTimer
  -- Either there is nothing to take back, or the table gives the only timer of the note.
  cases found : scheduler.tickets.find? (·.1 == id) with
  | none =>
    have free : ∀ pair ∈ scheduler.tickets, pair.1 ≠ id := by simpa using found
    exact (coherent.unset_eq_self free).symm
  | some pair =>
    have named : pair.1 = id := by simpa using List.find?_some found
    have member : (id, pair.2) ∈ scheduler.tickets := named ▸ List.mem_of_find?_eq_some found
    simp [dropTicket, Scheduler.unset, coherent.linked.remove_eq member]

/-- The timer that is taken out first takes its note out of the table. -/
theorem popped_eq (coherent : Coherent rules scheduler) {timer : Timer α} {rest : Timers α}
    {id : NoteId} (queued : scheduler.timers.queue = timer :: rest.queue)
    (counted : rest.tickets = scheduler.timers.tickets)
    (noted : timer.action.note? = some id) :
    ({ scheduler with timers := rest }).dropTicket id = scheduler.unset id := by
  rw [coherent.linked.pop_eq queued counted noted]
  rfl

/-- A number that is given out next is one that nothing is held for. -/
theorem lacks_fresh (coherent : Coherent rules scheduler) :
    scheduler.freshId.1.Lacks scheduler.freshId.2 := by
  have lacks : scheduler.Lacks scheduler.freshId.2 := coherent.lacks_of_le (Nat.le_refl _)
  exact { lacks with }

variable [ToneGenerator γ α]

/-- Cancelling a note is one move, after which nothing is held for it. -/
theorem cancel_move (coherent : Coherent rules scheduler) (id : NoteId) :
    Move rules scheduler (scheduler.cancelEffects id) (scheduler.cancel id).1 ∧
      (scheduler.cancel id).1.Lacks id := by
  -- The timer goes first, which leaves the lanes for the search as they were.
  have timer := coherent.dropTimer_eq id
  have lanes : (scheduler.dropTimer id).1.lanes = scheduler.lanes := by rw [timer]; rfl
  simp only [cancel, dropVoice, cancelEffects, lanes]
  cases taken : scheduler.lanes.take? id with
  | none =>
    have unvoiced := Lanes.take?_eq_none.mp taken
    simp only [timer, Option.toList_none, List.map_nil]
    exact ⟨.forget unvoiced, .of_unset scheduler rfl rfl unvoiced⟩
  | some pair =>
    obtain ⟨entry, rest⟩ := pair
    obtain ⟨named, regular, pitch, sounding, slots⟩ := Lanes.take?_spec coherent.regular taken
    simp only [timer, Option.toList_some, List.map_cons, List.map_nil]
    refine ⟨.withdraw regular slots named,
      .of_unset scheduler rfl rfl fun slot member same => ?_⟩
    -- The slot that was taken out was the only one of its note.
    have distinct := (slots.map (·.entry.id)).nodup_iff.mp coherent.distinct
    rw [List.map_cons, List.nodup_cons] at distinct
    exact distinct.1 ((same.trans named.symm) ▸ List.mem_map_of_mem member)

/-- Cancelling every note is one move. -/
theorem cancelAll_move (scheduler : Scheduler γ α) :
    Move rules scheduler scheduler.cancelAllEffects scheduler.cancelAll := by
  obtain ⟨journal, cleared⟩ := scheduler.cancelAll_eq
  rw [cleared]
  exact .clear

/-- Fading out the note that sounds in a lane is at most one move. -/
theorem releaseLane_moves (coherent : Coherent rules scheduler) {lane : Lane α}
    (member : lane ∈ scheduler.lanes) :
    Moves rules scheduler (scheduler.releaseLaneEffects lane) (scheduler.releaseLane lane).1 := by
  -- A lane is either left alone or its entry is faded by one move.
  rcases releaseLane_spec coherent.regular member with
    ⟨same, silent⟩ | ⟨entry, rest, lanes, journal, regular, sounds, before, after, effects, told⟩
  · rw [same, silent]
    exact .done
  · rw [told, effects]
    exact .single (.fade regular sounds before after)

/-- Fading out the note that sounds for a pitch is at most one move. -/
theorem releasePitch_moves (coherent : Coherent rules scheduler) (pitch : Pitch) :
    Moves rules scheduler (scheduler.releasePitchEffects pitch)
      (scheduler.releasePitch pitch).1 := by
  unfold releasePitch releasePitchEffects
  cases found : scheduler.lanes.find? pitch with
  | none => exact .done
  | some lane =>
    simpa using coherent.releaseLane_moves (List.mem_of_find?_eq_some found)

/-- Fading out every note that sounds takes at most one move for each lane. -/
theorem releaseAll_moves (coherent : Coherent rules scheduler) :
    Moves rules scheduler scheduler.releaseAllEffects scheduler.releaseAll :=
  releaseAll_induction coherent.regular .done fun _ moves _ member =>
    moves.trans ((moves.coherent coherent).releaseLane_moves member)

end Coherent

variable [ToneGenerator γ α]

/-- A note that is found takes the sounding seat and fades out the note that sounds there. -/
theorem promote_told {pitch : Pitch} {id : NoteId} {entry : Entry α} {lane : Lane α}
    (taken : (scheduler.lanes.find? pitch).bind (·.takeFuture? id) = some (entry, lane)) :
    ∃ journal, scheduler.promote pitch id =
      scheduler.told (scheduler.fadeEffects (fun _ => id) lane.active)
        (scheduler.lanes.update pitch fun _ => { lane with active := some entry }) journal := by
  unfold promote fadeEffects
  rw [taken]
  dsimp only
  -- Only a note that sounds beyond now is told to fade.
  cases seated : lane.active with
  | none => exact ⟨scheduler.journal, rfl⟩
  | some previous =>
    by_cases sounds : previous.finish.isAfter scheduler.now = true
    · simp only [if_pos sounds, Option.filter_some]
      exact ⟨_, rfl⟩
    · simp only [if_neg sounds, Option.filter_some]
      exact ⟨scheduler.journal, rfl⟩

/-- A note that is found moves its slot to the sounding seat and displaces the one before. -/
theorem promote_taken (regular : scheduler.lanes.Regular) {pitch : Pitch} {id : NoteId}
    {entry : Entry α} {lane : Lane α}
    (taken : (scheduler.lanes.find? pitch).bind (·.takeFuture? id) = some (entry, lane)) :
    ∃ rest lanes journal,
      lane.active = (scheduler.lanes.laneOf pitch).active ∧ Lanes.Regular lanes ∧
      scheduler.slots.Perm
        (⟨pitch, false, entry⟩ :: (lane.active.toList.map (⟨pitch, true, ·⟩) ++ rest)) ∧
      lanes.slots.Perm (⟨pitch, true, entry⟩ :: rest) ∧
      scheduler.promote pitch id =
        scheduler.told (scheduler.fadeEffects (fun _ => id) lane.active) lanes journal := by
  obtain ⟨before, found, took⟩ := Option.bind_eq_some_iff.mp taken
  obtain ⟨_, lanePitch, sameActive, _⟩ := Lane.takeFuture?_spec took
  have samePitch : before.pitch = pitch := by simpa using List.find?_some found
  obtain ⟨rest, slots, after⟩ := Lanes.promote_slots regular.ordered taken
  have filled : (scheduler.lanes.update pitch fun _ =>
      { lane with active := some entry }).Regular :=
    regular.update pitch (fun _ _ => lanePitch.trans samePitch) fun _ => by simp [Lane.isEmpty]
  -- Taking an entry out of the future of a lane leaves its active one.
  have seat : lane.active = (scheduler.lanes.laneOf pitch).active := by
    rw [sameActive, Lanes.laneOf_active, found, Option.bind_some]
  obtain ⟨journal, told⟩ := promote_told taken
  exact ⟨rest, _, journal, seat, filled, slots, after, told⟩

/-- A prepared note takes the sounding seat and fades out the note that sounds there. -/
theorem promote_spec (regular : scheduler.lanes.Regular)
    (distinct : (scheduler.slots.map (·.entry.id)).Nodup) {pitch : Pitch} {entry : Entry α}
    (member : ⟨pitch, false, entry⟩ ∈ scheduler.slots) :
    ∃ lane rest lanes journal,
      (scheduler.lanes.find? pitch).bind (·.takeFuture? entry.id) = some (entry, lane) ∧
      lane.active = (scheduler.lanes.laneOf pitch).active ∧ Lanes.Regular lanes ∧
      scheduler.slots.Perm
        (⟨pitch, false, entry⟩ :: (lane.active.toList.map (⟨pitch, true, ·⟩) ++ rest)) ∧
      lanes.slots.Perm (⟨pitch, true, entry⟩ :: rest) ∧
      scheduler.promote pitch entry.id =
        scheduler.told (scheduler.fadeEffects (fun _ => entry.id) lane.active) lanes journal := by
  -- The lane of the pitch has the entry, and no other entry of the lane goes by its number.
  obtain ⟨first, lane, named, taken⟩ := Lanes.takeFuture?_of_mem regular.ordered member
  obtain ⟨rest, lanes, journal, seat, filled, slots, after, told⟩ := promote_taken regular taken
  -- The entry that is taken has the same number, and numbers are distinct.
  have same : first = entry := by
    have here := slots.mem_iff.mpr (List.mem_cons_self ..)
    have equal := List.inj_on_of_nodup_map distinct here member named
    simpa using equal
  subst same
  exact ⟨lane, rest, lanes, journal, taken, seat, filled, slots, after, told⟩

/-- A refused voice leaves its mark on the generator only. -/
theorem prepare_refused (id : NoteId) {cue : Cue α} {cause : CreationFault}
    (refused : (ToneGenerator.create scheduler.generator (scheduler.tone cue)).2 = .error cause) :
    scheduler.prepare id cue.pitch cue.start cue.finish cue.velocity cue.pan =
      (scheduler.told [.created id (scheduler.tone cue) none] scheduler.lanes scheduler.journal,
        .error (.toneGenerator cause)) := by
  cases made : ToneGenerator.create scheduler.generator (scheduler.tone cue) with
  | mk generator outcome =>
    rw [made] at refused
    -- The generator hears of the attempt only, and all the rest is as it was.
    have heard : hear scheduler.generator [.created id (scheduler.tone cue) none] = generator := by
      simp [hear, Effect.heardBy, made]
    simp only at refused
    subst refused
    rw [told, heard]
    simp only [tone] at made
    simp only [prepare, made]

/-- The scheduler with an entry for a voice that has been created. -/
def entered (scheduler : Scheduler γ α) (id : NoteId) (cue : Cue α) (voice : Nat)
    (journal : List Notice) : Scheduler γ α :=
  scheduler.told (scheduler.voiceEffects id cue voice none)
    (scheduler.lanes.update cue.pitch fun lane =>
      { lane with future := lane.future ++ [scheduler.entryOf id cue voice] }) journal

section Entering

variable (regular : scheduler.lanes.Regular) (id : NoteId) (cue : Cue α) (voice : Nat)
  (journal : List Notice)

include regular

/-- Lanes stay regular when a voice gets an entry. -/
theorem entered_regular : (scheduler.entered id cue voice journal).lanes.Regular :=
  regular.update cue.pitch (fun _ same => same) fun _ => by simp [Lane.isEmpty]

/-- The entry of a new voice is among those to come. -/
theorem entered_slots : (scheduler.entered id cue voice journal).slots.Perm
    (⟨cue.pitch, false, scheduler.entryOf id cue voice⟩ :: scheduler.slots) :=
  Lanes.enter_slots regular.ordered cue.pitch _

/-- The lane of the pitch differs by the new entry only, so the same note has the seat. -/
theorem entered_active : ((scheduler.entered id cue voice journal).lanes.laneOf cue.pitch).active =
    (scheduler.lanes.laneOf cue.pitch).active := by
  have joined : (scheduler.entered id cue voice journal).lanes.laneOf cue.pitch =
      { scheduler.lanes.laneOf cue.pitch with
        future := (scheduler.lanes.laneOf cue.pitch).future ++ [scheduler.entryOf id cue voice] } :=
    Lanes.laneOf_update regular.ordered cue.pitch fun _ same => same
  rw [joined]

end Entering

/-- Commands after a check of the count reach the generator and the journal only. -/
theorem checkCount_commands_eq (scheduler : Scheduler γ α) (velocity : α) (id : NoteId)
    (voice : Nat) (commands : List (Command α)) :
    ∃ journal, (scheduler.checkCount velocity).commands voice commands =
      scheduler.told (commands.map (.commanded id id voice)) scheduler.lanes journal := by
  obtain ⟨journal, told⟩ := commands_eq (scheduler.checkCount velocity) id voice commands
  refine ⟨journal, told.trans ?_⟩
  -- What the check may leave is in the journal, which is another one by now.
  unfold checkCount
  dsimp only
  split <;> rfl

/-- A voice that has been created has an entry, which sounds at once or waits for its start. -/
theorem prepare_created (id : NoteId) {cue : Cue α} {voice : Nat}
    (created : (ToneGenerator.create scheduler.generator (scheduler.tone cue)).2 = .ok voice) :
    ∃ journal, scheduler.prepare id cue.pitch cue.start cue.finish cue.velocity cue.pan =
      (Scheduler.ensureSweep
        (if (scheduler.tone cue).start ≤ scheduler.now then
          (scheduler.entered id cue voice journal).promote cue.pitch id
        else (scheduler.entered id cue voice journal).setTimer id (scheduler.tone cue).start
          (.promote id cue.pitch)), .ok ()) := by
  cases made : ToneGenerator.create scheduler.generator (scheduler.tone cue) with
  | mk generator outcome =>
    rw [made] at created
    simp only at created
    subst created
    obtain ⟨journal, playing⟩ := checkCount_commands_eq ({ scheduler with generator })
      cue.velocity id voice (scheduler.part cue)
    -- The generator has heard of the creation and then of the commands.
    have heard : hear scheduler.generator (scheduler.voiceEffects id cue voice none) =
        hear generator ((scheduler.part cue).map (.commanded id id voice)) := by
      simp [voiceEffects, fadeEffects, hear, Effect.heardBy, made]
    refine ⟨journal, ?_⟩
    rw [entered, told, heard]
    rw [told] at playing
    simp only [part, tone] at playing made
    simp only [prepare, made, part, tone, playing]
    rfl

/-- A refused voice has no other effect. -/
theorem prepareEffects_refused (id : NoteId) {cue : Cue α} {cause : CreationFault}
    (refused : (ToneGenerator.create scheduler.generator (scheduler.tone cue)).2 = .error cause) :
    scheduler.prepareEffects id cue = [.created id (scheduler.tone cue) none] := by
  simp only [prepareEffects, refused]

/-- A voice that sounds at once fades out the note that sounds for its pitch. -/
theorem prepareEffects_created (id : NoteId) {cue : Cue α} {voice : Nat}
    (created : (ToneGenerator.create scheduler.generator (scheduler.tone cue)).2 = .ok voice) :
    scheduler.prepareEffects id cue = scheduler.voiceEffects id cue voice
      (if (scheduler.tone cue).start ≤ scheduler.now then
        (scheduler.lanes.laneOf cue.pitch).active else none) := by
  simp only [prepareEffects, created, voiceEffects, Lanes.laneOf_active]

namespace Coherent

/-- A voice that starts at once takes the sounding seat of its pitch. -/
theorem start_move (coherent : Coherent rules scheduler) {id : NoteId} {cue : Cue α}
    (lacks : scheduler.Lacks id) (issued : id.number < scheduler.nextId) (fit : rules.fit id cue)
    {voice : Nat}
    (created : (ToneGenerator.create scheduler.generator (scheduler.tone cue)).2 = .ok voice)
    (begun : (scheduler.tone cue).start ≤ scheduler.now) (journal : List Notice) :
    Move rules scheduler
      (scheduler.voiceEffects id cue voice (scheduler.lanes.laneOf cue.pitch).active)
      ((scheduler.entered id cue voice journal).promote cue.pitch id).ensureSweep := by
  -- The note enters the lane among those to come and leaves it for the sounding seat at once.
  have regular := entered_regular coherent.regular id cue voice journal
  have slots := entered_slots coherent.regular id cue voice journal
  have distinct : ((scheduler.entered id cue voice journal).slots.map (·.entry.id)).Nodup := by
    refine (slots.map (·.entry.id)).nodup_iff.mpr ?_
    simp only [List.map_cons, List.nodup_cons, List.mem_map, not_exists, not_and]
    exact ⟨lacks.unvoiced, coherent.distinct⟩
  obtain ⟨lane, rest, lanes, last, _, seat, filled, before, after, promoted⟩ :=
    promote_spec regular distinct (slots.mem_iff.mpr (List.mem_cons_self ..))
  have same := seat.trans (entered_active coherent.regular id cue voice journal)
  -- Without the new slot, what was there is what makes way and what stays.
  have vacated : scheduler.slots.Perm
      (lane.active.toList.map (⟨cue.pitch, true, ·⟩) ++ rest) :=
    (slots.symm.trans before).cons_inv
  have reached : (scheduler.entered id cue voice journal).promote cue.pitch id =
      scheduler.told (scheduler.voiceEffects id cue voice lane.active) lanes last := by
    rw [← voiceEffects_append]
    exact promoted.trans (told_told ..)
  rw [reached, ← same]
  exact .start lacks issued fit created begun filled vacated after

/-- Preparing a note that nothing is held for is one move. -/
theorem prepare_move (coherent : Coherent rules scheduler) {id : NoteId} (cue : Cue α)
    (lacks : scheduler.Lacks id) (issued : id.number < scheduler.nextId) (fit : rules.fit id cue) :
    Move rules scheduler (scheduler.prepareEffects id cue)
      (scheduler.prepare id cue.pitch cue.start cue.finish cue.velocity cue.pan).1 := by
  -- The generator decides on the voice, and the clock on whether it sounds at once.
  cases outcome : (ToneGenerator.create scheduler.generator (scheduler.tone cue)).2 with
  | error cause =>
    rw [prepare_refused id outcome, prepareEffects_refused id outcome]
    exact .refuse lacks issued fit outcome
  | ok voice =>
    obtain ⟨journal, prepared⟩ := prepare_created id outcome
    rw [prepared, prepareEffects_created id outcome]
    by_cases begun : (scheduler.tone cue).start ≤ scheduler.now
    · rw [if_pos begun, if_pos begun]
      exact coherent.start_move lacks issued fit outcome begun journal
    · rw [if_neg begun, if_neg begun]
      exact .book lacks issued fit outcome begun
        (entered_regular coherent.regular id cue voice journal)
        (entered_slots coherent.regular id cue voice journal)

/-- Placing a note that nothing is held for is at most one move. -/
theorem place_moves (coherent : Coherent rules scheduler) {id : NoteId} (note : Note α)
    (lacks : scheduler.Lacks id) (issued : id.number < scheduler.nextId)
    (fit : rules.fit id note.cue) :
    Moves rules scheduler (scheduler.placeEffects id note) (scheduler.place id note).1 := by
  unfold place placeEffects
  -- A note that is over is dropped, one far ahead is put off, any other gets a voice.
  by_cases ended : note.finish < scheduler.now
  · rw [if_pos ended, if_pos ended]
    exact .done
  · rw [if_neg ended, if_neg ended]
    by_cases far : scheduler.now + 2.0 * scheduler.settings.leadTime < note.start
    · rw [if_pos far, if_pos far]
      exact .single (.defer lacks issued fit far)
    · rw [if_neg far, if_neg far]
      exact .single (coherent.prepare_move note.cue lacks issued fit)

/-- Scheduling a note takes at most two moves. -/
theorem schedule_moves (coherent : Coherent rules scheduler) (note : Note α)
    (id? : Option NoteId) (issued : ∀ id, id? = some id → id.number < scheduler.nextId)
    (fit : rules.fit (id?.getD scheduler.freshId.2) note.cue) :
    Moves rules scheduler (scheduler.scheduleEffects note id?) (scheduler.schedule note id?).1 := by
  cases id? with
  | some id =>
    -- What the number stood for is cancelled first, which leaves nothing held for it.
    obtain ⟨move, lacks⟩ := coherent.cancel_move id
    have issued := Nat.lt_of_lt_of_le (issued id rfl) move.nextId_le
    exact .step move ((coherent.of_move move).place_moves note lacks issued fit)
  | none =>
    -- Nothing can be held for a number that has just been given out.
    have move : Move rules scheduler [] scheduler.freshId.1 := .issue
    exact .step move ((coherent.of_move move).place_moves note coherent.lacks_fresh
      (Nat.lt_succ_self _) fit)

/-- Sounding a pitch takes at most two moves. -/
theorem playPitch_moves (coherent : Coherent rules scheduler) (pitch : Pitch) (velocity : α)
    (fit : Note.checkVelocity velocity = .ok () →
      rules.fit scheduler.freshId.2 (scheduler.heldCue pitch velocity)) :
    Moves rules scheduler (scheduler.playPitchEffects pitch velocity)
      (scheduler.playPitch pitch velocity).1 := by
  unfold playPitch playPitchEffects
  -- A velocity that is refused leaves everything as it was.
  cases checked : Note.checkVelocity velocity with
  | error cause => exact .done
  | ok _ =>
    have move : Move rules scheduler [] scheduler.freshId.1 := .issue
    exact .step move (.single ((coherent.of_move move).prepare_move
      (scheduler.heldCue pitch velocity) coherent.lacks_fresh (Nat.lt_succ_self _) (fit checked)))

/-- The timer of a prepared note lets it sound. -/
theorem promote_move (coherent : Coherent rules scheduler) {timer : Timer α} {rest : Timers α}
    (queued : scheduler.timers.queue = timer :: rest.queue)
    (counted : rest.tickets = scheduler.timers.tickets) (due : ¬ scheduler.now < timer.due)
    {id : NoteId} {pitch : Pitch} (action : timer.action = .promote id pitch) :
    Move rules scheduler
      (.fired timer :: ({ scheduler with timers := rest }).promoteEffects pitch id)
      ((({ scheduler with timers := rest }).dropTicket id).promote pitch id) := by
  -- The timer is about a prepared note of its pitch, so the lane does not come up empty.
  have present : timer ∈ scheduler.timers.queue := queued ▸ List.mem_cons_self ..
  obtain ⟨⟨pitch, _, entry⟩, member, rfl, rfl, rfl, _⟩ :=
    coherent.kept timer present id pitch action
  have regular : (scheduler.unset entry.id).lanes.Regular := coherent.regular
  have distinct : ((scheduler.unset entry.id).slots.map (·.entry.id)).Nodup := coherent.distinct
  obtain ⟨lane, others, lanes, journal, taken, _, regular, before, after, promoted⟩ :=
    promote_spec regular distinct member
  have taken : (scheduler.lanes.find? pitch).bind (·.takeFuture? entry.id) = some (entry, lane) :=
    taken
  -- Taking the timer out leaves the lanes, so the entry is where the timer says.
  have effects : ({ scheduler with timers := rest }).promoteEffects pitch entry.id =
      scheduler.fadeEffects (fun _ => entry.id) lane.active := by
    simp only [promoteEffects, taken, Option.toList_some, List.flatMap_cons, List.flatMap_nil,
      List.append_nil]
    rfl
  rw [coherent.popped_eq queued counted (by rw [action]; rfl), promoted, effects]
  exact .promote queued due action rfl regular before after

/-- The work of a due timer is made of moves, the first of which takes the timer out. -/
theorem fire_moves (coherent : Coherent rules scheduler) {timer : Timer α} {rest : Timers α}
    (queued : scheduler.timers.queue = timer :: rest.queue)
    (counted : rest.tickets = scheduler.timers.tickets) (due : ¬ scheduler.now < timer.due) :
    Moves rules scheduler
      (.fired timer :: ({ scheduler with timers := rest }).fireEffects timer.action)
      (({ scheduler with timers := rest }).fire timer.action).1 := by
  have present : timer ∈ scheduler.timers.queue := queued ▸ List.mem_cons_self ..
  cases action : timer.action with
  | reschedule id note =>
    -- The note that was put off stops waiting and is scheduled under its own number.
    have noted : timer.action.note? = some id := by rw [action]; rfl
    have move : Move rules scheduler [.fired timer] (scheduler.unset id) := .wake queued due action
    have moves := (coherent.of_move move).schedule_moves note (some id)
      (fun other same => Option.some.inj same ▸ coherent.issuedTimers timer present id noted)
      (coherent.fits timer present id note action)
    rw [← coherent.popped_eq queued counted noted] at moves move
    exact .step move moves
  | promote id pitch => exact .single (coherent.promote_move queued counted due action)
  | sweep => exact .single (.sweep queued counted due action)

/-- Firing due timers is made of moves. -/
theorem fireDue_moves (coherent : Coherent rules scheduler) (horizon rounds : Nat) :
    Moves rules scheduler (scheduler.fireDueEffects horizon rounds)
      (scheduler.fireDue horizon rounds).1 := by
  -- Each round takes one timer and does its work, unless the work before it has failed.
  induction rounds generalizing scheduler with
  | zero => exact .done
  | succ rounds ih =>
    rw [fireDue, fireDueEffects]
    cases popped : scheduler.timers.popDue? scheduler.now horizon with
    | none => exact .done
    | some pair =>
      obtain ⟨action, rest⟩ := pair
      obtain ⟨timer, queued, rfl, counted, due, _⟩ := Timers.popDue?_spec popped
      have moves := coherent.fire_moves queued counted due
      simp only [queued, List.head?_cons, Option.toList_some, List.map_cons, List.map_nil]
      cases fired : ({ scheduler with timers := rest }).fire timer.action with
      | mk next outcome =>
        rw [fired] at moves
        cases outcome with
        | error cause => simpa using moves
        | ok _ => exact moves.trans (ih (moves.coherent coherent))

/-- Every request that obeys the rules is made of moves. -/
theorem perform_moves (coherent : Coherent rules scheduler) {request : Request α}
    (obeys : scheduler.Obeys rules request) :
    Moves rules scheduler (scheduler.effects request) (scheduler.perform request) := by
  obtain ⟨issued, admitted⟩ := obeys
  -- There is one lemma for each kind of request, which says what moves it makes.
  cases request with
  | schedule note id? =>
    refine coherent.schedule_moves note id? ?_ admitted
    rintro id rfl
    exact issued
  | playPitch pitch velocity => exact coherent.playPitch_moves pitch velocity admitted
  | releasePitch pitch => exact coherent.releasePitch_moves pitch
  | releaseAll => exact coherent.releaseAll_moves
  | cancel id => exact .single (coherent.cancel_move id).1
  | cancelAll => exact .single (cancelAll_move scheduler)
  | advance => exact coherent.fireDue_moves _ _
  | setClock now => exact .single (.clock admitted)

/-- Every run of requests that obey the rules is made of moves. -/
theorem run_moves (coherent : Coherent rules scheduler) {requests : List (Request α)}
    (along : scheduler.Along (Obeys rules) requests) :
    Moves rules scheduler (scheduler.history requests) (scheduler.run requests) := by
  -- Coherence carries the induction, for each request asks it of the state that it meets.
  induction requests generalizing scheduler with
  | nil => exact .done
  | cons request later ih =>
    have moves := coherent.perform_moves along.1
    exact moves.trans (ih (moves.coherent coherent) along.2)

/-- Requests that obey the rules are made of moves, each in the state that it meets. -/
theorem along_moves (coherent : Coherent rules scheduler)
    {requests : List (Request α)} (along : scheduler.Along (Obeys rules) requests) :
    scheduler.Along (fun state request =>
      Moves rules state (state.effects request) (state.perform request)) requests := by
  induction requests generalizing scheduler with
  | nil => trivial
  | cons request later ih =>
    have moves := coherent.perform_moves along.1
    exact ⟨moves, ih (moves.coherent coherent) along.2⟩

end Coherent

end Melody.Scheduler
