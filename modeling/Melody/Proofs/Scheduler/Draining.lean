import Melody.Proofs.Scheduler.Waking

/-! Once every note has ended, two advances leave a scheduler without voices and timers. -/

namespace Melody

section Ending

variable {α : Type} [ExactScalar α]

/-- Notes that start no later than they end, under a clock that does not go back. -/
def Rules.lasting : Rules α where
  fit _ cue := ∀ time, cue.finish = .at time → cue.start ≤ time
  ticks now next := now ≤ next

/-- Notes that are over by a time, under a clock that does not pass it and does not go back. -/
def Rules.endingBy (time : α) : Rules α where
  fit _ cue := ∃ finish, cue.finish = .at finish ∧ cue.start ≤ finish ∧ finish ≤ time
  ticks now next := now ≤ next ∧ next ≤ time

/-- A note of no negative duration starts no later than it ends. -/
theorem Note.start_le_finish {note : Note α} (lasts : 0 ≤ note.duration) :
    note.start ≤ note.finish :=
  le_add_of_nonneg_right lasts

end Ending

/-- The note of a slot does not sound beyond a time. -/
def Slot.EndsBy {α : Type} [LE α] (slot : Slot α) (time : α) : Prop :=
  ∃ finish, slot.entry.finish = .at finish ∧ finish ≤ time

namespace Scheduler

variable {γ α : Type} [ExactScalar α] {scheduler next : Scheduler γ α} {time : α}

/-- No note with a voice and no note that has been put off sounds beyond a time. -/
structure EndsBy (scheduler : Scheduler γ α) (time : α) : Prop where
  voiced : ∀ slot ∈ scheduler.slots, slot.EndsBy time
  waiting : ∀ timer ∈ scheduler.timers.queue, ∀ id note, timer.action = .reschedule id note →
    note.finish ≤ time

/-- No timer is later than what it is set for, and no prepared note starts after its end. -/
structure Punctual (scheduler : Scheduler γ α) : Prop where
  sweeping : ∀ timer ∈ scheduler.timers.queue, timer.action = .sweep →
    timer.due ≤ scheduler.now + scheduler.settings.sweepInterval
  waking : ∀ timer ∈ scheduler.timers.queue, ∀ id note, timer.action = .reschedule id note →
    timer.due ≤ note.start
  starting : ∀ slot ∈ scheduler.slots, slot.sounding = false → ∀ finish,
    slot.entry.finish = .at finish → slot.entry.start ≤ finish

namespace Punctual

/-- A scheduler that has been asked for nothing yet is punctual. -/
theorem initial (generator : γ) (now : α) (settings : Settings α) :
    (new generator now settings).Punctual :=
  ⟨by simp [new], by simp [new], by simp [new, slots, Lanes.slots]⟩

/-- Time may pass, and timers and prepared notes may go. -/
theorem shrink (punctual : scheduler.Punctual) (now : scheduler.now ≤ next.now)
    (settings : next.settings = scheduler.settings)
    (timers : ∀ timer ∈ next.timers.queue, timer ∈ scheduler.timers.queue)
    (future : ∀ slot ∈ next.slots, slot.sounding = false → slot ∈ scheduler.slots) :
    next.Punctual where
  -- Timers and waiting notes are some of those that were there, so their times are still bounded.
  sweeping timer member action := by
    have due := punctual.sweeping timer (timers timer member) action
    rw [settings]
    linarith
  waking timer member := punctual.waking timer (timers timer member)
  starting slot member waits := punctual.starting slot (future slot member waits) waits

/-- A timer for a note is set in time. -/
theorem setTimer (punctual : scheduler.Punctual) (id : NoteId) {due : α} {action : Action α}
    (noted : action ≠ .sweep)
    (early : ∀ other note, action = .reschedule other note → due ≤ note.start) :
    (scheduler.setTimer id due action).Punctual where
  sweeping timer member sweeps := by
    -- The timer that is set is no sweep, and all others were there.
    rcases mem_setTimer.mp member with rfl | stays
    · exact absurd sweeps noted
    · exact punctual.sweeping timer stays sweeps
  waking timer member other note wakes := by
    rcases mem_setTimer.mp member with rfl | stays
    · exact early other note wakes
    · exact punctual.waking timer stays other note wakes
  starting := punctual.starting

/-- A sweep is set for the end of an interval that begins now. -/
theorem ensureSweep (punctual : scheduler.Punctual) : scheduler.ensureSweep.Punctual where
  sweeping timer member action := by
    rw [ensureSweep_now, ensureSweep_settings]
    -- A sweep that is set up is due after one interval.
    unfold Scheduler.ensureSweep at member
    split at member
    · exact punctual.sweeping timer member action
    · rcases Timers.mem_insert.mp member with rfl | stays
      · exact le_refl _
      · exact punctual.sweeping timer stays action
  waking timer member id note action :=
    punctual.waking timer (mem_of_mem_ensureSweep (by simp [action]) member) id note action
  starting slot member := by
    rw [slots, ensureSweep_lanes] at member
    exact punctual.starting slot member

end Punctual

/-- A voice that is created ahead of its start starts when its cue says. -/
theorem tone_start (scheduler : Scheduler γ α) {cue : Cue α}
    (ahead : ¬ (scheduler.tone cue).start ≤ scheduler.now) :
    (scheduler.tone cue).start = cue.start := by
  have start : (scheduler.tone cue).start = max cue.start scheduler.now := Scalar.larger_eq_max ..
  rw [start] at ahead ⊢
  -- A cue that starts by now would start now.
  exact max_eq_left (le_of_not_ge fun early => ahead (max_le early le_rfl))

variable [ToneGenerator γ α]

/-- A move of notes that start no later than they end leaves timers and starts in time. -/
theorem Move.punctual {effects : List (Effect α)} (move : Move .lasting scheduler effects next)
    (forward : scheduler.settings.Forward) (punctual : scheduler.Punctual) : next.Punctual := by
  have unset : ∀ id, ∀ timer ∈ (scheduler.unset id).timers.queue,
      timer ∈ scheduler.timers.queue := fun _ _ member => List.mem_of_mem_filter member
  cases move with
  | clock ticks => exact punctual.shrink ticks rfl (fun _ member => member) fun _ member _ => member
  | issue => exact punctual.shrink le_rfl rfl (fun _ member => member) fun _ member _ => member
  | forget _ => exact punctual.shrink le_rfl rfl (unset _) fun _ member _ => member
  | withdraw regular slots named =>
    exact punctual.shrink le_rfl rfl (unset _) fun slot member _ =>
      slots.mem_iff.mpr (List.mem_cons_of_mem _ member)
  | clear =>
    refine punctual.shrink le_rfl rfl (fun _ member => List.mem_of_mem_filter member) ?_
    intro slot member
    cases member
  | fade regular sounds before after =>
    refine punctual.shrink le_rfl rfl (fun _ member => member) fun slot member waits => ?_
    -- The note that is made to end has its seat already, so it is none of those to come.
    rcases List.mem_cons.mp (after.mem_iff.mp member) with rfl | inside
    · cases waits
    · exact before.mem_iff.mpr (List.mem_cons_of_mem _ inside)
  | @defer id note lacks issued fit far =>
    refine punctual.setTimer id (by simp) fun other waiting same => ?_
    cases same
    have lead := forward.lead
    linarith
  | refuse _ _ _ _ =>
    exact punctual.shrink le_rfl rfl (fun _ member => member) fun _ member _ => member
  | @start id cue voice displaced rest lanes journal lacks issued fit created begun regular before
      after =>
    refine Punctual.ensureSweep (punctual.shrink le_rfl rfl (fun _ member => member) ?_)
    intro slot member waits
    rcases List.mem_cons.mp (after.mem_iff.mp member) with rfl | inside
    · cases waits
    · exact before.mem_iff.mpr (List.mem_append_right _ inside)
  | @book id cue voice lanes journal lacks issued fit created ahead regular after =>
    have entered : (scheduler.told (scheduler.voiceEffects id cue voice none) lanes
        journal).Punctual := by
      refine ⟨punctual.sweeping, punctual.waking, fun slot member waits finish ends => ?_⟩
      rcases List.mem_cons.mp (after.mem_iff.mp member) with rfl | inside
      · -- A start that is still to come is the one that the cue gives.
        have start : (scheduler.entryOf id cue voice).start = cue.start :=
          scheduler.tone_start ahead
        show (scheduler.entryOf id cue voice).start ≤ finish
        rw [start]
        exact fit finish ends
      · exact punctual.starting slot inside waits finish ends
    exact (entered.setTimer id (by simp) (by simp)).ensureSweep
  | wake _ _ _ => exact punctual.shrink le_rfl rfl (unset _) fun _ member _ => member
  | promote queued due action named regular before after =>
    refine punctual.shrink le_rfl rfl (unset _) fun slot member waits => ?_
    rcases List.mem_cons.mp (after.mem_iff.mp member) with rfl | inside
    · cases waits
    · exact before.mem_iff.mpr (List.mem_cons_of_mem _ (List.mem_append_right _ inside))
  | @sweep timer rest queued counted due action =>
    have swept : ({ scheduler with timers := rest }).swept.Punctual := by
      refine punctual.shrink le_rfl rfl
        (fun _ member => queued ▸ List.mem_cons_of_mem _ member) fun slot member _ => ?_
      have member : slot ∈ (scheduler.lanes.expire scheduler.now).slots := member
      rw [Lanes.expire_slots] at member
      exact List.mem_of_mem_filter member
    rcases sweep_cases ({ scheduler with timers := rest }) with same | same
    · exact same ▸ swept
    · exact same ▸ swept.ensureSweep

/-- Moves of notes that start no later than they end leave timers and starts in time. -/
theorem Moves.punctual {effects : List (Effect α)} (moves : Moves .lasting scheduler effects next)
    (forward : scheduler.settings.Forward) (punctual : scheduler.Punctual) : next.Punctual := by
  induction moves with
  | done => exact punctual
  | step move _ ih => exact ih (move.settings_eq ▸ forward) (move.punctual forward punctual)

/-- No move of notes that are over by a time makes a voice sound beyond it. -/
theorem Move.endsBy {effects : List (Effect α)}
    (move : Move (.endingBy time) scheduler effects next) (now : scheduler.now ≤ time)
    (voiced : ∀ slot ∈ scheduler.slots, slot.EndsBy time) :
    next.now ≤ time ∧ ∀ slot ∈ next.slots, slot.EndsBy time := by
  cases move with
  | clock ticks => exact ⟨ticks.2, voiced⟩
  | issue => exact ⟨now, voiced⟩
  | forget _ => exact ⟨now, voiced⟩
  | withdraw regular slots named =>
    exact ⟨now, fun slot member =>
      voiced slot (slots.mem_iff.mpr (List.mem_cons_of_mem _ member))⟩
  | clear => exact ⟨now, fun slot member => by cases member⟩
  | fade regular sounds before after =>
    refine ⟨now, fun slot member => ?_⟩
    -- The note that is made to end does so now.
    rcases List.mem_cons.mp (after.mem_iff.mp member) with rfl | inside
    · exact ⟨scheduler.now, rfl, now⟩
    · exact voiced slot (before.mem_iff.mpr (List.mem_cons_of_mem _ inside))
  | defer _ _ _ _ => exact ⟨now, voiced⟩
  | refuse _ _ _ _ => exact ⟨now, voiced⟩
  | start lacks issued fit created begun regular before after =>
    obtain ⟨finish, ends, _, spent⟩ := fit
    refine ⟨(ensureSweep_now _).trans_le now, fun slot member => ?_⟩
    rw [slots, ensureSweep_lanes] at member
    rcases List.mem_cons.mp (after.mem_iff.mp member) with rfl | inside
    · exact ⟨finish, ends, spent⟩
    · exact voiced slot (before.mem_iff.mpr (List.mem_append_right _ inside))
  | book lacks issued fit created ahead regular after =>
    obtain ⟨finish, ends, _, spent⟩ := fit
    refine ⟨(ensureSweep_now _).trans_le now, fun slot member => ?_⟩
    rw [slots, ensureSweep_lanes] at member
    rcases List.mem_cons.mp (after.mem_iff.mp member) with rfl | inside
    · exact ⟨finish, ends, spent⟩
    · exact voiced slot inside
  | wake _ _ _ => exact ⟨now, voiced⟩
  | @promote timer later id pitch entry displaced rest lanes journal queued due action named regular
      before after =>
    refine ⟨now, fun slot member => ?_⟩
    -- The note that takes the seat keeps its end.
    rcases List.mem_cons.mp (after.mem_iff.mp member) with rfl | inside
    · exact voiced ⟨pitch, false, entry⟩ (before.mem_iff.mpr (List.mem_cons_self ..))
    · exact voiced slot (before.mem_iff.mpr
        (List.mem_cons_of_mem _ (List.mem_append_right _ inside)))
  | @sweep timer rest queued counted due action =>
    have swept : ∀ slot ∈ ({ scheduler with timers := rest }).swept.slots, slot.EndsBy time := by
      intro slot member
      have member : slot ∈ (scheduler.lanes.expire scheduler.now).slots := member
      rw [Lanes.expire_slots] at member
      exact voiced slot (List.mem_of_mem_filter member)
    rcases sweep_cases ({ scheduler with timers := rest }) with same | same
    · rw [same]
      exact ⟨now, swept⟩
    · rw [same, ensureSweep_now, slots, ensureSweep_lanes]
      exact ⟨now, swept⟩

/-- No moves of notes that are over by a time make a voice sound beyond it. -/
theorem Moves.endsBy {effects : List (Effect α)}
    (moves : Moves (.endingBy time) scheduler effects next) (now : scheduler.now ≤ time)
    (voiced : ∀ slot ∈ scheduler.slots, slot.EndsBy time) :
    next.now ≤ time ∧ ∀ slot ∈ next.slots, slot.EndsBy time := by
  induction moves with
  | done => exact ⟨now, voiced⟩
  | step move _ ih =>
    obtain ⟨later, sounding⟩ := move.endsBy now voiced
    exact ih later sounding

/-- No timer is set for a note from the time on by which all notes are over. -/
theorem Move.known {effects : List (Effect α)}
    (move : Move (.endingBy time) scheduler effects next) (forward : scheduler.settings.Forward)
    (now : time ≤ scheduler.now) :
    time ≤ next.now ∧ ∀ timer ∈ next.timers.queue, timer.action ≠ .sweep →
      timer ∈ scheduler.timers.queue := by
  have unset : ∀ id, ∀ timer ∈ (scheduler.unset id).timers.queue, timer.action ≠ .sweep →
      timer ∈ scheduler.timers.queue := fun _ _ member _ => List.mem_of_mem_filter member
  cases move with
  | clock ticks => exact ⟨now.trans ticks.1, fun _ member _ => member⟩
  | issue => exact ⟨now, fun _ member _ => member⟩
  | forget _ => exact ⟨now, unset _⟩
  | withdraw _ _ _ => exact ⟨now, unset _⟩
  | clear => exact ⟨now, fun _ member _ => List.mem_of_mem_filter member⟩
  | fade _ _ _ _ => exact ⟨now, fun _ member _ => member⟩
  | @defer id note lacks issued fit far =>
    -- A note that is put off starts later than the one time by which it is over.
    exfalso
    obtain ⟨finish, _, start, spent⟩ := fit
    have start : note.start ≤ finish := start
    have lead := forward.lead
    rw [Scalar.two_eq] at far
    linarith
  | refuse _ _ _ _ => exact ⟨now, fun _ member _ => member⟩
  | start _ _ _ _ _ _ _ _ =>
    rw [ensureSweep_now]
    refine ⟨now, fun timer member about => ?_⟩
    exact (mem_of_mem_ensureSweep about member :)
  | @book id cue voice lanes journal lacks issued fit created ahead regular after =>
    -- So does a note whose start is still to come.
    exfalso
    obtain ⟨finish, _, start, spent⟩ := fit
    have later := ahead
    rw [scheduler.tone_start ahead] at later
    exact later (start.trans (spent.trans now))
  | wake _ _ _ => exact ⟨now, unset _⟩
  | promote _ _ _ _ _ _ _ => exact ⟨now, unset _⟩
  | @sweep timer rest queued counted due action =>
    have left : ∀ other ∈ rest.queue, other ∈ scheduler.timers.queue := fun _ member =>
      queued ▸ List.mem_cons_of_mem _ member
    rcases sweep_cases ({ scheduler with timers := rest }) with same | same
    · rw [same]
      exact ⟨now, fun other member _ => left other member⟩
    · rw [same, ensureSweep_now]
      exact ⟨now, fun other member about => left other (mem_of_mem_ensureSweep about member)⟩

/-- No timers are set for notes from the time on by which all notes are over. -/
theorem Moves.known {effects : List (Effect α)}
    (moves : Moves (.endingBy time) scheduler effects next) (forward : scheduler.settings.Forward)
    (now : time ≤ scheduler.now) :
    time ≤ next.now ∧ ∀ timer ∈ next.timers.queue, timer.action ≠ .sweep →
      timer ∈ scheduler.timers.queue := by
  -- The clock never falls back below the time, and no move adds a timer about a note.
  induction moves with
  | done => exact ⟨now, fun _ member _ => member⟩
  | step move _ ih =>
    obtain ⟨between, early⟩ := move.known forward now
    obtain ⟨last, late⟩ := ih (move.settings_eq ▸ forward) between
    exact ⟨last, fun timer member about => early timer (late timer member about) about⟩

omit [ToneGenerator γ α] in
/-- A timer of a note is due by the time by which all notes are over. -/
theorem Punctual.due_le (punctual : scheduler.Punctual) (coherent : Coherent .lasting scheduler)
    (spent : scheduler.EndsBy time) {timer : Timer α} (queued : timer ∈ scheduler.timers.queue)
    (about : timer.action ≠ .sweep) : timer.due ≤ time := by
  cases action : timer.action with
  | sweep => exact absurd action about
  | reschedule id note =>
    -- It wakes a note that starts no later than it ends.
    calc timer.due ≤ note.start := punctual.waking timer queued id note action
      _ ≤ note.finish := coherent.fits timer queued id note action note.finish rfl
      _ ≤ time := spent.waiting timer queued id note action
  | promote id pitch =>
    -- It is due at the start of a prepared note.
    obtain ⟨slot, member, waits, _, _, start⟩ := coherent.kept timer queued id pitch action
    obtain ⟨finish, ends, early⟩ := spent.voiced slot member
    calc timer.due = slot.entry.start := start.symm
      _ ≤ finish := punctual.starting slot member waits finish ends
      _ ≤ time := early

/-- All that is left to do by the end of a sweep interval is to forget notes that have ended. -/
structure Idling (scheduler : Scheduler γ α) (time : α) : Prop where
  voiced : ∀ slot ∈ scheduler.slots, slot.EndsBy time
  sweeping : ∀ timer ∈ scheduler.timers.queue, timer.action = .sweep ∧
    timer.due ≤ time + scheduler.settings.sweepInterval

/-- An advance at a time by which every note is over leaves nothing but a sweep to wait for. -/
theorem Steady.advance_idling (steady : scheduler.Steady) (punctual : scheduler.Punctual)
    (lasting : Coherent .lasting scheduler) (spent : scheduler.EndsBy scheduler.now)
    (served : Served (scheduler.effects .advance)) :
    scheduler.advance.1.Idling scheduler.now := by
  have ending : Coherent (.endingBy scheduler.now) scheduler :=
    lasting.refit fun timer queued id note action =>
      ⟨note.finish, rfl, lasting.fits timer queued id note action _ rfl,
        spent.waiting timer queued id note action⟩
  have moves := ending.fireDue_moves scheduler.timers.tickets scheduler.timers.count
  obtain ⟨early, voiced⟩ := moves.endsBy le_rfl spent.voiced
  obtain ⟨_, known⟩ := moves.known steady.forward le_rfl
  have ok := lasting.fireDue_served _ _ served
  have after := (lasting.fireDue_moves scheduler.timers.tickets
    scheduler.timers.count).punctual steady.forward punctual
  refine ⟨voiced, fun timer member => ?_⟩
  -- A timer of a note would be an old one, which was due and so has been fired.
  have sweeps : timer.action = .sweep := by
    by_contra about
    have before := known timer member about
    have due := punctual.due_le lasting spent before about
    exact ((steady.firesDue.every ok).2 timer member due).1 before
  refine ⟨sweeps, ?_⟩
  calc timer.due ≤ scheduler.advance.1.now + scheduler.advance.1.settings.sweepInterval :=
        after.sweeping timer member sweeps
    _ ≤ scheduler.now + scheduler.advance.1.settings.sweepInterval := by
        have early : scheduler.advance.1.now ≤ scheduler.now := early
        gcongr

omit [ToneGenerator γ α] in
/-- Every note has ended and sounds, once there is nothing to wait for but a sweep. -/
theorem Idling.swept_lanes (idling : scheduler.Idling time) {rules : Rules α}
    (coherent : Coherent rules scheduler) (spent : time ≤ scheduler.now) :
    scheduler.lanes.expire scheduler.now = [] := by
  refine (coherent.regular.expire scheduler.now).eq_nil ?_
  rw [Lanes.expire_slots, List.filter_eq_nil_iff]
  intro slot member
  have sounds : slot.sounding = true := by
    by_contra waits
    -- A prepared note would have a timer of its own.
    obtain ⟨timer, queued, action, _⟩ :=
      coherent.promised slot member (Bool.eq_false_iff.mpr waits)
    have sweeps := (idling.sweeping timer queued).1
    rw [action] at sweeps
    cases sweeps
  obtain ⟨finish, ends, early⟩ := idling.voiced slot member
  simp [Lanes.isOver, sounds, ends, Ending.isReached, early.trans spent]

omit [ToneGenerator γ α] in
/-- Once there is nothing to wait for but a sweep, there is one timer if a sweep is ahead. -/
theorem Idling.length_eq (idling : scheduler.Idling time) {rules : Rules α}
    (coherent : Coherent rules scheduler) :
    scheduler.timers.queue.length = if scheduler.sweepPending then 1 else 0 := by
  rw [← coherent.sweeps, Timers.sweepCount, eq_comm, List.countP_eq_length]
  intro timer queued
  rw [(idling.sweeping timer queued).1]
  rfl

/-- An advance at the end of the last sweep interval forgets every note. -/
theorem Idling.advance (idling : scheduler.Idling time) {rules : Rules α}
    (coherent : Coherent rules scheduler) (forward : scheduler.settings.Forward)
    (spent : time + scheduler.settings.sweepInterval ≤ scheduler.now) :
    scheduler.advance.1.isIdle = true ∧ scheduler.advance.1.pendingTimers = 0 := by
  have count := idling.length_eq coherent
  unfold Scheduler.advance
  cases queued : scheduler.timers.queue with
  | nil =>
    -- Without a sweep ahead there is no voice left.
    have none : scheduler.sweepPending = false := by simpa [queued] using count
    have bare : scheduler.slots = [] := by
      by_contra filled
      simp [coherent.watched filled] at none
    have lanes := coherent.regular.eq_nil bare
    simp [Timers.count, queued, fireDue, isIdle, pendingTimers, lanes, Timers.awaitsNote]
  | cons timer later =>
    have member : timer ∈ scheduler.timers.queue := queued ▸ List.mem_cons_self ..
    obtain ⟨action, due⟩ := idling.sweeping timer member
    have alone : later = [] := by
      rw [queued] at count
      split at count
      · simpa using count
      · simp at count
    subst alone
    -- The one timer that is left is due, and its sweep finds that every note has ended.
    have reached : timer.due ≤ scheduler.now := due.trans spent
    have older := coherent.linked.bounded timer member
    have popped : scheduler.timers.popDue? scheduler.now scheduler.timers.tickets =
        some (.sweep, { scheduler.timers with queue := [] }) := by
      rw [Timers.popDue?, queued, ← action]
      exact if_neg (by simp [reached, older])
    have lanes := idling.swept_lanes coherent
      ((le_add_of_nonneg_right forward.interval).trans spent)
    have idle : ({ scheduler with timers.queue := [] }).swept.isIdle = true := by
      simp [swept, isIdle, lanes, Timers.awaitsNote]
    have fired : scheduler.fireDue scheduler.timers.tickets scheduler.timers.count =
        (({ scheduler with timers.queue := [] }).swept, .ok ()) := by
      rw [Timers.count, queued, List.length_singleton, fireDue, popped]
      simp only [fire, sweep_eq, if_pos idle]
      rfl
    rw [fired]
    exact ⟨idle, rfl⟩

/-- Two advances drain a scheduler, the first when all notes are over and the next a sweep later. -/
theorem Steady.drains (steady : scheduler.Steady) (punctual : scheduler.Punctual)
    (lasting : Coherent .lasting scheduler) {later : α} (reaches : scheduler.now ≤ time)
    (spent : scheduler.EndsBy time) (swept : time + scheduler.settings.sweepInterval ≤ later)
    (served : Served (scheduler.history [.setClock time, .advance, .setClock later, .advance])) :
    let drained := scheduler.run [.setClock time, .advance, .setClock later, .advance]
    drained.isIdle = true ∧ drained.pendingTimers = 0 := by
  have clock : Move .lasting scheduler [] (scheduler.setClock time) := .clock reaches
  have lasting := lasting.of_move clock
  have steady : (scheduler.setClock time).Steady := ⟨{ steady.coherent with }, steady.ranked,
    steady.forward⟩
  have idling := steady.advance_idling (clock.punctual steady.forward punctual) lasting
    ⟨spent.voiced, spent.waiting⟩ fun id tone refused => served id tone
      (List.mem_append_right _ (List.mem_append_left _ refused))
  have moves := lasting.fireDue_moves (scheduler.setClock time).timers.tickets
    (scheduler.setClock time).timers.count
  have settings : (scheduler.setClock time).advance.1.settings = scheduler.settings :=
    moves.settings_eq
  -- Time passes, and what is left to do is still to be done.
  have idling : ((scheduler.setClock time).advance.1.setClock later).Idling time :=
    ⟨idling.voiced, idling.sweeping⟩
  have coherent : Coherent .lasting ((scheduler.setClock time).advance.1.setClock later) :=
    { moves.coherent lasting with }
  exact idling.advance coherent (settings ▸ steady.forward) (settings ▸ swept)

/-- A run of notes that are over by a time leaves none that sounds beyond it. -/
theorem run_endsBy (generator : γ) (start : α) (settings : Settings α) {requests : List (Request α)}
    (along : (new generator start settings).Along (Obeys (.endingBy time)) requests)
    (reaches : start ≤ time) :
    ((new generator start settings).run requests).now ≤ time ∧
      ((new generator start settings).run requests).EndsBy time := by
  -- The rules of the run bound all that it makes, from an empty scheduler on.
  have coherent := Coherent.initial (.endingBy time) generator start settings
  have moves := coherent.run_moves along
  obtain ⟨now, voiced⟩ := moves.endsBy reaches (by simp [new, slots, Lanes.slots])
  refine ⟨now, voiced, fun timer queued id note action => ?_⟩
  obtain ⟨finish, ends, _, spent⟩ := (moves.coherent coherent).fits timer queued id note action
  cases ends
  exact spent

/-- A run of notes that start no later than they end can be drained when all of them are over. -/
theorem run_drains (generator : γ) (start : α) {settings : Settings α} (forward : settings.Forward)
    {requests : List (Request α)}
    (along : (new generator start settings).Along (Obeys .lasting) requests) {time later : α}
    (reaches : ((new generator start settings).run requests).now ≤ time)
    (spent : ((new generator start settings).run requests).EndsBy time)
    (swept : time + settings.sweepInterval ≤ later)
    (served : Served (((new generator start settings).run requests).history
      [.setClock time, .advance, .setClock later, .advance])) :
    let drained := ((new generator start settings).run requests).run
      [.setClock time, .advance, .setClock later, .advance]
    drained.isIdle = true ∧ drained.pendingTimers = 0 := by
  have coherent := Coherent.initial .lasting generator start settings
  have moves := coherent.run_moves along
  have lasting := moves.coherent coherent
  have settled : ((new generator start settings).run requests).settings = settings :=
    moves.settings_eq
  -- All along the run timers are in order and settings as they were.
  have steady : ((new generator start settings).run requests).Steady :=
    ⟨lasting.refit fun _ _ _ _ _ => trivial,
      moves.induction (fun ranked move => move.ranked ranked)
        (Steady.initial generator start forward).ranked, settled.symm ▸ forward⟩
  exact steady.drains (moves.punctual forward (.initial generator start settings)) lasting reaches
    spent (settled.symm ▸ swept) served

/-- A note that sounds and one that is put off are both gone a second after the later one ends. -/
theorem run_drains_pair :
    let requests : List (Request ℝ) := [.setClock 1, .schedule ⟨⟨60⟩, 1, 1, 1, 0⟩ none,
      .schedule ⟨⟨62⟩, 2, 1, 1, 0⟩ none, .releaseAll]
    let drained := ((new ({ admits := fun _ => true } : Recorder ℝ) 0 .standard).run requests).run
      [.setClock 3, .advance, .setClock 4, .advance]
    drained.isIdle = true ∧ drained.pendingTimers = 0 := by
  intro requests drained
  let fresh : Scheduler (Recorder ℝ) ℝ := new { admits := fun _ => true } 0 .standard
  -- The notes end at two and at three, and the clock stands at one.
  have ending : fresh.Along (Obeys (.endingBy 3)) requests :=
    ⟨⟨trivial, by norm_num [fresh, new], by norm_num⟩,
      ⟨trivial, 2, by norm_num [Note.cue, Note.finish]⟩,
      ⟨trivial, 3, by norm_num [Note.cue, Note.finish]⟩, ⟨trivial, trivial⟩, trivial⟩
  obtain ⟨now, spent⟩ := run_endsBy _ _ _ ending (by norm_num)
  have lasts : ∀ note : Note ℝ, 0 ≤ note.duration → ∀ id, Rules.lasting.fit id note.cue := by
    intro note lasts id time ends
    cases ends
    exact Note.start_le_finish lasts
  have lasting : fresh.Along (Obeys .lasting) requests :=
    ⟨⟨trivial, by norm_num [fresh, new, Rules.lasting]⟩, ⟨trivial, lasts _ (by norm_num) _⟩,
      ⟨trivial, lasts _ (by norm_num) _⟩, ⟨trivial, trivial⟩, trivial⟩
  have interval : (3 : ℝ) + (Settings.standard : Settings ℝ).sweepInterval ≤ 4 := by
    show (3 : ℝ) + 1.0 ≤ 4
    norm_num
  refine run_drains _ 0 Settings.forward_standard lasting now spent interval ?_
  -- The generator admits every attempt.
  have coherent := Coherent.initial .lasting ({ admits := fun _ => true } : Recorder ℝ) (0 : ℝ)
    .standard
  have moves := coherent.run_moves lasting
  have free : Coherent .free (fresh.run requests) :=
    (moves.coherent coherent).refit fun _ _ _ _ _ => trivial
  have drain : (fresh.run requests).Along (Obeys .free)
      [.setClock 3, .advance, .setClock 4, .advance] :=
    ⟨⟨trivial, trivial⟩, ⟨trivial, trivial⟩, ⟨trivial, trivial⟩, ⟨trivial, trivial⟩, trivial⟩
  exact (free.run_moves drain).served (moves.unfailing (Recorder.unfailing fun _ => rfl))

end Scheduler

end Melody
