import Melody.Proofs.Scheduler.Waiting

/-! A note that has been put off is settled when its timer fires. -/

namespace Melody.Scheduler

variable {γ α : Type} {id : NoteId}

section Settling

variable [Analytic α] {scheduler : Scheduler γ α} {timer : Timer α} {note : Note α}

/-- A scheduler without a timer that would schedule a note again is one that spares the note. -/
theorem Coherent.sparing_of {rules : Rules α} (coherent : Coherent rules scheduler)
    (settled : ∀ timer ∈ scheduler.timers.queue, ∀ note, timer.action ≠ .reschedule id note) :
    Coherent (sparing id) scheduler :=
  coherent.refit fun timer queued _ note action same => settled timer queued note (same ▸ action)

/-- No note is put off by making sure of a sweep. -/
theorem mem_of_mem_ensureSweep {timer : Timer α} (about : timer.action ≠ .sweep)
    (member : timer ∈ scheduler.ensureSweep.timers.queue) : timer ∈ scheduler.timers.queue := by
  unfold ensureSweep at member
  -- The only timer that may have been pushed is a sweep.
  split at member
  · exact member
  · rcases Timers.mem_insert.mp member with rfl | stays
    · exact absurd rfl about
    · exact stays

/-- A note that no timer will schedule again is not put off. -/
theorem Coherent.not_deferred (settled : Coherent (sparing id) scheduler) :
    scheduler.isDeferred id = false := by
  rw [Bool.eq_false_iff, ne_eq, isDeferred_iff]
  rintro ⟨⟨⟨_, ticket⟩, member, rfl⟩, unvoiced⟩
  obtain ⟨timer, queued, _, noted⟩ := (settled.linked.listed _ ticket).mp member
  -- Its timer would let it sound, and so it would have a voice.
  cases action : timer.action with
  | sweep => simp [action, Action.note?] at noted
  | reschedule other note =>
    rw [action] at noted
    exact settled.fits timer queued other note action (Option.some.inj noted)
  | promote other pitch =>
    rw [action] at noted
    obtain ⟨slot, present, _, _, named, _⟩ := settled.kept timer queued other pitch action
    exact unvoiced slot present (named.trans (Option.some.inj noted))

/-- A note is put off until one lead time is left before its start. -/
structure Waits (scheduler : Scheduler γ α) (timer : Timer α) (id : NoteId) (note : Note α) :
    Prop where
  queued : timer ∈ scheduler.timers.queue
  action : timer.action = .reschedule id note
  due : timer.due = note.start - scheduler.settings.leadTime

namespace Waits

/-- The timer that a note waits for is its own. -/
theorem noted (waits : scheduler.Waits timer id note) : timer.action.note? = some id := by
  rw [waits.action]
  rfl

/-- A note that is put off is known as such. -/
theorem isDeferred (waits : scheduler.Waits timer id note) (coherent : Coherent .free scheduler) :
    scheduler.isDeferred id = true := by
  rw [isDeferred_iff]
  refine ⟨⟨(id, timer.ticket), ?_, rfl⟩, coherent.apart timer waits.queued id note waits.action⟩
  exact (coherent.linked.listed id _).mpr ⟨timer, waits.queued, rfl, waits.noted⟩

end Waits

end Settling

section Waking

variable [Analytic α] [ToneGenerator γ α] {scheduler : Scheduler γ α}

/-- Letting a note sound leaves the timers alone. -/
theorem promote_timers (scheduler : Scheduler γ α) (pitch : Pitch) (id : NoteId) :
    (scheduler.promote pitch id).timers = scheduler.timers := by
  -- Promotion writes lanes and nothing else, and without the note it does nothing.
  cases taken : (scheduler.lanes.find? pitch).bind (·.takeFuture? id) with
  | none => rw [promote, taken]
  | some pair =>
    obtain ⟨journal, told⟩ := promote_told taken
    rw [told]
    rfl

/-- No note is put off by preparing one. -/
theorem mem_of_mem_prepare {cue : Cue α} {timer : Timer α} {other : NoteId} {note : Note α}
    (action : timer.action = .reschedule other note) (member : timer ∈
      (scheduler.prepare id cue.pitch cue.start cue.finish cue.velocity cue.pan).1.timers.queue) :
    timer ∈ scheduler.timers.queue := by
  cases outcome : (ToneGenerator.create scheduler.generator (scheduler.tone cue)).2 with
  | error cause =>
    rw [prepare_refused id outcome] at member
    exact member
  | ok voice =>
    obtain ⟨journal, prepared⟩ := prepare_created id outcome
    rw [prepared] at member
    have member := mem_of_mem_ensureSweep (by simp [action]) member
    -- The timer that a prepared note waits for does not put it off again.
    split at member
    · rw [promote_timers] at member
      exact member
    · rcases mem_setTimer.mp member with rfl | stays
      · cases action
      · exact stays

/-- A note that is not too far ahead is dropped if it is over, and gets its voice otherwise. -/
structure Woken (scheduler : Scheduler γ α) (note : Note α) (id : NoteId)
    (effects : List (Effect α)) (last : Scheduler γ α) : Prop where
  settled : Coherent (sparing id) last
  issued : id.number < last.nextId
  asked : ¬ note.finish < scheduler.now → ∃ voice?,
    asks id effects = [(scheduler.tone note.cue, voice?)] ∧
      (Unfailing scheduler.generator → ∃ voice, voice? = some voice)
  dropped : note.finish < scheduler.now → last.Lacks id ∧
    ∀ effect ∈ effects, effect.Concerns id → ∃ timer, effect = .fired timer

/-- A note that nothing is held for is settled when it is placed, unless it is too far ahead. -/
theorem Coherent.place_woken (coherent : Coherent .free scheduler) {note : Note α}
    (lacks : scheduler.Lacks id) (issued : id.number < scheduler.nextId)
    (near : ¬ note.finish < scheduler.now →
      ¬ scheduler.now + 2.0 * scheduler.settings.leadTime < note.start) :
    Woken scheduler note id (scheduler.placeEffects id note) (scheduler.place id note).1 := by
  have moves := coherent.place_moves note lacks issued trivial
  -- A note that is over leaves no trace, and one that is not has its voice prepared.
  by_cases ended : note.finish < scheduler.now
  · have kept : (scheduler.place id note).1 = scheduler := by rw [place, if_pos ended]
    have silent : scheduler.placeEffects id note = [] := by rw [placeEffects, if_pos ended]
    rw [kept, silent]
    exact ⟨lacks.coherent coherent, issued, fun lasts => absurd ended lasts, fun _ =>
      ⟨lacks, by simp⟩⟩
  · have prepared : (scheduler.place id note).1 = (scheduler.prepare id note.cue.pitch
        note.cue.start note.cue.finish note.cue.velocity note.cue.pan).1 := by
      rw [place, if_neg ended, if_neg (near ended)]
      rfl
    have told : scheduler.placeEffects id note = scheduler.prepareEffects id note.cue := by
      rw [placeEffects, if_neg ended, if_neg (near ended)]
    refine ⟨(moves.coherent coherent).sparing_of fun timer member _ action => ?_,
      Nat.lt_of_lt_of_le issued moves.nextId_le, fun _ => ?_, fun past => absurd past ended⟩
    · -- There was no timer about the note before.
      rw [prepared] at member
      have before := mem_of_mem_prepare action member
      exact lacks.untimed timer before (by rw [action]; rfl)
    · rw [told]
      exact asks_prepareEffects note.cue

namespace Woken

variable {next last : Scheduler γ α} {note : Note α} {effects later : List (Effect α)}

/-- A note that is settled is not met by what is done for others after that. -/
theorem followed (woken : Woken scheduler note id effects next)
    (moves : Moves (sparing id) next later last) :
    Woken scheduler note id (effects ++ later) last where
  settled := moves.coherent woken.settled
  issued := Nat.lt_of_lt_of_le woken.issued moves.nextId_le
  asked lasts := by
    rw [asks_append, moves.unasked, List.append_nil]
    exact woken.asked lasts
  dropped past := by
    obtain ⟨lacks, silent⟩ := woken.dropped past
    obtain ⟨still, apart⟩ := moves.lacks lacks
    refine ⟨still, fun effect member concerned => ?_⟩
    -- What comes behind the waking does not concern the note any more.
    rcases List.mem_append.mp member with early | late
    · exact silent effect early concerned
    · exact absurd concerned (apart effect late)

/-- A note is not met by what is done for others before it is settled. -/
theorem preceded {rules : Rules α} (moves : Moves rules scheduler effects next)
    (now : next.now = scheduler.now) (apart : ∀ effect ∈ effects, ¬ effect.Concerns id)
    (woken : Woken next note id later last) : Woken scheduler note id (effects ++ later) last where
  settled := woken.settled
  issued := woken.issued
  asked lasts := by
    have same : next.tone note.cue = scheduler.tone note.cue := by
      rw [tone, tone, now, moves.settings_eq]
    obtain ⟨voice?, asked, created⟩ := woken.asked (now ▸ lasts)
    refine ⟨voice?, ?_, fun unfailing => created (moves.unfailing unfailing)⟩
    rw [asks_append, asks_of_apart apart, asked, same, List.nil_append]
  dropped past := by
    obtain ⟨lacks, silent⟩ := woken.dropped (now ▸ past)
    refine ⟨lacks, fun effect member concerned => ?_⟩
    -- What comes before the waking does not concern the note yet.
    rcases List.mem_append.mp member with early | late
    · exact absurd concerned (apart effect early)
    · exact silent effect late concerned

/-- One tone is asked for at most, and no other than that of the note. -/
theorem asks_eq (woken : Woken scheduler note id effects last) :
    asks id effects = [] ∨ ∃ voice?, asks id effects = [(scheduler.tone note.cue, voice?)] := by
  by_cases past : note.finish < scheduler.now
  · exact Or.inl (asks_of_silent (woken.dropped past).2)
  · obtain ⟨voice?, asked, _⟩ := woken.asked past
    exact Or.inr ⟨voice?, asked⟩

/-- The timer of the note comes before what it leads to. -/
theorem fired (woken : Woken scheduler note id effects last) (timer : Timer α) :
    Woken scheduler note id (.fired timer :: effects) last where
  settled := woken.settled
  issued := woken.issued
  asked := woken.asked
  dropped past := by
    obtain ⟨lacks, silent⟩ := woken.dropped past
    refine ⟨lacks, fun effect member concerned => ?_⟩
    -- A timer that fires creates nothing.
    rcases List.mem_cons.mp member with rfl | behind
    · exact ⟨timer, rfl⟩
    · exact silent effect behind concerned

end Woken

end Waking

namespace Waits

variable [ExactScalar α] [ToneGenerator γ α] {scheduler next : Scheduler γ α} {note : Note α}
  {timer : Timer α}

/-- A note that is put off is asked for when its timer fires, or dropped if it is over. -/
theorem fire_woken (waits : scheduler.Waits timer id note) (coherent : Coherent .free scheduler)
    (forward : scheduler.settings.Forward) {rest : Timers α}
    (queued : scheduler.timers.queue = timer :: rest.queue)
    (counted : rest.tickets = scheduler.timers.tickets) (reached : timer.due ≤ scheduler.now) :
    Woken scheduler note id (.fired timer :: ({ scheduler with timers := rest }).fireEffects
      timer.action) (({ scheduler with timers := rest }).fire timer.action).1 := by
  have lacks : (scheduler.unset id).Lacks id :=
    .of_unset scheduler rfl rfl (coherent.apart timer waits.queued id note waits.action)
  have issued := coherent.issuedTimers timer waits.queued id waits.noted
  -- The clock has come to within a lead time of the start.
  have near : ¬ (scheduler.unset id).now + 2.0 * (scheduler.unset id).settings.leadTime <
      note.start := by
    show ¬ scheduler.now + 2.0 * scheduler.settings.leadTime < note.start
    have lead := forward.lead
    have due := waits.due
    rw [Scalar.two_eq]
    intro far
    linarith
  have placed := (coherent.forget lacks.unvoiced).place_woken lacks issued fun _ => near
  obtain ⟨fired, effects⟩ := coherent.fire_reschedule queued counted waits.action
  rw [waits.action, fired, effects]
  have woken : Woken scheduler note id ((scheduler.unset id).placeEffects id note)
    ((scheduler.unset id).place id note).1 :=
    ⟨placed.settled, placed.issued, placed.asked, placed.dropped⟩
  exact woken.fired timer

/-- Firing due timers leaves a note that is put off alone or settles it. -/
theorem fireDue_woken (waits : scheduler.Waits timer id note) (coherent : Coherent .free scheduler)
    (forward : scheduler.settings.Forward) (horizon rounds : Nat) :
    timer ∈ (scheduler.fireDue horizon rounds).1.timers.queue ∨
      timer.due ≤ scheduler.now ∧ Woken scheduler note id
        (scheduler.fireDueEffects horizon rounds) (scheduler.fireDue horizon rounds).1 := by
  -- As long as other timers fire, the note waits on in the scheduler that they leave.
  induction rounds generalizing scheduler with
  | zero => exact Or.inl waits.queued
  | succ rounds ih =>
    rw [fireDue, fireDueEffects]
    cases popped : scheduler.timers.popDue? scheduler.now horizon with
    | none => exact Or.inl waits.queued
    | some pair =>
      obtain ⟨action, rest⟩ := pair
      obtain ⟨first, queued, rfl, counted, due, _⟩ := Timers.popDue?_spec popped
      have moves := coherent.fire_moves queued counted due
      have onward := coherent.fire_onward forward queued counted
      simp only [queued, List.head?_cons, Option.toList_some, List.map_cons, List.map_nil,
        List.cons_append, List.nil_append]
      have member := waits.queued
      rw [queued] at member
      rcases List.mem_cons.mp member with rfl | behind
      · -- The note's own timer fires, and later ones are about others.
        have reached := not_lt.mp due
        have woken := waits.fire_woken coherent forward queued counted reached
        refine Or.inr ⟨reached, ?_⟩
        cases fired : ({ scheduler with timers := rest }).fire timer.action with
        | mk next outcome =>
          rw [fired] at woken
          cases outcome with
          | error error => simpa using woken
          | ok _ => exact woken.followed (woken.settled.fireDue_moves horizon rounds)
      · -- Another timer fires, which leaves this one where it is.
        have stays := onward.timers.subset timer behind
        have apart := moves.spared coherent waits.queued waits.action stays
        cases fired : ({ scheduler with timers := rest }).fire first.action with
        | mk next outcome =>
          rw [fired] at moves onward stays
          cases outcome with
          | error error => exact Or.inl stays
          | ok _ =>
            have still : next.Waits timer id note :=
              ⟨stays, waits.action, by rw [onward.settings]; exact waits.due⟩
            have later := ih still (moves.coherent coherent) (onward.settings ▸ forward)
            rw [onward.now] at later
            rcases later with waiting | ⟨reached, woken⟩
            · exact Or.inl waiting
            · exact Or.inr ⟨reached, woken.preceded moves onward.now apart⟩

end Waits

end Melody.Scheduler
