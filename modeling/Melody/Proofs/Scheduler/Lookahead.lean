import Melody.Proofs.Scheduler.Waking

/-! A note gets its voice once at most, when its start is near, and on time if time is even. -/

namespace Melody.Scheduler

variable {γ α : Type} [ExactScalar α] {scheduler next : Scheduler γ α} {id : NoteId}
  {note : Note α} {timer : Timer α}

/-- A tone that a note asks for at a time, within twice the lead time of its start. -/
structure Prompt (lead : α) (note : Note α) (now : α) (tone : Tone α) : Prop where
  start : tone.start = max note.start now
  finish : tone.finish = .at note.finish
  ahead : tone.start ≤ now + 2 * lead

/-- A note asks for a tone that starts when it should, or now if that is over. -/
theorem prompt_tone (note : Note α) (forward : scheduler.settings.Forward)
    (near : note.start ≤ scheduler.now + 2 * scheduler.settings.leadTime) :
    Prompt scheduler.settings.leadTime note scheduler.now (scheduler.tone note.cue) where
  start := Scalar.larger_eq_max ..
  finish := rfl
  ahead := by
    -- A start in the past is put to now, which lies within the lead.
    have lead := forward.lead
    show Scalar.larger note.start scheduler.now ≤ _
    rw [Scalar.larger_eq_max]
    exact max_le near (by linarith)

/-- A note that has been scheduled waits or is settled. -/
inductive Called (scheduler : Scheduler γ α) (id : NoteId) (note : Note α)
    (effects : List (Effect α)) (next : Scheduler γ α) : Prop where
  /-- The note is put off for a time that is still to come. -/
  | off (timer : Timer α) (waits : next.Waits timer id note) (ahead : scheduler.now < timer.due)
      (unasked : asks id effects = [])
  /-- The note is over or has asked for its voice. -/
  | up (settled : Coherent (sparing id) next) (issued : id.number < next.nextId)
      (once : (asks id effects).length ≤ 1)
      (asked : ∀ ask ∈ asks id effects, ask.1 = scheduler.tone note.cue ∧
        note.start ≤ scheduler.now + 2 * scheduler.settings.leadTime)

/-- What comes before a note is placed does not matter if it does not ask for a voice. -/
theorem Called.preceded {effects later : List (Effect α)} {last : Scheduler γ α}
    (called : Called next id note later last) (now : next.now = scheduler.now)
    (settings : next.settings = scheduler.settings) (unasked : asks id effects = []) :
    Called scheduler id note (effects ++ later) last := by
  -- Effects that ask nothing for the note do not count among its creations.
  have same : asks id (effects ++ later) = asks id later := by
    rw [asks_append, unasked, List.nil_append]
  cases called with
  | off timer waits ahead silent => exact .off timer waits (now ▸ ahead) (same.trans silent)
  | up settled issued once asked =>
    refine .up settled issued (same ▸ once) ?_
    rw [same]
    simpa only [tone, now, settings] using asked

variable [ToneGenerator γ α]

/-- A request of a run after a note was scheduled leaves the note alone, drops it or settles it. -/
inductive Goes (scheduler : Scheduler γ α) (timer : Timer α) (id : NoteId) (note : Note α)
    (request : Request α) : Prop where
  /-- The note waits on, and nothing happens to it. -/
  | on (waits : (scheduler.perform request).Waits timer id note)
      (apart : ∀ effect ∈ scheduler.effects request, ¬ effect.Concerns id)
  /-- The note is cancelled. -/
  | off (dropped : request.drops id = true)
      (unasked : asks id (scheduler.effects request) = [])
      (settled : Coherent (sparing id) (scheduler.perform request))
  /-- The timer of the note fires. -/
  | up (advance : request = .advance) (reached : timer.due ≤ scheduler.now)
      (woken : Woken scheduler note id (scheduler.effects request) (scheduler.perform request))

/-- A request that does not schedule a note again leaves it alone, drops it or settles it. -/
theorem Waits.goes (waits : scheduler.Waits timer id note) (steady : scheduler.Steady)
    {request : Request α} (spares : scheduler.Spares id request) :
    scheduler.Goes timer id note request := by
  have coherent := steady.coherent
  have moves := coherent.perform_moves (obeys_free spares.1)
  have settings := moves.settings_eq
  have on : timer ∈ (scheduler.perform request).timers.queue →
      scheduler.Goes timer id note request := fun stays =>
    .on ⟨stays, waits.action, settings ▸ waits.due⟩
      (moves.spared coherent waits.queued waits.action stays)
  -- A request that drops the note cancels it, and of the others only an advance can wake it.
  by_cases dropped : request.drops id = true
  · cases request with
    | cancel other =>
      obtain rfl : other = id := by simpa [Request.drops] using dropped
      have lacks := (coherent.cancel_move other).2
      exact .off dropped (asks_cancelEffects other) (lacks.coherent (moves.coherent coherent))
    | cancelAll =>
      have silent : asks id scheduler.cancelAllEffects = [] :=
        filterMap_cancelAllEffects deaf_asked? scheduler
      refine .off dropped silent ((moves.coherent coherent).sparing_of ?_)
      intro timer member note action
      -- Only sweeps are left.
      have member : timer ∈ scheduler.cancelAll.timers.queue := member
      rw [cancelAll_timers] at member
      have swept := (List.mem_filter.mp member).2
      simp [action, Action.note?] at swept
    | schedule other id? =>
      cases id? with
      | none => cases dropped
      | some again =>
        have same : again = id := by simpa [Request.drops] using dropped
        exact absurd (same ▸ rfl) (spares.2 other)
    | playPitch | releasePitch | releaseAll | advance | setClock => cases dropped
  · have kept : request.drops id = false := by simpa using dropped
    by_cases advance : request = .advance
    · subst advance
      rcases waits.fireDue_woken coherent steady.forward scheduler.timers.tickets
        scheduler.timers.count with stays | ⟨reached, woken⟩
      · exact on stays
      · exact .up rfl reached woken
    · exact on (coherent.mem_perform steady.forward waits.queued waits.noted kept
        fun same => absurd same advance)

/-- Nothing is asked for on behalf of a note that no timer will schedule again. -/
theorem Coherent.unasked (settled : Coherent (sparing id) scheduler)
    (issued : id.number < scheduler.nextId) {requests : List (Request α)}
    (spares : scheduler.Along (Spares id) requests) :
    asks id (scheduler.history requests) = [] ∧
      (∀ holds : Scheduler γ α → Tone α × Option Nat → Prop, scheduler.Along (fun state request =>
        ∀ ask ∈ asks id (state.effects request), holds state ask) requests) ∧
      Coherent (sparing id) (scheduler.run requests) := by
  -- Requests that spare the note make no move that asks for it.
  have coherent : Coherent .free scheduler := settled.refit fun _ _ _ _ _ => trivial
  have along := along_sparing coherent spares (Or.inl issued)
  have moves := settled.run_moves along
  refine ⟨moves.unasked, fun holds => ?_, moves.coherent settled⟩
  refine (settled.along_moves along).imp fun state request moves => ?_
  simp [moves.unasked]

/-- A run that does not schedule a note again asks for it once at most, when its start is near. -/
theorem Waits.run (waits : scheduler.Waits timer id note) (steady : scheduler.Steady)
    {requests : List (Request α)} (spares : scheduler.Along (Spares id) requests) :
    (asks id (scheduler.history requests)).length ≤ 1 ∧
      scheduler.Along (fun state request => ∀ ask ∈ asks id (state.effects request),
        Prompt scheduler.settings.leadTime note state.now ask.1) requests := by
  -- The note waits for some requests, and once it is dropped or woken nothing more is asked for.
  induction requests generalizing scheduler with
  | nil => exact ⟨Nat.zero_le _, trivial⟩
  | cons request later ih =>
    have moves := steady.coherent.perform_moves (obeys_free spares.1.1)
    have issued := Nat.lt_of_lt_of_le
      (steady.coherent.issuedTimers timer waits.queued id waits.noted) moves.nextId_le
    rw [asks_history_cons]
    cases waits.goes steady spares.1 with
    | on waits apart =>
      obtain ⟨once, prompt⟩ := ih waits (steady.moves moves) spares.2
      rw [moves.settings_eq] at prompt
      rw [asks_of_apart apart]
      exact ⟨once, by simp [asks_of_apart apart], prompt⟩
    | off dropped unasked settled =>
      obtain ⟨none, silent, _⟩ := settled.unasked issued spares.2
      rw [unasked, none]
      exact ⟨Nat.zero_le _, by simp [unasked], silent _⟩
    | up advance reached woken =>
      obtain ⟨none, silent, _⟩ := woken.settled.unasked issued spares.2
      have lead := steady.forward.lead
      have prompt := prompt_tone note steady.forward
        (by linarith [waits.due, reached])
      rw [none, List.append_nil]
      rcases woken.asks_eq with nothing | ⟨voice?, asked⟩
      · exact ⟨by simp [nothing], by simp [nothing], silent _⟩
      · exact ⟨by simp [asked], by simpa [asked] using prompt, silent _⟩

/-- The clock never runs more than a lead time ahead between a mark and the advances after it. -/
def Paced (lead mark : α) (scheduler : Scheduler γ α) : List (Request α) → Prop
  | [] => True
  | .advance :: later =>
    scheduler.now ≤ mark + lead ∧ Paced lead scheduler.now (scheduler.perform .advance) later
  | request :: later => Paced lead mark (scheduler.perform request) later

/-- What is not an advance leaves the pace. -/
theorem Paced.of_ne {lead mark : α} {request : Request α} {later : List (Request α)}
    (paced : Paced lead mark scheduler (request :: later)) (other : request ≠ .advance) :
    Paced lead mark (scheduler.perform request) later := by
  cases request with
  | advance => contradiction
  | _ => exact paced

/-- A note that is put off is settled by the advance of a generator that does not fail. -/
theorem Waits.advance_woken (waits : scheduler.Waits timer id note) (steady : scheduler.Steady)
    (unfailing : Unfailing scheduler.generator) (reached : timer.due ≤ scheduler.now) :
    Woken scheduler note id (scheduler.effects .advance) (scheduler.perform .advance) := by
  rcases waits.fireDue_woken steady.coherent steady.forward scheduler.timers.tickets
    scheduler.timers.count with stays | ⟨_, woken⟩
  · -- All timers that are due are fired, so this one cannot be left.
    have ok := steady.coherent.fireDue_ok unfailing scheduler.timers.tickets scheduler.timers.count
    have new := (steady.firesDue.every ok).2 timer stays reached
    exact absurd waits.queued new.1
  · exact woken

/-- A note that is put off starts on time if advances come often enough. -/
theorem Waits.exact (waits : scheduler.Waits timer id note) (steady : scheduler.Steady)
    (unfailing : Unfailing scheduler.generator) {mark : α} (early : mark < timer.due)
    {requests : List (Request α)} (spares : scheduler.Along (Spares id) requests)
    (paced : Paced scheduler.settings.leadTime mark scheduler requests) :
    scheduler.Along (fun state request => ∀ ask ∈ asks id (state.effects request),
      ask.1.start = note.start) requests := by
  -- The mark is the last advance, at which the timer was not due yet.
  induction requests generalizing scheduler mark with
  | nil => trivial
  | cons request later ih =>
    have moves := steady.coherent.perform_moves (obeys_free spares.1.1)
    have issued := Nat.lt_of_lt_of_le
      (steady.coherent.issuedTimers timer waits.queued id waits.noted) moves.nextId_le
    cases waits.goes steady spares.1 with
    | on still apart =>
      refine ⟨by simp [asks_of_apart apart], ?_⟩
      by_cases advance : request = .advance
      · subst advance
        -- A timer that was due would have fired, so the mark may be moved up to this advance.
        have ahead : scheduler.now < timer.due := by
          by_contra past
          have woken := waits.advance_woken steady unfailing (not_lt.mp past)
          exact woken.settled.fits timer still.queued id note still.action rfl
        exact ih still (steady.moves moves) (moves.unfailing unfailing) ahead spares.2
          (moves.settings_eq ▸ paced.2)
      · exact ih still (steady.moves moves) (moves.unfailing unfailing) early spares.2
          (moves.settings_eq ▸ paced.of_ne advance)
    | off dropped unasked settled =>
      exact ⟨by simp [unasked], (settled.unasked issued spares.2).2.1 _⟩
    | up advance reached woken =>
      subst advance
      -- The timer came due after the mark, and so less than a lead time ago.
      have inTime : scheduler.now ≤ note.start := by linarith [waits.due, paced.1]
      have start : (scheduler.tone note.cue).start = note.start :=
        (Scalar.larger_eq_max ..).trans (max_eq_left inTime)
      refine ⟨?_, (woken.settled.unasked issued spares.2).2.1 _⟩
      rcases woken.asks_eq with nothing | ⟨voice?, asked⟩
      · simp [nothing]
      · simpa [asked] using start

/-- A note that nothing is held for waits or is settled when it is placed. -/
theorem Steady.place_called (steady : scheduler.Steady) (lacks : scheduler.Lacks id)
    (issued : id.number < scheduler.nextId) (note : Note α) :
    Called scheduler id note (scheduler.placeEffects id note) (scheduler.place id note).1 := by
  have lead := steady.forward.lead
  by_cases waits : ¬ note.finish < scheduler.now ∧
      scheduler.now + 2.0 * scheduler.settings.leadTime < note.start
  · obtain ⟨lasts, far⟩ := waits
    -- The note is put off, to a time that lies ahead by a lead time at least.
    have put : (scheduler.place id note).1 = scheduler.setTimer id
        (note.start - scheduler.settings.leadTime) (.reschedule id note) := by
      rw [place, if_neg lasts, if_pos far]
    have silent : scheduler.placeEffects id note = [] := by
      rw [placeEffects, if_neg lasts, if_pos far]
    rw [put, silent]
    rw [Scalar.two_eq] at far
    exact .off _ ⟨mem_setTimer.mpr (Or.inl rfl), rfl, rfl⟩ (by linarith) rfl
  · have near : ¬ note.finish < scheduler.now →
        ¬ scheduler.now + 2.0 * scheduler.settings.leadTime < note.start :=
      fun lasts far => waits ⟨lasts, far⟩
    have woken := steady.coherent.place_woken lacks issued near
    refine .up woken.settled woken.issued ?_ fun ask asked => ?_
    · rcases woken.asks_eq with nothing | ⟨voice?, asked⟩
      · simp [nothing]
      · simp [asked]
    · by_cases past : note.finish < scheduler.now
      · rw [asks_of_silent (woken.dropped past).2] at asked
        contradiction
      · obtain ⟨voice?, same, _⟩ := woken.asked past
        obtain rfl := List.mem_singleton.mp (same ▸ asked)
        have near := near past
        rw [Scalar.two_eq] at near
        exact ⟨rfl, not_lt.mp near⟩

/-- A note that is scheduled waits or is settled. -/
theorem Steady.called (steady : scheduler.Steady) (note : Note α) (id? : Option NoteId)
    (issued : scheduler.Issued (.schedule note id?)) :
    Called scheduler (id?.getD scheduler.freshId.2) note (scheduler.effects (.schedule note id?))
      (scheduler.perform (.schedule note id?)) := by
  cases id? with
  | none =>
    have given : Move .free scheduler [] scheduler.freshId.1 := .issue
    have called := (steady.moves (.single given)).place_called steady.coherent.lacks_fresh
      (Nat.lt_succ_self _) note
    have called : Called scheduler scheduler.freshId.2 note ([] ++ _) _ :=
      called.preceded rfl rfl asks_nil
    exact called
  | some id =>
    -- What was held for the number is cancelled first.
    obtain ⟨move, lacks⟩ := steady.coherent.cancel_move id
    have called := (steady.moves (.single move)).place_called lacks
      (Nat.lt_of_lt_of_le issued move.nextId_le) note
    exact called.preceded (steady.coherent.cancel_now id) move.settings_eq (asks_cancelEffects id)

/-- How a note that was put off fares up to the first advance that is close enough to its start. -/
structure Settles (scheduler : Scheduler γ α) (id : NoteId) (note : Note α)
    (waiting rest : List (Request α)) : Prop where
  /-- The note waits as long as it does, and nothing happens to it. -/
  waits : (scheduler.run waiting).isDeferred id = true ∧
    ∀ effect ∈ scheduler.history waiting, ¬ effect.Concerns id
  /-- The advance creates its voice if the note is not over. -/
  created : (scheduler.run waiting).now ≤ note.finish → ∃ voice,
    asks id ((scheduler.run waiting).effects .advance) =
      [((scheduler.run waiting).tone note.cue, some voice)]
  /-- Otherwise its timer fires and nothing else ever happens to it. -/
  dropped : note.finish < (scheduler.run waiting).now →
    ∀ effect ∈ (scheduler.run waiting).history (.advance :: rest), effect.Concerns id →
      ∃ timer, effect = .fired timer
  /-- The note is never put off again. -/
  once : ∀ early late, rest = early ++ late →
    (scheduler.run (waiting ++ .advance :: early)).isDeferred id = false

/-- A note that is put off waits until an advance is close enough to its start. -/
theorem Waits.along (waits : scheduler.Waits timer id note) (steady : scheduler.Steady)
    {requests : List (Request α)} (issued : scheduler.Along Issued requests)
    (kept : ∀ request ∈ requests, request.drops id = false)
    (early : scheduler.Along (fun state request => request = .advance →
      state.now < note.start - scheduler.settings.leadTime) requests) :
    (scheduler.run requests).Waits timer id note := by
  -- No request drops the note, and no advance comes when its timer is due.
  induction requests generalizing scheduler with
  | nil => exact waits
  | cons request later ih =>
    have moves := steady.coherent.perform_moves (obeys_free issued.1)
    have stays := steady.coherent.mem_perform steady.forward waits.queued waits.noted
      (kept request (List.mem_cons_self ..)) fun advance => waits.due ▸ early.1 advance
    have still : (scheduler.perform request).Waits timer id note :=
      ⟨stays, waits.action, moves.settings_eq ▸ waits.due⟩
    refine ih still (steady.moves moves) issued.2
      (fun other member => kept other (List.mem_cons_of_mem _ member)) ?_
    rw [moves.settings_eq]
    exact early.2

/-- A note that is put off is settled by the first advance that is close enough to its start. -/
theorem Waits.settles (waits : scheduler.Waits timer id note) (steady : scheduler.Steady)
    (unfailing : Unfailing scheduler.generator) {waiting rest : List (Request α)}
    (spares : scheduler.Along (Spares id) (waiting ++ .advance :: rest))
    (kept : ∀ request ∈ waiting, request.drops id = false)
    (early : scheduler.Along (fun state request => request = .advance →
      state.now < note.start - scheduler.settings.leadTime) waiting)
    (reached : note.start - scheduler.settings.leadTime ≤ (scheduler.run waiting).now) :
    scheduler.Settles id note waiting rest := by
  obtain ⟨first, last⟩ := along_append.mp spares
  have issued := first.imp fun _ _ spares => spares.1
  have moves := steady.coherent.run_moves (issued.imp fun _ _ => obeys_free)
  -- No advance has come close enough to the start, so the timer is still there.
  have still := waits.along steady issued kept early
  have after := steady.moves moves
  have due : timer.due ≤ (scheduler.run waiting).now := waits.due ▸ reached
  have woken := still.advance_woken after (moves.unfailing unfailing) due
  have free : Coherent .free ((scheduler.run waiting).perform .advance) :=
    woken.settled.refit fun _ _ _ _ _ => trivial
  have rested := along_sparing free last.2 (Or.inl woken.issued)
  refine ⟨⟨still.isDeferred after.coherent,
    moves.spared steady.coherent waits.queued waits.action still.queued⟩, ?_, ?_, ?_⟩
  · intro lasts
    obtain ⟨voice?, asked, created⟩ := woken.asked (not_lt.mpr lasts)
    obtain ⟨voice, rfl⟩ := created (moves.unfailing unfailing)
    exact ⟨voice, asked⟩
  · intro past
    exact ((woken.followed (woken.settled.run_moves rested)).dropped past).2
  · rintro before later rfl
    rw [run_append, run_cons]
    have moves := woken.settled.run_moves (along_append.mp rested).1
    exact (moves.coherent woken.settled).not_deferred

/-- What a request that schedules a note leads to, up to one that schedules the note again. -/
structure LooksAhead (scheduler : Scheduler γ α) (call : Request α) (id : NoteId) (note : Note α)
    (later : List (Request α)) : Prop where
  /-- The generator has heard of the effects and of nothing else. -/
  heard : (scheduler.run (call :: later)).generator =
    hear scheduler.generator (scheduler.history (call :: later))
  /-- One voice is asked for at most, whether it is created or not. -/
  once : (asks id (scheduler.history (call :: later))).length ≤ 1
  /-- A voice that is asked for starts with the note, or now if that is over, and ends with it. -/
  prompt : scheduler.Along (fun state request => ∀ ask ∈ asks id (state.effects request),
    Prompt scheduler.settings.leadTime note state.now ask.1) (call :: later)
  /-- A note that is put off and not dropped is settled by the first advance close to its start. -/
  settles : Unfailing scheduler.generator → (scheduler.perform call).isDeferred id = true →
    ∀ waiting rest, later = waiting ++ .advance :: rest →
      (∀ request ∈ waiting, request.drops id = false) →
      (scheduler.perform call).Along (fun state request => request = .advance →
        state.now < note.start - scheduler.settings.leadTime) waiting →
      note.start - scheduler.settings.leadTime ≤ ((scheduler.perform call).run waiting).now →
      (scheduler.perform call).Settles id note waiting rest
  /-- A note that is scheduled before its start begins on time if advances are close together. -/
  exact : Unfailing scheduler.generator → scheduler.now ≤ note.start →
    Paced scheduler.settings.leadTime scheduler.now (scheduler.perform call) later →
    scheduler.Along (fun state request => ∀ ask ∈ asks id (state.effects request),
      ask.1.start = note.start) (call :: later)

/-- A steady scheduler looks ahead to a note as long as the note is not scheduled again. -/
theorem Steady.looksAhead (steady : scheduler.Steady) {id? : Option NoteId}
    (issued : scheduler.Issued (.schedule note id?)) {later : List (Request α)}
    (spares : (scheduler.perform (.schedule note id?)).Along
      (Spares (id?.getD scheduler.freshId.2)) later) :
    scheduler.LooksAhead (.schedule note id?) (id?.getD scheduler.freshId.2) note later := by
  have moves := steady.coherent.perform_moves (obeys_free issued)
  have after := steady.moves moves
  have settings := moves.settings_eq
  have rest := after.coherent.run_moves (spares.imp fun _ _ spare => obeys_free spare.1)
  have heard := (moves.trans rest).generator_eq
  -- Nothing was asked for before the note waits, and nothing is after it has been settled.
  cases steady.called note id? issued with
  | off timer waits ahead unasked =>
    obtain ⟨once, prompt⟩ := waits.run after spares
    rw [settings] at prompt
    refine ⟨heard, ?_, ⟨by simp [unasked], prompt⟩, ?_, ?_⟩
    · rw [asks_history_cons, unasked]
      exact once
    · rintro unfailing - waiting rest rfl kept early reached
      rw [← settings] at early reached
      exact waits.settles after (moves.unfailing unfailing) spares kept early reached
    · intro unfailing _ paced
      rw [← settings] at paced
      exact ⟨by simp [unasked], waits.exact after (moves.unfailing unfailing) ahead spares paced⟩
  | up settled issued once asked =>
    obtain ⟨none, silent, _⟩ := settled.unasked issued spares
    refine ⟨heard, ?_, ⟨fun ask inside => ?_, silent _⟩, ?_, ?_⟩
    · rw [asks_history_cons, none, List.append_nil]
      exact once
    · obtain ⟨same, near⟩ := asked ask inside
      rw [same]
      exact prompt_tone note steady.forward near
    · intro _ deferred
      rw [settled.not_deferred] at deferred
      contradiction
    · refine fun _ early _ => ⟨fun ask inside => ?_, silent _⟩
      rw [(asked ask inside).1]
      exact (Scalar.larger_eq_max ..).trans (max_eq_left early)

/-- Requests before one that schedules a note again spare the note. -/
theorem Along.spares {requests : List (Request α)} (issued : scheduler.Along Issued requests) :
    scheduler.Along (Spares id) (requests.takeWhile fun request => !request.renews id) := by
  induction requests generalizing scheduler with
  | nil => trivial
  | cons request later ih =>
    rw [List.takeWhile_cons]
    -- Up to the first request that schedules the note again it is spared.
    split
    · rename_i kept
      refine ⟨⟨issued.1, ?_⟩, ih issued.2⟩
      rintro note rfl
      simp [Request.renews] at kept
    · trivial

/-- Every note that a run schedules has its voice looked ahead for. -/
theorem run_looksAhead (generator : γ) (now : α) {settings : Settings α}
    (forward : settings.Forward) {before later : List (Request α)} {note : Note α}
    {id? : Option NoteId} (issued : (new generator now settings).Along Issued
      (before ++ .schedule note id? :: later)) {id : NoteId}
    (numbered : id?.getD ((new generator now settings).run before).freshId.2 = id) :
    ((new generator now settings).run before).LooksAhead (.schedule note id?) id note
      (later.takeWhile fun request => !request.renews id) := by
  subst numbered
  obtain ⟨first, call, last⟩ := along_append.mp issued
  exact ((Steady.initial generator now forward).run first).looksAhead call last.spares

/-- A note is put off, and the first advance that is close enough to its start creates its voice. -/
theorem run_looksAhead_deferred :
    ((new ({} : Recorder ℝ) 0 .standard).run []).LooksAhead
        (.schedule ⟨⟨60⟩, 5, 1, 1, 0⟩ none) ⟨0⟩ ⟨⟨60⟩, 5, 1, 1, 0⟩ [.setClock 5, .advance] ∧
      ∃ tone voice, asks ⟨0⟩ (((new ({} : Recorder ℝ) 0 .standard).run
        [.schedule ⟨⟨60⟩, 5, 1, 1, 0⟩ none, .setClock 5]).effects .advance) =
          [(tone, some voice)] := by
  have issued : (new ({} : Recorder ℝ) 0 .standard).Along Issued
      ([] ++ .schedule ⟨⟨60⟩, 5, 1, 1, 0⟩ none :: [.setClock 5, .advance]) :=
    ⟨trivial, trivial, trivial, trivial⟩
  have looks := run_looksAhead ({} : Recorder ℝ) 0 Settings.forward_standard issued rfl
  refine ⟨looks, ?_⟩
  have lead : (Settings.standard : Settings ℝ).leadTime = 1 / 10 := by
    show (0.1 : ℝ) = _
    norm_num
  have lasts : ¬ (⟨⟨60⟩, 5, 1, 1, 0⟩ : Note ℝ).finish < 0 := by norm_num [Note.finish]
  have far : 2 * (Settings.standard : Settings ℝ).leadTime < 5 := by norm_num [lead]
  -- The note is far ahead of the clock, and so waits for its timer.
  have deferred : ((new ({} : Recorder ℝ) 0 .standard).perform
      (.schedule ⟨⟨60⟩, 5, 1, 1, 0⟩ none)).isDeferred ⟨0⟩ = true := by
    simp [perform, schedule, place, freshId, new, lasts, far, isDeferred, setTimer, Lanes.has]
  have near : 5 - (Settings.standard : Settings ℝ).leadTime ≤ 5 := by norm_num [lead]
  have settles := looks.settles (Recorder.unfailing fun _ => rfl) deferred [.setClock 5] [] rfl
    (by simp [Request.drops]) ⟨by simp, trivial⟩ near
  obtain ⟨voice, asked⟩ := settles.created
    (by norm_num [Note.finish] : (5 : ℝ) ≤ (⟨⟨60⟩, 5, 1, 1, 0⟩ : Note ℝ).finish)
  exact ⟨_, voice, asked⟩

end Melody.Scheduler
