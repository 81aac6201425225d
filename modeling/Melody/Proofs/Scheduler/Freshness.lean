import Melody.Proofs.Outcome
import Melody.Proofs.Scheduler.Cancellation

/-! A number that is given out is free, unless a note was scheduled under it before. -/

namespace Melody

namespace Scheduler

variable {γ α : Type}

/-- The scheduler with another count of the numbers given out. -/
def numbered (scheduler : Scheduler γ α) (count : Nat) : Scheduler γ α :=
  { scheduler with nextId := count }

section Counting

variable (scheduler : Scheduler γ α) (count : Nat)

/-- Commands to a voice leave the count alone. -/
theorem commands_numbered [ToneGenerator γ α] (voice : Nat) (commands : List (Command α)) :
    (scheduler.numbered count).commands voice commands =
      (scheduler.commands voice commands).numbered count := by
  induction commands generalizing scheduler with
  | nil => rfl
  | cons first later ih => exact ih (scheduler.command voice first)

/-- Setting up a sweep leaves the count alone. -/
theorem ensureSweep_numbered [Analytic α] :
    (scheduler.numbered count).ensureSweep = scheduler.ensureSweep.numbered count := by
  -- Whether a sweep is pending does not depend on the count.
  unfold ensureSweep numbered
  split <;> rfl

/-- Cancelling a note leaves the count alone, and answers as under any other. -/
theorem cancel_numbered [ToneGenerator γ α] (id : NoteId) :
    (scheduler.numbered count).cancel id =
      ((scheduler.cancel id).1.numbered count, (scheduler.cancel id).2) := by
  simp only [cancel, dropTimer, dropVoice, numbered, dropTicket]
  -- The timer and the voice are looked up in tables that do not show the count.
  cases scheduler.tickets.find? (·.1 == id) <;> cases scheduler.lanes.take? id <;> rfl

variable [Analytic α] [ToneGenerator γ α]

/-- Promoting an entry leaves the count alone. -/
theorem promote_numbered (pitch : Pitch) (id : NoteId) :
    (scheduler.numbered count).promote pitch id =
      (scheduler.promote pitch id).numbered count := by
  simp only [promote, numbered]
  -- Whether the note is found, and whether one is cut short, is read off the lanes and the clock.
  cases (scheduler.lanes.find? pitch).bind (·.takeFuture? id) with
  | none => rfl
  | some pair =>
    dsimp only
    cases pair.2.active with
    | none => rfl
    | some previous =>
      dsimp only
      by_cases sounds : previous.finish.isAfter scheduler.now = true
      · simp only [sounds, if_true]
        rfl
      · simp only [sounds]
        rfl

/-- The scheduler with one more entry, which sounds at once or waits for its start. -/
def joined (scheduler : Scheduler γ α) (pitch : Pitch) (entry : Entry α) : Scheduler γ α :=
  let waiting := { scheduler with
    lanes := scheduler.lanes.update pitch fun lane =>
      { lane with future := lane.future ++ [entry] } }
  Scheduler.ensureSweep
    (if entry.start ≤ scheduler.now then waiting.promote pitch entry.id
    else waiting.setTimer entry.id entry.start (.promote entry.id pitch))

/-- An entry joins its lane under any count as it does under another. -/
theorem joined_numbered (pitch : Pitch) (entry : Entry α) :
    (scheduler.numbered count).joined pitch entry =
      (scheduler.joined pitch entry).numbered count := by
  -- The next number is read by none of the parts that joining consists of.
  have now : (scheduler.numbered count).now = scheduler.now := rfl
  rw [joined, joined, now, ← ensureSweep_numbered]
  by_cases begun : entry.start ≤ scheduler.now
  · rw [if_pos begun, if_pos begun, ← promote_numbered]
    rfl
  · rw [if_neg begun, if_neg begun]
    rfl

omit [ToneGenerator γ α] in
/-- The check of how many notes were created does not look at the numbers given out. -/
theorem checkCount_numbered (velocity : α) :
    (scheduler.numbered count).checkCount velocity =
      (scheduler.checkCount velocity).numbered count := by
  unfold checkCount numbered
  dsimp only
  split <;> rfl

/-- When the voice of a cue is made, it is sent its part, and its entry joins the lane. -/
theorem prepare_made (id : NoteId) {cue : Cue α} {generator : γ} {voice : Nat}
    (made : ToneGenerator.create scheduler.generator (scheduler.tone cue) =
      (generator, .ok voice)) :
    scheduler.prepare id cue.pitch cue.start cue.finish cue.velocity cue.pan =
      (((({ scheduler with generator }).checkCount cue.velocity).commands voice
        (scheduler.part cue)).joined cue.pitch (scheduler.entryOf id cue voice), .ok ()) := by
  obtain ⟨journal, playing⟩ := checkCount_commands_eq ({ scheduler with generator }) cue.velocity
    id voice (scheduler.part cue)
  have now : ((({ scheduler with generator }).checkCount cue.velocity).commands voice
      (scheduler.part cue)).now = scheduler.now := by
    rw [playing]
    rfl
  -- Commands leave the clock, so the entry starts now if the tone does.
  have begins : (scheduler.entryOf id cue voice).start ≤
      ((({ scheduler with generator }).checkCount cue.velocity).commands voice
        (scheduler.part cue)).now ↔ Scalar.larger cue.start scheduler.now ≤ scheduler.now := by
    rw [now]
    rfl
  simp only [tone] at made
  simp only [joined, begins, prepare, made]
  rfl

/-- Preparing a cue leaves the count alone, and answers as under any other. -/
theorem prepare_numbered (id : NoteId) (cue : Cue α) :
    (scheduler.numbered count).prepare id cue.pitch cue.start cue.finish cue.velocity cue.pan =
      ((scheduler.prepare id cue.pitch cue.start cue.finish cue.velocity cue.pan).1.numbered count,
        (scheduler.prepare id cue.pitch cue.start cue.finish cue.velocity cue.pan).2) := by
  cases made : ToneGenerator.create scheduler.generator (scheduler.tone cue) with
  | mk generator outcome =>
    cases outcome with
    | error cause =>
      simp only [tone] at made
      simp only [prepare, numbered, made]
    | ok voice =>
      -- The voice gets its part and its entry as it would under the old count.
      have playing : (({ scheduler.numbered count with generator }).checkCount
          cue.velocity).commands voice ((scheduler.numbered count).part cue) =
            ((({ scheduler with generator }).checkCount cue.velocity).commands voice
              (scheduler.part cue)).numbered count := by
        rw [← commands_numbered, ← checkCount_numbered]
        rfl
      rw [prepare_made scheduler id made, prepare_made (scheduler.numbered count) id made, playing]
      exact congrArg (·, _) (joined_numbered ..)

/-- Placing a note leaves the count alone, and answers as under any other. -/
theorem place_numbered (id : NoteId) (note : Note α) :
    (scheduler.numbered count).place id note =
      ((scheduler.place id note).1.numbered count, (scheduler.place id note).2) := by
  have prepared := scheduler.prepare_numbered count id note.cue
  simp only [Note.cue] at prepared
  unfold place
  -- Which of its three ways a note takes is decided by the clock and the settings.
  by_cases ended : note.finish < scheduler.now
  · simp only [numbered, ended, if_true]
  · by_cases far : scheduler.now + 2.0 * scheduler.settings.leadTime < note.start
    · simp only [numbered, ended, far, if_true, if_false]
      rfl
    · simp only [prepared]
      simp only [numbered, ended, far, if_false]

/-- Scheduling under a given number leaves the count alone, and answers as under any other. -/
theorem reschedule_numbered (id : NoteId) (note : Note α) :
    (scheduler.numbered count).schedule note (some id) =
      ((scheduler.schedule note (some id)).1.numbered count,
        (scheduler.schedule note (some id)).2) := by
  simp only [schedule, cancel_numbered, place_numbered]

omit [ToneGenerator γ α] in
/-- A sweep leaves the count alone. -/
theorem sweep_numbered : (scheduler.numbered count).sweep = scheduler.sweep.numbered count := by
  simp only [sweep_eq]
  have same : (scheduler.numbered count).swept = scheduler.swept.numbered count := rfl
  have idle : (scheduler.swept.numbered count).isIdle = scheduler.swept.isIdle := rfl
  rw [same, idle, ensureSweep_numbered]
  split <;> rfl

/-- The action of a timer leaves the count alone, and answers as under any other. -/
theorem fire_numbered (action : Action α) :
    (scheduler.numbered count).fire action =
      ((scheduler.fire action).1.numbered count, (scheduler.fire action).2) := by
  -- Even a note that is scheduled again has its number already.
  cases action with
  | reschedule id note =>
    have dropped : (scheduler.numbered count).dropTicket id =
      (scheduler.dropTicket id).numbered count := rfl
    simp only [fire, dropped, reschedule_numbered]
  | promote id pitch =>
    have dropped : (scheduler.numbered count).dropTicket id =
      (scheduler.dropTicket id).numbered count := rfl
    simp only [fire, dropped, promote_numbered]
  | sweep => simp only [fire, sweep_numbered]

/-- Firing all due timers leaves the count alone, and answers as under any other. -/
theorem fireDue_numbered (horizon rounds : Nat) :
    (scheduler.numbered count).fireDue horizon rounds =
      ((scheduler.fireDue horizon rounds).1.numbered count,
        (scheduler.fireDue horizon rounds).2) := by
  -- Each round takes the same timer under either count.
  induction rounds generalizing scheduler with
  | zero => rfl
  | succ rounds ih =>
    have timers : (scheduler.numbered count).timers = scheduler.timers := rfl
    have now : (scheduler.numbered count).now = scheduler.now := rfl
    rw [fireDue, fireDue, timers, now]
    cases scheduler.timers.popDue? scheduler.now horizon with
    | none => rfl
    | some pair =>
      have fired := fire_numbered ({ scheduler with timers := pair.2 }) count pair.1
      simp only [numbered] at fired ⊢
      rw [fired]
      cases ({ scheduler with timers := pair.2 } : Scheduler γ α).fire pair.1 with
      | mk next outcome =>
        cases outcome with
        | error cause => rfl
        | ok _ => exact ih next

/-- Releasing a lane leaves the count alone. -/
theorem releaseLane_numbered (lane : Lane α) :
    (scheduler.numbered count).releaseLane lane =
      ((scheduler.releaseLane lane).1.numbered count, (scheduler.releaseLane lane).2) := by
  unfold releaseLane
  cases lane.active with
  | none => rfl
  | some entry =>
    -- An entry that has ended is not released again.
    by_cases sounds : entry.finish.isAfter scheduler.now = true
    · simp only [numbered, sounds, if_true]
      rfl
    · simp only [numbered, sounds, if_false, Bool.false_eq_true]

/-- Releasing all lanes leaves the count alone. -/
theorem releaseAll_numbered :
    (scheduler.numbered count).releaseAll = scheduler.releaseAll.numbered count := by
  -- The lanes are read at the start, so the rest of them goes with any later state.
  suffices general : ∀ (lanes : Lanes α) (current : Scheduler γ α),
      lanes.foldl (fun scheduler lane => (scheduler.releaseLane lane).1) (current.numbered count) =
        (lanes.foldl (fun scheduler lane => (scheduler.releaseLane lane).1) current).numbered
          count from
    general scheduler.lanes scheduler
  intro lanes
  induction lanes with
  | nil => exact fun _ => rfl
  | cons lane later ih =>
    intro current
    rw [List.foldl_cons, List.foldl_cons, releaseLane_numbered]
    exact ih _

omit [Analytic α] in
/-- Cancelling all notes leaves the count alone. -/
theorem cancelAll_numbered :
    (scheduler.numbered count).cancelAll = scheduler.cancelAll.numbered count := by
  -- The entries are read before the voices are told, so they go with any later state.
  suffices general : ∀ (entries : List (Entry α)) (current : Scheduler γ α),
      entries.foldl (fun scheduler entry => scheduler.command entry.voice .destroy)
          (current.numbered count) =
        (entries.foldl (fun scheduler entry => scheduler.command entry.voice .destroy)
          current).numbered count from
    general (scheduler.lanes.flatMap Lane.entries) { scheduler with
      timers := scheduler.timers.dropNotes, tickets := [], lanes := [] }
  intro entries
  induction entries with
  | nil => exact fun _ => rfl
  | cons first later ih => exact fun current => ih (current.command first.voice .destroy)

end Counting

end Scheduler

namespace Request

variable {α : Type}

/-- A request gives out a number. -/
def gives [Scalar α] : Request α → Bool
  | .schedule _ none => true
  | .playPitch _ velocity => (Note.checkVelocity velocity).isOk
  | _ => false

/-- The numbers that have come with a request and have not been cancelled since. -/
def claims (taken : List NoteId) : Request α → List NoteId
  | .schedule _ (some id) => id :: taken
  | .cancel id => taken.filter (· != id)
  | .cancelAll => []
  | _ => taken

/-- No request gives out a number that is taken. -/
def Apart [Scalar α] (count : Nat) (taken : List NoteId) : List (Request α) → Prop
  | [] => True
  | request :: later => (request.gives = true → ⟨count⟩ ∉ taken) ∧
      Apart (count + request.gives.toNat) (request.claims taken) later

/-- Whether no number is given out that is taken can be found out from the requests alone. -/
instance Apart.decidable [Scalar α] (count : Nat) (taken : List NoteId) :
    (requests : List (Request α)) → Decidable (Apart count taken requests)
  | [] => .isTrue trivial
  | request :: later => @instDecidableAnd _ _ inferInstance
      (decidable (count + request.gives.toNat) (request.claims taken) later)

end Request

namespace Scheduler

variable {γ α : Type} [Analytic α] [ToneGenerator γ α]

/-- A request that gives out no number neither reads nor changes the count of them. -/
theorem perform_numbered (scheduler : Scheduler γ α) (count : Nat) {request : Request α}
    (silent : request.gives = false) :
    (scheduler.numbered count).perform request =
      (scheduler.perform request).numbered count := by
  cases request with
  | schedule note id? =>
    cases id? with
    | none => cases silent
    | some id => exact congrArg Prod.fst (reschedule_numbered scheduler count id note)
  | playPitch pitch velocity =>
    -- Without a number there is no voice, for the velocity was refused.
    simp only [perform, playPitch]
    cases checked : Note.checkVelocity velocity with
    | error cause => rfl
    | ok _ =>
      rw [Request.gives, checked] at silent
      cases silent
  | releasePitch pitch =>
    have lanes : (scheduler.numbered count).lanes = scheduler.lanes := rfl
    simp only [perform, releasePitch, lanes]
    cases scheduler.lanes.find? pitch with
    | none => rfl
    | some lane => exact congrArg Prod.fst (releaseLane_numbered scheduler count lane)
  | releaseAll => exact releaseAll_numbered scheduler count
  | cancel id => exact congrArg Prod.fst (cancel_numbered scheduler count id)
  | cancelAll => exact cancelAll_numbered scheduler count
  | advance =>
    exact congrArg Prod.fst (fireDue_numbered scheduler count scheduler.timers.tickets
      scheduler.timers.count)
  | setClock now => rfl

end Scheduler

namespace Scheduler

variable {γ α : Type} [Analytic α]

/-- A higher count does not put the tables out of step. -/
theorem Coherent.numbered {rules : Rules α} {scheduler : Scheduler γ α}
    (coherent : Coherent rules scheduler) {count : Nat} (higher : scheduler.nextId ≤ count) :
    Coherent rules (scheduler.numbered count) :=
  { coherent with
    issued := fun slot member => Nat.lt_of_lt_of_le (coherent.issued slot member) higher
    issuedTimers := fun timer queued id noted =>
      Nat.lt_of_lt_of_le (coherent.issuedTimers timer queued id noted) higher }

/-- The tables are in step, and only numbers that are taken may be in use before their turn. -/
structure Vacant (taken : List NoteId) (scheduler : Scheduler γ α) : Prop where
  coherent : ∃ count, scheduler.nextId ≤ count ∧ Coherent .free (scheduler.numbered count)
  free : ∀ id, scheduler.nextId ≤ id.number → id ∉ taken → scheduler.Lacks id

namespace Vacant

variable {taken : List NoteId} {scheduler next : Scheduler γ α}

/-- A new scheduler has given out nothing and holds nothing. -/
theorem initial (generator : γ) (now : α) (settings : Settings α) :
    Vacant [] (new generator now settings) where
  coherent := ⟨0, Nat.le_refl 0, .initial .free generator now settings⟩
  free _ high _ := (Coherent.initial .free generator now settings).lacks_of_le high

/-- The tables are in step under a count beyond any given number. -/
theorem above (vacant : Vacant taken scheduler) (number : Nat) :
    ∃ count, number < count ∧ Coherent .free (scheduler.numbered count) := by
  obtain ⟨count, _, coherent⟩ := vacant.coherent
  have higher : count ≤ max count (number + 1) := Nat.le_max_left ..
  exact ⟨max count (number + 1), Nat.le_max_right .., coherent.numbered higher⟩

variable [ToneGenerator γ α]

/-- A note without anything stays so when the count is high and other notes are served. -/
theorem lacks_of_moves {count : Nat} (coherent : Coherent .free (scheduler.numbered count))
    {id : NoteId} (lacks : scheduler.Lacks id)
    (served : Coherent (sparing id) (scheduler.numbered count) →
      ∃ effects, Moves (sparing id) (scheduler.numbered count) effects (next.numbered count)) :
    next.Lacks id := by
  -- What a note lacks does not depend on the count.
  have before : (scheduler.numbered count).Lacks id := { lacks with }
  obtain ⟨effects, moves⟩ := served (before.coherent coherent)
  exact { (moves.lacks before).1 with }

/-- A number that is free is given out to a note that is served under it. -/
theorem give (vacant : Vacant taken scheduler) (apart : scheduler.freshId.2 ∉ taken)
    (cue : Cue α)
    (served : ∀ {rules : Rules α} {count : Nat}, Coherent rules (scheduler.numbered count) →
      (scheduler.numbered count).Lacks scheduler.freshId.2 → scheduler.nextId < count →
      rules.fit scheduler.freshId.2 cue →
      ∃ effects, Moves rules (scheduler.numbered count) effects (next.numbered count)) :
    Vacant taken (next.numbered (scheduler.nextId + 1)) where
  coherent := by
    obtain ⟨count, high, coherent⟩ := vacant.above scheduler.nextId
    have lacks := vacant.free scheduler.freshId.2 (Nat.le_refl _) apart
    obtain ⟨effects, moves⟩ := served coherent { lacks with } high trivial
    exact ⟨count, high, moves.coherent coherent⟩
  free id high untaken := by
    obtain ⟨count, given, coherent⟩ := vacant.above scheduler.nextId
    have lacks := vacant.free scheduler.freshId.2 (Nat.le_refl _) apart
    have high : scheduler.nextId < id.number := high
    -- The number that is given out is the lowest one, so it is not this one.
    have other : scheduler.freshId.2 ≠ id := fun same =>
      absurd high (by rw [← same]; exact Nat.lt_irrefl _)
    have still : next.Lacks id := lacks_of_moves coherent
      (vacant.free id (Nat.le_of_lt high) untaken)
      fun spared => served spared { lacks with } given other
    exact { still with }

/-- A request that gives out no number leaves what is free, its own number excepted. -/
theorem quiet (vacant : Vacant taken scheduler) {request : Request α}
    (silent : request.gives = false) :
    Vacant (request.claims taken) (scheduler.perform request) := by
  have served := fun count => scheduler.perform_numbered count silent
  have counted : (scheduler.perform request).nextId = scheduler.nextId := by
    have same := congrArg nextId (served scheduler.nextId)
    exact same
  -- A number that comes with the request is below the count under which it is made.
  obtain ⟨count, high, issued, coherent⟩ : ∃ count, scheduler.nextId < count ∧
      (scheduler.numbered count).Issued request ∧ Coherent .free (scheduler.numbered count) := by
    cases request with
    | schedule note id? =>
      cases id? with
      | none => cases silent
      | some id =>
        obtain ⟨count, high, coherent⟩ := vacant.above (max scheduler.nextId id.number)
        exact ⟨count, by omega, (by omega : id.number < count), coherent⟩
    | _ =>
      obtain ⟨count, high, coherent⟩ := vacant.above scheduler.nextId
      exact ⟨count, high, trivial, coherent⟩
  -- A request that is not about a free number leaves it free.
  have still : ∀ id, scheduler.Lacks id →
      (scheduler.numbered count).Obeys (sparing id) request →
        (scheduler.perform request).Lacks id :=
    fun id lacks obeys => lacks_of_moves coherent lacks
      fun spared => ⟨_, served count ▸ spared.perform_moves obeys⟩
  constructor
  · rw [counted]
    have moves := coherent.perform_moves (obeys_free issued)
    exact ⟨count, Nat.le_of_lt high, served count ▸ moves.coherent coherent⟩
  · intro id high untaken
    rw [counted] at high
    cases request with
    | schedule note id? =>
      cases id? with
      | none => cases silent
      | some other =>
        obtain ⟨apart, untaken⟩ := not_or.mp (List.mem_cons.not.mp untaken)
        exact still id (vacant.free id high untaken) ⟨issued, Ne.symm apart⟩
    | cancel other =>
      by_cases same : id = other
      · -- The number of a note that is cancelled is free again.
        subst same
        have lacks := (coherent.cancel_move id).2
        rw [cancel_numbered] at lacks
        exact { lacks with }
      · have untaken : id ∉ taken := fun member => untaken (List.mem_filter.mpr ⟨member, by simpa⟩)
        exact still id (vacant.free id high untaken) ⟨trivial, trivial⟩
    | cancelAll =>
      obtain ⟨journal, cleared⟩ := scheduler.cancelAll_eq
      show scheduler.cancelAll.Lacks id
      rw [cleared]
      refine ⟨by simp, fun timer member => ?_, by simp [told, Lanes.slots]⟩
      -- Only sweeps are left, and those are about no note.
      have unnoted := (List.mem_filter.mp member).2
      exact fun noted => by simp [noted] at unnoted
    | playPitch pitch velocity =>
      refine still id (vacant.free id high untaken) ⟨trivial, fun checked => ?_⟩
      rw [Request.gives, checked] at silent
      cases silent
    | _ => exact still id (vacant.free id high untaken) ⟨trivial, trivial⟩

/-- A request keeps the tables in step unless it gives out a number that is taken. -/
theorem perform (vacant : Vacant taken scheduler) {request : Request α}
    (apart : request.gives = true → scheduler.freshId.2 ∉ taken) :
    Vacant (request.claims taken) (scheduler.perform request) ∧
      (scheduler.perform request).nextId = scheduler.nextId + request.gives.toNat := by
  -- A request that gives out a number places or prepares one note under the count.
  cases gives : request.gives with
  | false =>
    refine ⟨vacant.quiet gives, ?_⟩
    have same := congrArg nextId (scheduler.perform_numbered scheduler.nextId gives)
    exact same
  | true =>
    have untaken := apart gives
    cases request with
    | schedule note id? =>
      cases id? with
      | some id => cases gives
      | none =>
        -- That the count moves up comes first, but it may as well come last.
        have placed := scheduler.place_numbered (scheduler.nextId + 1) scheduler.freshId.2 note
        have performed : scheduler.perform (.schedule note none) =
            (scheduler.place scheduler.freshId.2 note).1.numbered (scheduler.nextId + 1) :=
          congrArg Prod.fst placed
        rw [performed]
        refine ⟨vacant.give untaken note.cue fun coherent lacks given fit => ?_, rfl⟩
        have moves := coherent.place_moves note lacks given fit
        rw [place_numbered] at moves
        exact ⟨_, moves⟩
    | playPitch pitch velocity =>
      cases checked : Note.checkVelocity velocity with
      | error cause =>
        rw [Request.gives, checked] at gives
        cases gives
      | ok _ =>
        have prepared := scheduler.prepare_numbered (scheduler.nextId + 1) scheduler.freshId.2
          (scheduler.heldCue pitch velocity)
        have performed : scheduler.perform (.playPitch pitch velocity) =
            (scheduler.prepare scheduler.freshId.2 pitch scheduler.now .never velocity
              0.0).1.numbered (scheduler.nextId + 1) := by
          rw [Scheduler.perform, playPitch, checked]
          exact congrArg Prod.fst prepared
        rw [performed]
        refine ⟨vacant.give untaken (scheduler.heldCue pitch velocity)
          fun coherent lacks given fit => ?_, rfl⟩
        have move := coherent.prepare_move (scheduler.heldCue pitch velocity) lacks given fit
        rw [prepare_numbered] at move
        exact ⟨_, .single move⟩
    | _ => cases gives

/-- A run keeps the tables in step unless it gives out a number that is taken. -/
theorem run (vacant : Vacant taken scheduler) {requests : List (Request α)}
    (apart : Request.Apart scheduler.nextId taken requests) :
    Vacant (requests.foldl Request.claims taken) (scheduler.run requests) := by
  induction requests generalizing taken scheduler with
  | nil => exact vacant
  | cons request later ih =>
    -- The numbers that are given out follow the count of the scheduler.
    obtain ⟨next, counted⟩ := vacant.perform apart.1
    exact ih next (counted ▸ apart.2)

omit [ToneGenerator γ α] in
/-- The tables agree with each other, for the count does not show in them. -/
theorem represented (vacant : Vacant taken scheduler) : scheduler.Represented := by
  obtain ⟨count, _, coherent⟩ := vacant.coherent
  exact { coherent.represented with }

end Vacant

variable [ToneGenerator γ α] {scheduler : Scheduler γ α}

/-- A note that is scheduled without a number gets the next one. -/
theorem schedule_fresh {note : Note α} {id : NoteId}
    (given : (scheduler.schedule note none).2 = .ok (some id)) : id = scheduler.freshId.2 := by
  simp only [schedule, place] at given
  -- A number is given out when the note waits or is prepared, and it is the fresh one.
  split at given
  · cases given
  · split at given
    · cases given
      rfl
    · obtain ⟨_, _, same⟩ := map_eq_ok.mp given
      cases same
      rfl

/-- A pitch that is sounded gets the next number. -/
theorem playPitch_fresh {pitch : Pitch} {velocity : α} {id : NoteId}
    (given : (scheduler.playPitch pitch velocity).2 = .ok id) : id = scheduler.freshId.2 := by
  rw [playPitch] at given
  split at given
  · cases given
  · obtain ⟨_, _, same⟩ := map_eq_ok.mp given
    exact same.symm

/-- Nothing is held for a number that a request gives out. -/
structure GivesFree (scheduler : Scheduler γ α) : Prop where
  scheduled : ∀ note id, (scheduler.schedule note none).2 = .ok (some id) →
    scheduler.isDeferred id = false ∧ scheduler.isFuture id = false ∧ scheduler.isActive id = false
  played : ∀ pitch velocity id, (scheduler.playPitch pitch velocity).2 = .ok id →
    scheduler.isDeferred id = false ∧ scheduler.isFuture id = false ∧ scheduler.isActive id = false

/-- The numbers that have come with some request and have not been cancelled since. -/
def claimed (requests : List (Request α)) : List NoteId :=
  requests.foldl Request.claims []

/-- Whatever numbers come with the requests of a run, as long as none of them is given out before
it is cancelled, no number has more than one note behind it and the next one has none. -/
theorem run_gives_free (generator : γ) (now : α) (settings : Settings α)
    {requests : List (Request α)} (apart : Request.Apart 0 [] requests) :
    ((new generator now settings).run requests).Represented ∧
      (((new generator now settings).run requests).freshId.2 ∉ claimed requests →
        ((new generator now settings).run requests).GivesFree) := by
  -- Nothing holds a number from the next one on, unless a request has claimed it.
  have vacant := (Vacant.initial generator now settings).run apart
  refine ⟨vacant.represented, fun untaken => ?_⟩
  have lacks := vacant.free _ (Nat.le_refl _) untaken
  have free := And.intro lacks.isDeferred (And.intro lacks.isFuture lacks.isActive)
  exact ⟨fun _ _ given => schedule_fresh given ▸ free,
    fun _ _ _ given => playPitch_fresh given ▸ free⟩

/-- A note keeps a number of another scheduler until it is cancelled just before its turn. -/
theorem run_gives_free_foreign :
    ((new ({} : Recorder Float) 0.0 .standard).run
      [.schedule ⟨⟨57⟩, 5.0, 1.0, 1.0, 0.0⟩ (some ⟨2⟩), .playPitch ⟨60⟩ 1.0,
        .schedule ⟨⟨60⟩, 6.0, 1.0, 1.0, 0.0⟩ none, .cancel ⟨2⟩]).GivesFree :=
  (run_gives_free ({} : Recorder Float) 0.0 .standard (by decide +kernel)).2 (by decide +kernel)

/-- The number of a note that waits is given out again. -/
example :
    let scheduler := (new ({} : Recorder Float) 0.0 .standard).run
      [.schedule ⟨⟨57⟩, 5.0, 1.0, 1.0, 0.0⟩ (some ⟨0⟩)]
    scheduler.isDeferred ⟨0⟩ = true ∧
      (scheduler.schedule ⟨⟨60⟩, 6.0, 1.0, 1.0, 0.0⟩ none).2.toOption = some (some ⟨0⟩) := by
  decide +kernel

end Scheduler

end Melody
