import Melody.Proofs.Scheduler.Matching

/-! How often a scheduler looks for notes that have ended cannot be heard. -/

namespace Melody

/-- The rule that the clock does not go back. -/
def Rules.timely {α : Type} [LE α] : Rules α where
  fit _ _ := True
  ticks now next := now ≤ next

/-- A request fades out what sounds. -/
def Request.releases {α : Type} : Request α → Bool
  | .releasePitch _ | .releaseAll => true
  | _ => false

/-- What a request is answered. -/
inductive Answer (α : Type) where
  | scheduled (outcome : Except (ScheduleError α) (Option NoteId))
  | played (outcome : Except (ScheduleError α) NoteId)
  | released (sounded : Bool)
  | advanced (outcome : Except (ScheduleError α) Unit)

namespace Scheduler

section Answering

variable {γ α : Type} [Analytic α] [ToneGenerator γ α]

/-- The answer to a request, but for whether there was anything to cancel. -/
def answer? (scheduler : Scheduler γ α) : Request α → Option (Answer α)
  | .schedule note id? => some (.scheduled (scheduler.schedule note id?).2)
  | .playPitch pitch velocity => some (.played (scheduler.playPitch pitch velocity).2)
  | .releasePitch pitch => some (.released (scheduler.releasePitch pitch).2)
  | .advance => some (.advanced scheduler.advance.2)
  | .releaseAll | .cancel _ | .cancelAll | .setClock _ => none

/-- The answers to requests in their order. -/
def answers (scheduler : Scheduler γ α) : List (Request α) → List (Option (Answer α))
  | [] => []
  | request :: later => scheduler.answer? request :: (scheduler.perform request).answers later

end Answering

variable {γ α : Type} [ExactScalar α] [ToneGenerator γ α] {listener : Listener α}
  {one other : Scheduler γ α}

/-- The timer of a note does the same work on both sides. -/
theorem Attuned.fire (alike : one.Attuned listener other) (steady : one.Steady)
    (firm : other.Steady)
    {timer twin : Timer α} {rest left : Timers α}
    (queued : one.timers.queue = timer :: rest.queue)
    (counted : rest.tickets = one.timers.tickets) (due : ¬ one.now < timer.due)
    (pending : other.timers.queue = twin :: left.queue)
    (numbered : left.tickets = other.timers.tickets) (ready : ¬ other.now < twin.due)
    (same : twin.action = timer.action) (noted : timer.action ≠ .sweep) :
    Matches listener (({ one with timers := rest }).fireEffects timer.action)
      (({ other with timers := left }).fireEffects twin.action)
      (({ one with timers := rest }).fire timer.action)
      (({ other with timers := left }).fire twin.action) := by
  rw [same]
  cases action : timer.action with
  | sweep => exact absurd action noted
  | reschedule id note =>
    -- The note that was put off stops waiting and is placed under its own number.
    obtain ⟨fired, effects⟩ := steady.coherent.fire_reschedule queued counted action
    obtain ⟨gone, heard⟩ := firm.coherent.fire_reschedule pending numbered (same.trans action)
    rw [fired, gone, effects, heard]
    refine ((alike.unset id).place ?_ ?_ id note).map (Except.map fun _ => ())
    · exact steady.moves (.single (.wake queued due action))
    · exact firm.moves (.single (.wake pending ready (same.trans action)))
  | promote id pitch =>
    -- The prepared note stops waiting and takes the seat.
    have promoted := (alike.unset id).promote steady.coherent.regular.ordered
      firm.coherent.regular.ordered pitch id
    have first := steady.coherent.popped_eq queued counted (by rw [action]; rfl)
    have second := firm.coherent.popped_eq pending numbered
      (by rw [same, action]; rfl : twin.action.note? = some id)
    rw [Scheduler.fire, Scheduler.fire, first, second]
    exact ⟨promoted.heard, promoted.alike, rfl⟩

section Rounds

variable {scheduler next : Scheduler γ α} {horizon : Nat} {timer : Timer α} {rest : Timers α}

/-- A timer whose work succeeds is followed by those behind it. -/
theorem fireDue_ok (listener : Listener α) (rounds : Nat)
    (queued : scheduler.timers.queue = timer :: rest.queue)
    (popped : scheduler.timers.popDue? scheduler.now horizon = some (timer.action, rest))
    (fired : ({ scheduler with timers := rest }).fire timer.action = (next, .ok ())) :
    listener.heard (scheduler.fireDueEffects horizon (rounds + 1)) =
        listener.heard (({ scheduler with timers := rest }).fireEffects timer.action) ++
          listener.heard (next.fireDueEffects horizon rounds) ∧
      scheduler.fireDue horizon (rounds + 1) = next.fireDue horizon rounds := by
  simp only [fireDueEffects, fireDue, popped, fired, queued]
  simp [Listener.heard, listener.fired]

/-- A timer whose work fails is the last one that is fired. -/
theorem fireDue_error (listener : Listener α) {error : ScheduleError α} (rounds : Nat)
    (queued : scheduler.timers.queue = timer :: rest.queue)
    (popped : scheduler.timers.popDue? scheduler.now horizon = some (timer.action, rest))
    (fired : ({ scheduler with timers := rest }).fire timer.action = (next, .error error)) :
    listener.heard (scheduler.fireDueEffects horizon (rounds + 1)) =
        listener.heard (({ scheduler with timers := rest }).fireEffects timer.action) ∧
      scheduler.fireDue horizon (rounds + 1) = (next, .error error) := by
  simp only [fireDueEffects, fireDue, popped, fired, queued]
  simp [Listener.heard, listener.fired]

end Rounds

/-- A scheduler in the middle of an advance that has the timers of certain notes still to fire. -/
structure Firing (horizon rounds : Nat) (scheduler : Scheduler γ α) (work : List (Timer α)) :
    Prop where
  steady : scheduler.Steady
  known : horizon ≤ scheduler.timers.tickets
  late : ∀ timer ∈ scheduler.timers.queue, horizon ≤ timer.ticket → scheduler.now ≤ timer.due
  enough : (Timers.dueBy scheduler.now horizon scheduler.timers.queue).length ≤ rounds
  ahead : Timers.plans (Timers.dueBy scheduler.now horizon scheduler.timers.queue) = work

namespace Firing

variable {horizon rounds : Nat} {scheduler : Scheduler γ α} {work : List (Timer α)}

/-- An advance is over when no timer is left that it fires. -/
theorem idle (firing : Firing horizon rounds scheduler work)
    (none : Timers.dueBy scheduler.now horizon scheduler.timers.queue = []) :
    scheduler.fireDueEffects horizon rounds = [] ∧
      scheduler.fireDue horizon rounds = (scheduler, .ok ()) := by
  cases rounds with
  | zero => exact ⟨rfl, rfl⟩
  | succ rounds =>
    rw [fireDueEffects, fireDue, Timers.popDue?_eq_none none]
    exact ⟨rfl, rfl⟩

/-- The first timer that is due is taken out and fired, and the others are still to be. -/
theorem pop (firing : Firing horizon rounds scheduler work) {timer : Timer α}
    {later : List (Timer α)}
    (due : Timers.dueBy scheduler.now horizon scheduler.timers.queue = timer :: later) :
    ∃ (rest : Timers α) (left : Nat), scheduler.timers.queue = timer :: rest.queue ∧
      rest.tickets = scheduler.timers.tickets ∧ ¬ scheduler.now < timer.due ∧
      rounds = left + 1 ∧
      scheduler.timers.popDue? scheduler.now horizon = some (timer.action, rest) ∧
      ∀ next outcome, ({ scheduler with timers := rest }).fire timer.action = (next, outcome) →
        Firing horizon left next (Timers.plans later) := by
  obtain ⟨steady, known, late, enough, _⟩ := firing
  obtain ⟨rest, popped, queued, counted, behind⟩ :=
    Timers.popDue?_eq_some steady.ranked.sorted late due
  have reached : ¬ scheduler.now < timer.due :=
    not_lt.mpr (Timers.mem_dueBy.mp (due ▸ List.mem_cons_self ..)).2.1
  rw [due, List.length_cons] at enough
  obtain ⟨left, rfl⟩ : ∃ left, rounds = left + 1 := ⟨rounds - 1, by omega⟩
  refine ⟨rest, left, queued, counted, reached, rfl, popped, fun next outcome fired => ?_⟩
  have onward := steady.coherent.fire_onward steady.forward queued counted
  have moves := steady.coherent.fire_moves queued counted reached
  rw [fired] at onward moves
  have now : next.now = scheduler.now := onward.now
  -- What the work of the timer adds is not among the timers that are due.
  have stays : Timers.dueBy next.now horizon next.timers.queue = later := by
    rw [now, onward.timers.dueBy_eq (counted ▸ known)]
    exact behind
  refine ⟨steady.moves moves, (counted ▸ known).trans onward.timers.tickets_le, ?_, ?_, ?_⟩
  · intro other member newer
    rw [now]
    rcases onward.timers.mem_cases member with inside | ⟨added, _⟩
    · exact late other (queued ▸ List.mem_cons_of_mem _ inside) newer
    · exact added
  · rw [stays]
    omega
  · rw [stays]

/-- The sweeps before the first timer of a note fire unheard. -/
theorem skip (firing : Firing horizon rounds scheduler work)
    (alike : scheduler.Attuned listener other) :
    ∃ next left, Firing horizon left next work ∧ next.Attuned listener other ∧
      scheduler.fireDue horizon rounds = next.fireDue horizon left ∧
      listener.heard (scheduler.fireDueEffects horizon rounds) =
        listener.heard (next.fireDueEffects horizon left) ∧
      ∀ timer ∈ (Timers.dueBy next.now horizon next.timers.queue).head?,
        timer.action ≠ .sweep := by
  -- Each round takes out the first timer, until that is one of a note.
  induction rounds generalizing scheduler with
  | zero =>
    have none := List.length_eq_zero_iff.mp (Nat.le_zero.mp firing.enough)
    exact ⟨scheduler, 0, firing, alike, rfl, rfl, by simp [none]⟩
  | succ rounds ih =>
    cases due : Timers.dueBy scheduler.now horizon scheduler.timers.queue with
    | nil => exact ⟨scheduler, rounds + 1, firing, alike, rfl, rfl, by simp [due]⟩
    | cons timer later =>
      by_cases sweeps : timer.action = .sweep
      · obtain ⟨rest, left, queued, counted, _, same, popped, after⟩ := firing.pop due
        obtain rfl : rounds = left := by omega
        have ahead : Timers.plans later = work := by
          have ahead := firing.ahead
          rw [due, Timers.plans_cons, sweeps] at ahead
          exact ahead
        have swept := alike.sweep_left firing.steady.coherent.regular.ordered queued sweeps
        obtain ⟨next, left, following, close, reached, heard, head⟩ :=
          ih (ahead ▸ after _ _ (by rw [sweeps]; rfl)) swept
        have fired : ({ scheduler with timers := rest }).fire timer.action =
            (({ scheduler with timers := rest }).sweep, .ok ()) := by
          rw [sweeps]
          rfl
        have silent : ({ scheduler with timers := rest }).fireEffects timer.action = [] := by
          rw [sweeps]
          rfl
        obtain ⟨effects, onward⟩ := fireDue_ok listener rounds queued popped fired
        rw [effects, onward, silent]
        exact ⟨next, left, following, close, reached, heard, head⟩
      · exact ⟨scheduler, rounds + 1, firing, alike, rfl, rfl, by simpa [due] using sweeps⟩

end Firing

/-- Schedulers that are attuned fire the timers of the same notes, with the same success. -/
theorem Attuned.fireDue (alike : one.Attuned listener other) {horizon limit rounds trials : Nat}
    {work : List (Timer α)} (firing : Firing horizon rounds one work)
    (burning : Firing limit trials other work) :
    Matches listener (one.fireDueEffects horizon rounds) (other.fireDueEffects limit trials)
      (one.fireDue horizon rounds) (other.fireDue limit trials) := by
  induction work generalizing one other rounds trials with
  | nil =>
    -- When sweeps are passed over nothing is left to be fired.
    obtain ⟨next, left, first, close, reached, heard, noted⟩ := firing.skip alike
    obtain ⟨last, spare, second, level, arrived, told, about⟩ := burning.skip close.symm
    obtain ⟨silent, spent⟩ := first.idle (Timers.eq_nil_of_plans noted first.ahead)
    obtain ⟨quiet, done⟩ := second.idle (Timers.eq_nil_of_plans about second.ahead)
    rw [reached, arrived, spent, done]
    exact ⟨by rw [heard, told, silent, quiet], level.symm, rfl⟩
  | cons plan work ih =>
    -- What comes first on either side, when sweeps are passed over, is the timer of a note.
    obtain ⟨next, left, first, close, reached, heard, noted⟩ := firing.skip alike
    obtain ⟨last, spare, second, level, arrived, told, about⟩ := burning.skip close.symm
    obtain ⟨timer, later, due, alone, rfl, rest⟩ := Timers.eq_cons_of_plans noted first.ahead
    obtain ⟨twin, behind, ready, _, same, others⟩ := Timers.eq_cons_of_plans about second.ahead
    have same : twin.action = timer.action := (Timer.mk.inj same).2.2
    rw [reached, arrived]
    refine Matches.of_heard ?_ heard told
    obtain ⟨stays, few, queued, counted, elapsed, rfl, popped, after⟩ := first.pop due
    obtain ⟨keeps, many, pending, numbered, passed, rfl, taken, since⟩ := second.pop ready
    -- Both timers are taken out and fired, and what is behind them is work for the induction.
    have work := level.symm.fire first.steady second.steady queued counted elapsed pending numbered
      passed same alone
    cases fired : ({ next with timers := stays }).fire timer.action with
    | mk state outcome =>
      cases burnt : ({ last with timers := keeps }).fire twin.action with
      | mk counterpart result =>
        rw [fired, burnt] at work
        obtain ⟨sounds, even, success⟩ := work
        obtain rfl : outcome = result := success
        cases outcome with
        | error error =>
          obtain ⟨effects, ends⟩ := fireDue_error listener few queued popped fired
          obtain ⟨echoes, stops⟩ := fireDue_error listener many pending taken burnt
          rw [ends, stops]
          exact ⟨by rw [effects, echoes, sounds], even, rfl⟩
        | ok _ =>
          obtain ⟨effects, goes⟩ := fireDue_ok listener few queued popped fired
          obtain ⟨echoes, runs⟩ := fireDue_ok listener many pending taken burnt
          have rest := ih even (rest ▸ after _ _ fired) (others ▸ since _ _ burnt)
          rw [goes, runs]
          exact ⟨by rw [effects, echoes, sounds, rest.heard], rest.alike, rest.answer⟩

omit [ToneGenerator γ α] in
/-- A steady scheduler has all the timers still to fire that are due. -/
theorem Steady.firing {scheduler : Scheduler γ α} (steady : scheduler.Steady) :
    Firing scheduler.timers.tickets scheduler.timers.count scheduler
      ((Timers.plans scheduler.timers.queue).filter fun timer =>
        decide (timer.due ≤ scheduler.now)) where
  steady := steady
  known := Nat.le_refl _
  -- Tickets are given out in order, and all timers were there when the firing began.
  late timer member newer :=
    absurd (steady.ranked.bounded timer member) (Nat.not_lt.mpr newer)
  enough := List.length_filter_le ..
  ahead := Timers.plans_dueBy steady.ranked _

/-- An advance fires the timers of the same notes, with the same success. -/
theorem Attuned.advance (alike : one.Attuned listener other) (steady : one.Steady)
    (firm : other.Steady) :
    Matches listener (one.effects .advance) (other.effects .advance) one.advance other.advance := by
  have burning := firm.firing
  rw [← alike.now, ← alike.timers] at burning
  exact alike.fireDue steady.firing burning

/-- A request has been issued on both sides or on neither. -/
theorem Attuned.issued (alike : one.Attuned listener other) {request : Request α}
    (issued : one.Issued request) : other.Issued request := by
  unfold Issued at issued ⊢
  rw [← alike.nextId]
  exact issued

/-- Schedulers that are attuned are heard and answer alike whatever they are asked but releases. -/
theorem Attuned.perform (alike : one.Attuned listener other) (steady : one.Steady)
    (firm : other.Steady) {request : Request α} (obeys : one.Obeys .timely request)
    (holds : request.releases = false) :
    Matches listener (one.effects request) (other.effects request)
      (one.perform request, one.answer? request)
      (other.perform request, other.answer? request) := by
  obtain ⟨issued, passes⟩ := obeys
  -- All requests but the two that release act on what both hold alike.
  cases request with
  | schedule note id? =>
    exact (alike.schedule steady firm note id?).map fun outcome =>
      some (Answer.scheduled outcome)
  | playPitch pitch velocity =>
    exact (alike.playPitch steady firm pitch velocity).map fun outcome =>
      some (Answer.played outcome)
  | releasePitch pitch => cases holds
  | releaseAll => cases holds
  | cancel id =>
    obtain ⟨silent, quiet, cancelled⟩ := alike.cancel steady firm id
    exact ⟨silent.trans quiet.symm, cancelled, rfl⟩
  | cancelAll => exact alike.cancelAll.map fun _ => none
  | advance => exact (alike.advance steady firm).map fun outcome => some (Answer.advanced outcome)
  | setClock now => exact ⟨rfl, alike.setClock passes, rfl⟩

/-- A request leaves a scheduler steady. -/
theorem Steady.perform {scheduler : Scheduler γ α} (steady : scheduler.Steady)
    {request : Request α} (issued : scheduler.Issued request) :
    (scheduler.perform request).Steady :=
  steady.moves (steady.coherent.perform_moves (obeys_free issued))

/-- Schedulers that differ in their sweeps and in what they hold of notes that have ended. -/
abbrev Alike (one other : Scheduler γ α) : Prop :=
  one.Attuned .full other

/-- Schedulers that are alike are heard and answer alike whatever they are asked. -/
theorem Alike.perform (alike : one.Alike other) (steady : one.Steady) (firm : other.Steady)
    {request : Request α} (obeys : one.Obeys .timely request) :
    Matches .full (one.effects request) (other.effects request)
      (one.perform request, one.answer? request)
      (other.perform request, other.answer? request) := by
  -- What is fully alike is released alike, too.
  cases request with
  | releasePitch pitch =>
    obtain ⟨heard, faded⟩ := Attuned.releasePitch alike steady firm pitch
    exact ⟨heard, faded, congrArg (some ∘ Answer.released) (alike.released steady firm pitch)⟩
  | releaseAll =>
    obtain ⟨heard, faded⟩ := Attuned.releaseAll alike steady firm
    exact ⟨heard, faded, rfl⟩
  | _ => exact Attuned.perform alike steady firm obeys rfl

/-- Two schedulers that the same requests tell apart neither by ear nor by their answers. -/
structure SoundsLike (one other : Scheduler γ α) (requests : List (Request α)) : Prop where
  /-- The one generator is told the effects of the one run and nothing else. -/
  told : (one.run requests).generator = hear one.generator (one.history requests)
  /-- The other generator is told the effects of the other run and nothing else. -/
  retold : (other.run requests).generator = hear other.generator (other.history requests)
  /-- Voices are asked for, change in loudness and fade out in the same order and manner. -/
  heard : audible (one.history requests) = audible (other.history requests)
  /-- Notes are scheduled, pitches played and released, and timers fired with the same outcome. -/
  answered : one.answers requests = other.answers requests

/-- Schedulers that are alike sound alike in every run. -/
theorem Alike.run (alike : one.Alike other) (steady : one.Steady) (firm : other.Steady)
    {requests : List (Request α)} (along : one.Along (Obeys .timely) requests) :
    one.SoundsLike other requests := by
  induction requests generalizing one other with
  | nil => exact ⟨rfl, rfl, rfl, rfl⟩
  | cons request later ih =>
    obtain ⟨obeys, along⟩ := along
    have issued := alike.issued obeys.1
    obtain ⟨heard, after, answer⟩ := alike.perform steady firm obeys
    have rest := ih after (steady.perform obeys.1) (firm.perform issued) along
    -- What each generator has heard is what its requests had to say.
    have first := (steady.coherent.perform_moves (obeys_free obeys.1)).generator_eq
    have second := (firm.coherent.perform_moves (obeys_free issued)).generator_eq
    refine ⟨?_, ?_, ?_, ?_⟩
    · rw [run_cons, rest.told, history, hear_append, first]
    · rw [run_cons, rest.retold, history, hear_append, second]
    · rw [history, history, audible, audible, List.filter_append, List.filter_append]
      exact congrArg₂ (· ++ ·) heard rest.heard
    · rw [answers, answers, rest.answered]
      exact congrArg (· :: (other.perform request).answers later) answer

/-- How long a scheduler waits between sweeps makes no difference to what is heard and answered. -/
theorem run_sweeps_unheard {generator : γ} (counting : Counting generator) (now : α)
    {settings : Settings α} (forward : settings.Forward) {interval : α} (length : 0 ≤ interval)
    {requests : List (Request α)}
    (along : (new generator now settings).Along (Obeys .timely) requests) :
    (new generator now settings).SoundsLike
      (new generator now { settings with sweepInterval := interval }) requests := by
  -- At first there is nothing but the time between sweeps to tell them apart.
  have alike : (new generator now settings).Alike
      (new generator now { settings with sweepInterval := interval }) :=
    ⟨rfl, rfl, rfl, counting, fun _ => rfl, rfl⟩
  exact alike.run (.initial generator now forward)
    (.initial generator now ⟨forward.lead, length⟩) along

/-- A note that has ended is forgotten after one second or not, before another one of its pitch. -/
theorem run_sweeps_unheard_pair :
    let recorder : Recorder ℝ := { admits := fun attempt => attempt != 2 }
    let requests : List (Request ℝ) := [.schedule ⟨⟨60⟩, 0, 1, 1, 0⟩ none, .setClock 2, .advance,
      .schedule ⟨⟨60⟩, 2, 3, 1, 0⟩ none, .playPitch ⟨62⟩ 1, .releasePitch ⟨60⟩, .releaseAll]
    let frequent : Scheduler (Recorder ℝ) ℝ := new recorder 0 .standard
    let rare : Scheduler (Recorder ℝ) ℝ :=
      new recorder 0 { Settings.standard with sweepInterval := 60 }
    frequent.SoundsLike rare requests := by
  intro recorder requests frequent rare
  have onward := Onward.place frequent.freshId.1 Settings.forward_standard frequent.freshId.2
    ⟨⟨60⟩, 0, 1, 1, 0⟩
  have passes : (frequent.perform (.schedule ⟨⟨60⟩, 0, 1, 1, 0⟩ none)).now ≤ 2 := by
    have stands : (frequent.perform (.schedule ⟨⟨60⟩, 0, 1, 1, 0⟩ none)).now = 0 := onward.now
    rw [stands]
    norm_num
  -- The clock goes forward, and no request is out of place.
  have along : frequent.Along (Obeys .timely) requests :=
    ⟨⟨trivial, trivial⟩, ⟨trivial, passes⟩, ⟨trivial, trivial⟩, ⟨trivial, trivial⟩,
      ⟨trivial, fun _ => trivial⟩, ⟨trivial, trivial⟩, ⟨trivial, trivial⟩, trivial⟩
  exact run_sweeps_unheard (Recorder.counting _) 0 Settings.forward_standard (by norm_num) along

end Scheduler

end Melody
