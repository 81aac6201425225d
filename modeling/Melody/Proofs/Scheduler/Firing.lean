import Melody.Proofs.Scalar.Real
import Melody.Proofs.Scheduler.Due
import Melody.Proofs.Scheduler.Reading

/-! An advance fires the timers that are due, all of them and no others, in their order. -/

namespace Melody

/-- The timer that an effect takes out. -/
def Effect.fired? {α : Type} : Effect α → Option (Timer α)
  | fired timer => some timer
  | created .. => none
  | commanded .. => none

/-- No timer is taken out by a command. -/
theorem deaf_fired? {α : Type} : Effect.Deaf (Effect.fired? : Effect α → Option (Timer α)) :=
  fun _ _ _ _ => rfl

namespace Scheduler

variable {γ α : Type}

section Tracing

variable [Analytic α] [ToneGenerator γ α] (scheduler : Scheduler γ α)

/-- No timer is taken out by creating a voice. -/
theorem fired?_prepareEffects (id : NoteId) (cue : Cue α) :
    (scheduler.prepareEffects id cue).filterMap Effect.fired? = [] := by
  -- Making a voice tells its generator about it and fires nothing.
  cases outcome : (ToneGenerator.create scheduler.generator (scheduler.tone cue)).2 with
  | error cause =>
    rw [prepareEffects_refused id outcome]
    rfl
  | ok voice =>
    rw [prepareEffects_created id outcome, scheduler.filterMap_voiceEffects deaf_fired?]
    rfl

/-- No timer is taken out by scheduling a note. -/
theorem fired?_placeEffects (id : NoteId) (note : Note α) :
    (scheduler.placeEffects id note).filterMap Effect.fired? = [] := by
  -- A note that is placed waits or is prepared at once.
  unfold placeEffects
  split
  · rfl
  · split
    · rfl
    · exact scheduler.fired?_prepareEffects id note.cue

/-- The work of a timer takes out no further timer. -/
theorem fired?_fireEffects (action : Action α) :
    (scheduler.fireEffects action).filterMap Effect.fired? = [] := by
  cases action with
  | reschedule id note =>
    -- The note is cancelled under its number before it is placed again.
    show (_ ++ _ : List (Effect α)).filterMap _ = []
    rw [List.filterMap_append, filterMap_cancelEffects deaf_fired?, fired?_placeEffects,
      List.append_nil]
  | promote id pitch =>
    refine List.filterMap_eq_nil_iff.mpr fun effect member => ?_
    obtain ⟨pair, _, faded⟩ := List.mem_flatMap.mp member
    have silent := scheduler.filterMap_fadeEffects deaf_fired? (fun _ => id) pair.2.active
    exact List.filterMap_eq_nil_iff.mp silent effect faded
  | sweep => rfl

end Tracing

variable [ExactScalar α] [ToneGenerator γ α] {rules : Rules α} {scheduler next : Scheduler γ α}

/-- Every move leaves the timers in order. -/
theorem Move.ranked {effects : List (Effect α)} (ranked : scheduler.timers.Ranked)
    (move : Move rules scheduler effects next) : next.timers.Ranked := by
  -- Moves drop timers from the queue or push others, and sweeps are pushed as notes are.
  have swept : ∀ {state : Scheduler γ α},
      state.timers.Ranked → state.ensureSweep.timers.Ranked := by
    intro state ordered
    unfold ensureSweep
    split
    · exact ordered
    · exact ordered.push _ _
  have unset : ∀ id, (scheduler.unset id).timers.Ranked := fun id =>
    ranked.sublist List.filter_sublist rfl
  cases move with
  | clock _ => exact ranked
  | issue => exact ranked
  | forget _ => exact unset _
  | withdraw _ _ _ => exact unset _
  | clear => exact ranked.sublist List.filter_sublist rfl
  | fade _ _ _ _ => exact ranked
  | defer _ _ _ _ => exact ranked.push _ _
  | refuse _ _ _ _ => exact ranked
  | start _ _ _ _ _ _ _ _ => exact swept ranked
  | book _ _ _ _ _ _ _ => exact swept (ranked.push _ _)
  | wake _ _ _ => exact unset _
  | promote _ _ _ _ _ _ _ => exact unset _
  | @sweep timer rest queued counted due action =>
    have popped : rest.Ranked := by
      refine ranked.sublist ?_ counted
      rw [queued]
      exact List.sublist_cons_self ..
    rcases sweep_cases ({ scheduler with timers := rest }) with same | same
    · rw [same]
      exact popped
    · rw [same]
      exact swept popped

namespace Coherent

/-- A note that was put off is scheduled under its own number when its timer fires. -/
theorem fire_reschedule (coherent : Coherent rules scheduler) {timer : Timer α} {rest : Timers α}
    {id : NoteId} {note : Note α} (queued : scheduler.timers.queue = timer :: rest.queue)
    (counted : rest.tickets = scheduler.timers.tickets)
    (action : timer.action = .reschedule id note) :
    ({ scheduler with timers := rest }).fire (.reschedule id note) =
        (((scheduler.unset id).place id note).1,
          ((scheduler.unset id).place id note).2.map fun _ => ()) ∧
      ({ scheduler with timers := rest }).fireEffects (.reschedule id note) =
        (scheduler.unset id).placeEffects id note := by
  have noted : timer.action.note? = some id := by rw [action]; rfl
  have present : timer ∈ scheduler.timers.queue := queued ▸ List.mem_cons_self ..
  -- With its timer gone the note has nothing left that would have to be dropped.
  have lacks : (scheduler.unset id).Lacks id :=
    .of_unset scheduler rfl rfl (coherent.apart timer present id note action)
  have silent : (scheduler.unset id).cancelEffects id = [] := by
    rw [cancelEffects, Lanes.take?_eq_none.mpr lacks.unvoiced]
    rfl
  simp only [fire, fireEffects, schedule, scheduleEffects, lacks.cancel_eq, silent,
    coherent.popped_eq queued counted noted, List.nil_append, and_self]

/-- The work of a due timer adds timers for later times only. -/
theorem fire_onward (coherent : Coherent rules scheduler) (forward : scheduler.settings.Forward)
    {timer : Timer α} {rest : Timers α} (queued : scheduler.timers.queue = timer :: rest.queue)
    (counted : rest.tickets = scheduler.timers.tickets) :
    ({ scheduler with timers := rest }).Onward
      (({ scheduler with timers := rest }).fire timer.action).1 := by
  -- Each action sets timers for later times only, or none.
  cases action : timer.action with
  | reschedule id note =>
    rw [(coherent.fire_reschedule queued counted action).1]
    have noted : timer.action.note? = some id := by rw [action]; rfl
    have popped : ({ scheduler with timers := rest }).Onward (scheduler.unset id) := by
      refine ⟨rfl, rfl, ?_⟩
      rw [coherent.linked.pop_eq queued counted noted]
      exact .refl
    exact popped.trans (.place (scheduler.unset id) forward id note)
  | promote id pitch =>
    have dropped : ({ scheduler with timers := rest }).Onward
        (({ scheduler with timers := rest }).dropTicket id) := ⟨rfl, rfl, .refl⟩
    exact dropped.trans (.promote _ pitch id)
  | sweep =>
    have swept : ({ scheduler with timers := rest }).Onward
        ({ scheduler with timers := rest }).swept := ⟨rfl, rfl, .refl⟩
    show Onward _ ({ scheduler with timers := rest }).sweep
    rcases sweep_cases ({ scheduler with timers := rest }) with same | same
    · rw [same]
      exact swept
    · rw [same]
      exact swept.trans (.ensureSweep _ forward)

end Coherent

/-- How far firing gets with the timers that are due, given those that are fired and the outcome. -/
inductive Fires (now : α) (horizon : Nat) : List (Timer α) → List (Timer α) →
    Scheduler γ α × Except (ScheduleError α) Unit → Prop where
  /-- Every timer is fired, and none is left. -/
  | all {due : List (Timer α)} {last : Scheduler γ α}
      (none : Timers.dueBy now horizon last.timers.queue = []) :
      Fires now horizon due due (last, .ok ())
  /-- The work of one timer fails, and the timers behind it are left. -/
  | upTo (before : List (Timer α)) {later : List (Timer α)} {failing : Timer α}
      {state last : Scheduler γ α} {error : ScheduleError α}
      (failed : state.fire failing.action = (last, .error error))
      (left : Timers.dueBy now horizon last.timers.queue = later) :
      Fires now horizon (before ++ failing :: later) (before ++ [failing]) (last, .error error)

namespace Fires

variable {now : α} {horizon : Nat} {due fired : List (Timer α)}
  {result : Scheduler γ α × Except (ScheduleError α) Unit}

/-- A timer is fired before all that is fired after it. -/
theorem cons (fires : Fires now horizon due fired result) (timer : Timer α) :
    Fires now horizon (timer :: due) (timer :: fired) result := by
  cases fires with
  | all none => exact .all none
  | upTo before failed left => exact .upTo (timer :: before) failed left

/-- Firing that succeeds leaves nothing out. -/
theorem of_ok (fires : Fires now horizon due fired result) (ok : result.2 = .ok ()) :
    fired = due ∧ Timers.dueBy now horizon result.1.timers.queue = [] := by
  cases fires with
  | all none => exact ⟨rfl, none⟩
  | upTo => cases ok

/-- Firing that fails ends with the timer whose work has failed. -/
theorem of_error (fires : Fires now horizon due fired result) {error : ScheduleError α}
    (failed : result.2 = .error error) :
    ∃ (before later : List (Timer α)) (failing : Timer α) (state : Scheduler γ α),
      due = before ++ failing :: later ∧ fired = before ++ [failing] ∧
      state.fire failing.action = (result.1, .error error) ∧
      Timers.dueBy now horizon result.1.timers.queue = later := by
  cases fires with
  | all => cases failed
  | upTo before broke left =>
    cases failed
    exact ⟨before, _, _, _, rfl, rfl, broke, left⟩

end Fires

namespace Coherent

/-- The first timer is fired if it is due, and the others after it. -/
theorem fireDue_fires (coherent : Coherent rules scheduler) (ranked : scheduler.timers.Ranked)
    (forward : scheduler.settings.Forward) {horizon rounds : Nat}
    (known : horizon ≤ scheduler.timers.tickets)
    (late : ∀ timer ∈ scheduler.timers.queue, horizon ≤ timer.ticket → scheduler.now ≤ timer.due)
    (enough : (Timers.dueBy scheduler.now horizon scheduler.timers.queue).length ≤ rounds) :
    Fires scheduler.now horizon (Timers.dueBy scheduler.now horizon scheduler.timers.queue)
      ((scheduler.fireDueEffects horizon rounds).filterMap Effect.fired?)
      (scheduler.fireDue horizon rounds) := by
  induction rounds generalizing scheduler with
  | zero =>
    have none := List.length_eq_zero_iff.mp (Nat.le_zero.mp enough)
    rw [none]
    exact .all none
  | succ rounds ih =>
    rw [fireDue, fireDueEffects]
    cases due : Timers.dueBy scheduler.now horizon scheduler.timers.queue with
    | nil =>
      rw [Timers.popDue?_eq_none due]
      exact .all due
    | cons timer later =>
      have first : timer ∈ Timers.dueBy scheduler.now horizon scheduler.timers.queue :=
        due ▸ List.mem_cons_self ..
      have reached := (Timers.mem_dueBy.mp first).2.1
      obtain ⟨rest, popped, queued, counted, behind⟩ :=
        Timers.popDue?_eq_some ranked.sorted late due
      have onward := coherent.fire_onward forward queued counted
      have after := (coherent.fire_moves queued counted (not_lt.mpr reached)).coherent coherent
      have ordered : rest.Ranked := ranked.sublist (queued ▸ List.sublist_cons_self ..) counted
      rw [popped]
      simp only [queued, List.head?_cons, Option.toList_some, List.map_cons, List.map_nil]
      cases fired : ({ scheduler with timers := rest }).fire timer.action with
      | mk next outcome =>
        rw [fired] at onward after
        -- What the work of the timer adds is not among the timers that are due.
        have left : Timers.dueBy scheduler.now horizon next.timers.queue = later := by
          rw [onward.timers.dueBy_eq (counted ▸ known)]
          exact behind
        rw [List.filterMap_append, List.filterMap_append, fired?_fireEffects]
        cases outcome with
        | error error => exact .upTo [] fired left
        | ok _ =>
          -- What has been added is late enough, and what was there before was so already.
          have later : ∀ other ∈ next.timers.queue, horizon ≤ other.ticket →
              scheduler.now ≤ other.due := by
            intro other member newer
            rcases onward.timers.mem_cases member with stays | ⟨added, _⟩
            · exact late other (queued ▸ List.mem_cons_of_mem _ stays) newer
            · exact added
          have fewer : (Timers.dueBy scheduler.now horizon next.timers.queue).length ≤ rounds := by
            rw [due] at enough
            rw [left]
            exact Nat.le_of_succ_le_succ enough
          rw [← onward.now] at later fewer left
          have fires := ih after (onward.timers.ranked ordered) (onward.settings ▸ forward)
            (Nat.le_trans (counted ▸ known) onward.timers.tickets_le) later fewer
          rw [left, onward.now] at fires
          exact fires.cons timer

/-- A timer that is not due stays. -/
theorem mem_fireDue (coherent : Coherent rules scheduler) (forward : scheduler.settings.Forward)
    (horizon rounds : Nat) {timer : Timer α} (member : timer ∈ scheduler.timers.queue)
    (ahead : scheduler.now < timer.due) :
    timer ∈ (scheduler.fireDue horizon rounds).1.timers.queue := by
  induction rounds generalizing scheduler with
  | zero => exact member
  | succ rounds ih =>
    rw [fireDue]
    cases popped : scheduler.timers.popDue? scheduler.now horizon with
    | none => exact member
    | some pair =>
      obtain ⟨action, rest⟩ := pair
      obtain ⟨first, queued, rfl, counted, due, _⟩ := Timers.popDue?_spec popped
      have onward := coherent.fire_onward forward queued counted
      have after := (coherent.fire_moves queued counted due).coherent coherent
      -- The timer that is taken out is due, so it is another one, and its work keeps the rest.
      have behind : timer ∈ rest.queue := by
        rw [queued] at member
        rcases List.mem_cons.mp member with rfl | behind
        · exact absurd ahead due
        · exact behind
      dsimp only
      cases fired : ({ scheduler with timers := rest }).fire first.action with
      | mk next outcome =>
        rw [fired] at onward after
        have stays := onward.timers.subset timer behind
        cases outcome with
        | error error => exact stays
        | ok _ => exact ih after (onward.settings ▸ forward) stays (onward.now ▸ ahead)

end Coherent

/-- The timers that are due, in the order in which they stand. -/
def dueTimers (scheduler : Scheduler γ α) : List (Timer α) :=
  scheduler.timers.queue.filter fun timer => decide (timer.due ≤ scheduler.now)

/-- The timers that an advance fires, in their order. -/
def firedTimers (scheduler : Scheduler γ α) : List (Timer α) :=
  (scheduler.effects .advance).filterMap Effect.fired?

/-- What an advance does with the timers of a scheduler. -/
structure FiresDue (scheduler : Scheduler γ α) : Prop where
  /-- The generator hears of what the timers cause and of nothing else. -/
  heard : scheduler.advance.1.generator = hear scheduler.generator (scheduler.effects .advance)
  /-- Timers that are due stand in the order of their times, and of their setting at a tie. -/
  ordered : scheduler.dueTimers.Pairwise Timer.Before
  /-- An advance that succeeds fires them all, and only new timers may be due after it. -/
  every : scheduler.advance.2 = .ok () → scheduler.firedTimers = scheduler.dueTimers ∧
    ∀ timer ∈ scheduler.advance.1.timers.queue, timer.due ≤ scheduler.now →
      timer ∉ scheduler.timers.queue ∧ scheduler.timers.tickets ≤ timer.ticket
  /-- An advance that fails fires them up to the one whose work fails, and all later ones stay. -/
  first : ∀ error, scheduler.advance.2 = .error error →
    ∃ (before later : List (Timer α)) (failing : Timer α) (state : Scheduler γ α),
      scheduler.dueTimers = before ++ failing :: later ∧
      scheduler.firedTimers = before ++ [failing] ∧
      state.fire failing.action = (scheduler.advance.1, .error error) ∧
      Timers.dueBy scheduler.now scheduler.timers.tickets scheduler.advance.1.timers.queue = later
  /-- Timers that are not due stay. -/
  others : ∀ timer ∈ scheduler.timers.queue, scheduler.now < timer.due →
    timer ∈ scheduler.advance.1.timers.queue

/-- A coherent scheduler whose timers are in order and whose lengths of time are not negative. -/
structure Steady (scheduler : Scheduler γ α) : Prop where
  coherent : Coherent .free scheduler
  ranked : scheduler.timers.Ranked
  forward : scheduler.settings.Forward

namespace Steady

omit [ToneGenerator γ α] in
/-- A scheduler that has been asked for nothing yet is steady. -/
theorem initial (generator : γ) (now : α) {settings : Settings α} (forward : settings.Forward) :
    (new generator now settings).Steady :=
  ⟨.initial .free generator now settings, ⟨List.Pairwise.nil, by simp [new]⟩, forward⟩

/-- Moves keep a scheduler steady. -/
theorem moves {effects : List (Effect α)} (steady : scheduler.Steady)
    (moves : Moves .free scheduler effects next) : next.Steady where
  coherent := moves.coherent steady.coherent
  ranked := moves.induction (fun ranked move => move.ranked ranked) steady.ranked
  forward := moves.settings_eq ▸ steady.forward

/-- A run keeps a scheduler steady. -/
theorem run (steady : scheduler.Steady) {requests : List (Request α)}
    (issued : scheduler.Along Issued requests) : (scheduler.run requests).Steady :=
  steady.moves (steady.coherent.run_moves (issued.imp fun _ _ => obeys_free))

/-- An advance of a steady scheduler fires the timers that are due. -/
theorem firesDue (steady : scheduler.Steady) : scheduler.FiresDue := by
  obtain ⟨coherent, ranked, forward⟩ := steady
  have moves : Moves .free scheduler (scheduler.effects .advance) scheduler.advance.1 :=
    coherent.perform_moves (obeys_free trivial)
  -- No timer has a ticket that is still to be given out, so all that are due are meant.
  have due : scheduler.dueTimers =
      Timers.dueBy scheduler.now scheduler.timers.tickets scheduler.timers.queue :=
    List.filter_congr fun timer member => by simp [ranked.bounded timer member]
  have none : ∀ timer ∈ scheduler.timers.queue, scheduler.timers.tickets ≤ timer.ticket →
      scheduler.now ≤ timer.due :=
    fun timer member newer => absurd (ranked.bounded timer member) (Nat.not_lt.mpr newer)
  -- Each timer that is due takes one round, and there are as many rounds as timers.
  have enough : (Timers.dueBy scheduler.now scheduler.timers.tickets
      scheduler.timers.queue).length ≤ scheduler.timers.count := List.length_filter_le ..
  have fires := coherent.fireDue_fires ranked forward (Nat.le_refl _) none enough
  rw [← due] at fires
  have fires : Fires scheduler.now scheduler.timers.tickets scheduler.dueTimers
    scheduler.firedTimers scheduler.advance := fires
  refine ⟨moves.generator_eq, ranked.sorted.sublist List.filter_sublist, fun ok => ?_,
    fun error failed => fires.of_error failed,
    fun timer member ahead => coherent.mem_fireDue forward _ _ member ahead⟩
  obtain ⟨every, none⟩ := fires.of_ok ok
  refine ⟨every, fun timer member reached => ?_⟩
  -- A timer that is due and left was not there, for it is none of those set before.
  have newer : ¬ timer.ticket < scheduler.timers.tickets := by
    intro older
    have left := Timers.mem_dueBy.mpr ⟨member, reached, older⟩
    rw [none] at left
    contradiction
  exact ⟨fun before => newer (ranked.bounded timer before), Nat.le_of_not_lt newer⟩

end Steady

/-- In every state that a run can reach, an advance fires the timers that are due and no others. -/
theorem run_advance (generator : γ) (now : α) {settings : Settings α} (forward : settings.Forward)
    {requests : List (Request α)}
    (issued : (new generator now settings).Along Issued requests) :
    ((new generator now settings).run requests).FiresDue :=
  ((Steady.initial generator now forward).run issued).firesDue

/-- A note that has been put off and the sweep after an earlier one are due at the same time. -/
theorem run_advance_together :
    ((new ({ admits := fun attempt => attempt != 1 } : Recorder ℝ) 0 .standard).run
      [.playPitch ⟨60⟩ 1, .schedule ⟨⟨60⟩, 1.1, 1, 1, 0⟩ none, .setClock 1]).FiresDue :=
  run_advance _ 0 Settings.forward_standard ⟨trivial, trivial, trivial, trivial⟩

end Scheduler

end Melody
