import Melody.Proofs.Scheduler.Inaudible
import Melody.Proofs.Scheduler.Representation

/-! Releases change nothing about what is still to come. -/

namespace Melody

/-- Hears only that voices are asked for, so that no note makes a difference once it sounds. -/
def Listener.ahead {α : Type} [ExactScalar α] : Listener α where
  hears := Effect.isCreation
  minds _ _ := false
  created _ _ _ := rfl
  fired _ := rfl
  destroyed _ _ _ := rfl
  lasting minded := by cases minded
  before _ minded := by cases minded
  faded _ _ _ _ _ _ _ := rfl

/-- A turn of a run is a request, or a release of one pitch or of all that is put in. -/
inductive Turn (α : Type) where
  | asked (request : Request α)
  | added (pitch? : Option Pitch)

namespace Turn

variable {α : Type}

/-- The request of a turn, if it is not put in. -/
def asked? : Turn α → Option (Request α)
  | asked request => some request
  | added _ => none

/-- What a scheduler is asked in a turn. -/
def request : Turn α → Request α
  | asked request => request
  | added (some pitch) => .releasePitch pitch
  | added none => .releaseAll

end Turn

/-- An answer that is not that to a release. -/
def Answer.unreleased {α : Type} : Answer α → Bool
  | released _ => false
  | scheduled _ | played _ | advanced _ => true

/-- Of a lane there is nothing to be seen ahead but the notes to come. -/
theorem Lane.seen_ahead {α : Type} [ExactScalar α] (lane : Lane α) (now : α) :
    lane.seen (Listener.ahead.minds now) = lane.vacated := by
  obtain ⟨pitch, active, future⟩ := lane
  cases active <;> rfl

/-- What the timers of notes are set for does not depend on their tickets. -/
theorem Timers.exists_plan {α : Type} {queue : List (Timer α)} (holds : Action α → Prop)
    (noted : ∀ action, holds action → action.note?.isSome = true) :
    (∃ plan ∈ plans queue, holds plan.action) ↔ ∃ timer ∈ queue, holds timer.action := by
  -- A plan is a timer of a note without its ticket.
  constructor
  · rintro ⟨plan, member, held⟩
    obtain ⟨timer, queued, rfl⟩ := List.mem_map.mp member
    exact ⟨timer, List.mem_of_mem_filter queued, held⟩
  · rintro ⟨timer, queued, held⟩
    exact ⟨_, List.mem_map_of_mem (List.mem_filter.mpr ⟨queued, noted _ held⟩), held⟩

namespace Scheduler

section Answering

variable {γ α : Type} [Analytic α] [ToneGenerator γ α]

/-- What is answered to requests other than releases, in their order. -/
def outcomes (scheduler : Scheduler γ α) (requests : List (Request α)) : List (Answer α) :=
  (scheduler.answers requests).filterMap (Option.filter Answer.unreleased)

/-- The answer to the first request comes first, unless that is a release. -/
theorem outcomes_cons (scheduler : Scheduler γ α) (request : Request α)
    (later : List (Request α)) : scheduler.outcomes (request :: later) =
      ((scheduler.answer? request).filter Answer.unreleased).toList ++
        (scheduler.perform request).outcomes later := by
  -- A request without an answer is passed over like a release.
  rw [outcomes, answers, List.filterMap_cons]
  cases (scheduler.answer? request).filter Answer.unreleased <;> rfl

end Answering

section Coming

variable {γ α : Type} [Analytic α] {rules : Rules α} {scheduler : Scheduler γ α}

/-- A note is put off exactly when a timer is set to schedule it again. -/
theorem Coherent.isDeferred_iff_plan (coherent : Coherent rules scheduler) (id : NoteId) :
    scheduler.isDeferred id = true ↔
      ∃ plan ∈ Timers.plans scheduler.timers.queue, ∃ note, plan.action = .reschedule id note := by
  refine scheduler.isDeferred_iff.trans (Iff.trans ?_ (Timers.exists_plan
    (fun action => ∃ note, action = .reschedule id note) (by rintro _ ⟨note, rfl⟩; rfl)).symm)
  constructor
  · rintro ⟨⟨pair, member, rfl⟩, unvoiced⟩
    -- The table leads to the timer of the note, which is about a voice or about none.
    obtain ⟨timer, queued, _, noted⟩ := (coherent.linked.listed pair.1 pair.2).mp member
    refine ⟨timer, queued, ?_⟩
    cases action : timer.action with
    | reschedule id note =>
      rw [action] at noted
      cases noted
      exact ⟨note, rfl⟩
    | promote id pitch =>
      -- A note that is to come has a voice, which this one has not.
      rw [action] at noted
      cases noted
      obtain ⟨slot, present, _, _, named, _⟩ := coherent.kept timer queued _ pitch action
      exact absurd named (unvoiced slot present)
    | sweep =>
      rw [action] at noted
      cases noted
  · rintro ⟨timer, queued, note, action⟩
    have noted : timer.action.note? = some id := by rw [action]; rfl
    exact ⟨⟨_, (coherent.linked.listed id _).mpr ⟨timer, queued, rfl, noted⟩, rfl⟩,
      coherent.apart timer queued id note action⟩

/-- A note is to come exactly when a timer is set to let it sound. -/
theorem Coherent.isFuture_iff_plan (coherent : Coherent rules scheduler) (id : NoteId) :
    scheduler.isFuture id = true ↔
      ∃ plan ∈ Timers.plans scheduler.timers.queue, ∃ pitch, plan.action = .promote id pitch := by
  refine scheduler.isFuture_iff.trans (Iff.trans ?_ (Timers.exists_plan
    (fun action => ∃ pitch, action = .promote id pitch) (by rintro _ ⟨pitch, rfl⟩; rfl)).symm)
  constructor
  · -- Notes to come and the timers of their starts go together one to one.
    rintro ⟨slot, member, waits, rfl⟩
    obtain ⟨timer, queued, action, _⟩ := coherent.promised slot member waits
    exact ⟨timer, queued, slot.pitch, action⟩
  · rintro ⟨timer, queued, pitch, action⟩
    obtain ⟨slot, present, waits, _, named, _⟩ := coherent.kept timer queued id pitch action
    exact ⟨slot, present, waits, named⟩

end Coming

variable {γ α : Type} [ExactScalar α] [ToneGenerator γ α] {one other : Scheduler γ α}

omit [ToneGenerator γ α] in
/-- Commands go unheard by one who hears only that voices are asked for. -/
theorem heard_fades (scheduler : Scheduler γ α) (cause : Entry α → NoteId)
    (seated : Option (Entry α)) :
    Listener.ahead.heard (scheduler.fadeEffects cause seated) = [] := by
  refine List.filter_eq_nil_iff.mpr fun effect member => ?_
  obtain ⟨entry, _, rfl⟩ := List.mem_map.mp member
  exact Bool.false_ne_true

namespace Attuned

/-- What is to come on one side stays so when notes are faded out on the other side. -/
theorem told_left (alike : one.Attuned .ahead other) {effects : List (Effect α)}
    {lanes : Lanes α} {journal : List Notice} (silent : Listener.ahead.heard effects = [])
    (left : ∀ pitch, (lanes.laneOf pitch).vacated = (one.lanes.laneOf pitch).vacated) :
    (one.told effects lanes journal).Attuned .ahead other := by
  have agree : lanes.Agree (Listener.ahead.minds one.now) other.lanes := fun pitch => by
    rw [Lane.seen_ahead, Lane.seen_ahead, left, alike.lanes.vacated]
  -- The other side is told nothing.
  have told : (one.told effects lanes journal).Attuned .ahead
      (other.told [] other.lanes other.journal) := alike.told silent agree
  exact told

/-- Releases on one side leave what is to come as it is on the other side. -/
theorem release_left (alike : one.Attuned .ahead other) (steady : one.Steady)
    {request : Request α} (releases : request.releases = true) :
    Listener.ahead.heard (one.effects request) = [] ∧
      (one.perform request).Attuned .ahead other ∧
      (one.answer? request).filter Answer.unreleased = none := by
  have ordered := steady.coherent.regular.ordered
  -- A release touches sounding seats only, which are not seen by one who looks ahead.
  cases request with
  | releasePitch pitch =>
    obtain ⟨effects, _, lanes, journal, told, left, others⟩ := one.releasePitch_told ordered pitch
    have silent : Listener.ahead.heard (one.releasePitchEffects pitch) = [] := by
      rw [effects, heard_fades]
    refine ⟨silent, ?_, rfl⟩
    rw [Scheduler.perform, told]
    refine alike.told_left silent fun place => ?_
    by_cases here : place = pitch
    · -- What the release leaves in the seat of its pitch has ended.
      rw [here, ← Lane.seen_ahead _ one.now, Listener.seen_of_expire _ left]
    · rw [others place here]
  | releaseAll =>
    obtain ⟨lanes, journal, told, left⟩ := one.releaseAll_told ordered
    have silent : Listener.ahead.heard one.releaseAllEffects = [] := by
      rw [releaseAllEffects, Listener.heard, List.filter_flatMap]
      exact List.flatMap_eq_nil_iff.mpr fun lane _ => one.heard_fades Entry.id lane.active
    refine ⟨silent, ?_, rfl⟩
    rw [Scheduler.perform, told]
    refine alike.told_left silent fun place => ?_
    rw [← Lane.seen_ahead _ one.now, Listener.seen_of_expire _ (left place)]
  | _ => cases releases

/-- The same notes are put off, and the same are to come. -/
theorem coming {listener : Listener α} (alike : one.Attuned listener other) (steady : one.Steady)
    (firm : other.Steady) (id : NoteId) :
    one.isDeferred id = other.isDeferred id ∧ one.isFuture id = other.isFuture id := by
  -- Both are read off the plans, which are the same.
  constructor
  · rw [Bool.eq_iff_iff, steady.coherent.isDeferred_iff_plan, firm.coherent.isDeferred_iff_plan,
      alike.timers]
  · rw [Bool.eq_iff_iff, steady.coherent.isFuture_iff_plan, firm.coherent.isFuture_iff_plan,
      alike.timers]

/-- A request leaves what is to come the same on both sides, even a release. -/
theorem ask (alike : one.Attuned .ahead other) (steady : one.Steady) (firm : other.Steady)
    {request : Request α} (obeys : one.Obeys .timely request) :
    Listener.ahead.heard (one.effects request) = Listener.ahead.heard (other.effects request) ∧
      (one.perform request).Attuned .ahead (other.perform request) ∧
      (one.answer? request).filter Answer.unreleased =
        (other.answer? request).filter Answer.unreleased := by
  cases releases : request.releases with
  | false =>
    obtain ⟨heard, after, answer⟩ := alike.perform steady firm obeys releases
    exact ⟨heard, after, congrArg (Option.filter Answer.unreleased) answer⟩
  | true =>
    -- Each side releases on its own, with the other one standing still.
    obtain ⟨silent, first, none⟩ := alike.release_left steady releases
    obtain ⟨quiet, second, nothing⟩ := first.symm.release_left firm releases
    exact ⟨silent.trans quiet.symm, second.symm, none.trans nothing.symm⟩

end Attuned

/-- A run of turns leaves what is to come as it is without those that are put in. -/
structure Undisturbed (one other : Scheduler γ α) (turns : List (Turn α)) : Prop where
  /-- The one generator is told the effects of what is asked and nothing else. -/
  told : (one.run (turns.filterMap Turn.asked?)).generator =
    hear one.generator (one.history (turns.filterMap Turn.asked?))
  /-- The other generator is told the effects of all turns and nothing else. -/
  retold : (other.run (turns.map Turn.request)).generator =
    hear other.generator (other.history (turns.map Turn.request))
  /-- The same voices are asked for in the same order. -/
  created : (one.history (turns.filterMap Turn.asked?)).filter Effect.isCreation =
    (other.history (turns.map Turn.request)).filter Effect.isCreation
  /-- Notes are scheduled, pitches played and timers fired with the same outcome. -/
  answered : one.outcomes (turns.filterMap Turn.asked?) = other.outcomes (turns.map Turn.request)
  /-- After every turn the same notes are put off, and the same are to come. -/
  coming : ∀ early, early <+: turns → ∀ id,
    (one.run (early.filterMap Turn.asked?)).isDeferred id =
        (other.run (early.map Turn.request)).isDeferred id ∧
      (one.run (early.filterMap Turn.asked?)).isFuture id =
        (other.run (early.map Turn.request)).isFuture id

/-- Schedulers that are attuned to what is to come stay so whatever is released in between. -/
theorem Attuned.undisturbed (alike : one.Attuned .ahead other) (steady : one.Steady)
    (firm : other.Steady) {turns : List (Turn α)}
    (along : one.Along (Obeys .timely) (turns.filterMap Turn.asked?)) :
    one.Undisturbed other turns := by
  induction turns generalizing one other with
  | nil =>
    refine ⟨rfl, rfl, rfl, rfl, fun early inside id => ?_⟩
    rw [List.prefix_nil.mp inside]
    exact alike.coming steady firm id
  | cons turn later ih =>
    -- What holds after the first turn is put together with what holds of the later ones.
    have start := fun id => alike.coming steady firm id
    cases turn with
    | asked request =>
      -- Both sides perform the request, and stay attuned through it.
      obtain ⟨obeys, along⟩ := along
      have issued := alike.issued obeys.1
      obtain ⟨heard, after, answer⟩ := alike.ask steady firm obeys
      have rest := ih after (steady.perform obeys.1) (firm.perform issued) along
      have first := (steady.coherent.perform_moves (obeys_free obeys.1)).generator_eq
      have second := (firm.coherent.perform_moves (obeys_free issued)).generator_eq
      have asked : (Turn.asked request :: later).filterMap Turn.asked? =
        request :: later.filterMap Turn.asked? := rfl
      have whole : (Turn.asked request :: later).map Turn.request =
        request :: later.map Turn.request := rfl
      refine ⟨?_, ?_, ?_, ?_, ?_⟩
      · rw [asked, run_cons, rest.told, history, hear_append, first]
      · rw [whole, run_cons, rest.retold, history, hear_append, second]
      · rw [asked, whole, history, history, List.filter_append, List.filter_append, rest.created]
        exact congrArg (· ++ _) heard
      · rw [asked, whole, outcomes_cons, outcomes_cons, answer, rest.answered]
      · intro early inside id
        rcases List.prefix_cons_iff.mp inside with rfl | ⟨behind, rfl, ahead⟩
        · exact start id
        · exact rest.coming behind ahead id
    | added pitch? =>
      -- One side stands still, and what the other one does is not heard.
      have asked : (Turn.added pitch? :: later).filterMap Turn.asked? =
        later.filterMap Turn.asked? := rfl
      have releases : (Turn.added pitch? : Turn α).request.releases = true := by
        cases pitch? <;> rfl
      have issued : other.Issued (Turn.added pitch?).request := by
        cases pitch? <;> trivial
      obtain ⟨silent, after, none⟩ := alike.symm.release_left firm releases
      have rest := ih after.symm steady (firm.perform issued) along
      have second := (firm.coherent.perform_moves (obeys_free issued)).generator_eq
      refine ⟨?_, ?_, ?_, ?_, ?_⟩
      · rw [asked, rest.told]
      · rw [List.map_cons, run_cons, rest.retold, history, hear_append, second]
      · rw [asked, List.map_cons, history, List.filter_append, rest.created]
        exact (congrArg (· ++ _) silent).symm
      · rw [asked, List.map_cons, outcomes_cons, none, rest.answered]
        rfl
      · intro early inside id
        rcases List.prefix_cons_iff.mp inside with rfl | ⟨behind, rfl, ahead⟩
        · exact start id
        · exact rest.coming behind ahead id

/-- Whatever is released in between, a run asks for the same voices, gives the same answers to all
but releases, and has the same notes to come after every turn. -/
theorem run_undisturbed {generator : γ} (counting : Counting generator) (now : α)
    {settings : Settings α} (forward : settings.Forward) {turns : List (Turn α)}
    (along : (new generator now settings).Along (Obeys .timely) (turns.filterMap Turn.asked?)) :
    (new generator now settings).Undisturbed (new generator now settings) turns := by
  -- Both sides start from the same scheduler, which is attuned to itself.
  have alike : (new generator now settings).Attuned .ahead (new generator now settings) :=
    ⟨rfl, rfl, rfl, counting, fun _ => rfl, rfl⟩
  have steady := Steady.initial generator now forward
  exact alike.undisturbed steady steady along

/-- A note is faded out early in one run only, which has the same notes ahead of it. -/
theorem run_undisturbed_early :
    let recorder : Recorder ℝ := { admits := fun attempt => attempt != 1 }
    let turns : List (Turn ℝ) := [.asked (.schedule ⟨⟨60⟩, 0, 9, 1, 0⟩ none), .added none,
      .asked (.setClock 2), .asked .advance, .asked (.schedule ⟨⟨60⟩, 5, 1, 1, 0⟩ none),
      .added (some ⟨60⟩), .asked (.playPitch ⟨62⟩ 1), .asked (.releasePitch ⟨60⟩)]
    let scheduler : Scheduler (Recorder ℝ) ℝ := new recorder 0 .standard
    scheduler.Undisturbed scheduler turns := by
  intro recorder turns scheduler
  have onward := Onward.place scheduler.freshId.1 Settings.forward_standard scheduler.freshId.2
    ⟨⟨60⟩, 0, 9, 1, 0⟩
  have passes : (scheduler.perform (.schedule ⟨⟨60⟩, 0, 9, 1, 0⟩ none)).now ≤ 2 := by
    have stands : (scheduler.perform (.schedule ⟨⟨60⟩, 0, 9, 1, 0⟩ none)).now = 0 := onward.now
    rw [stands]
    norm_num
  -- The clock goes forward, and no request is out of place.
  have along : scheduler.Along (Obeys .timely) (turns.filterMap Turn.asked?) :=
    ⟨⟨trivial, trivial⟩, ⟨trivial, passes⟩, ⟨trivial, trivial⟩, ⟨trivial, trivial⟩,
      ⟨trivial, fun _ => trivial⟩, ⟨trivial, trivial⟩, trivial⟩
  exact run_undisturbed (Recorder.counting _) 0 Settings.forward_standard along

end Scheduler

end Melody
