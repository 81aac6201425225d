import Mathlib.Logic.Function.Iterate
import Melody.Proofs.Scheduler.Firing
import Melody.Proofs.Scheduler.Forgetting

/-! Schedulers that differ in their sweeps and in notes that do not count do the same work. -/

namespace Melody

namespace Timers

variable {α : Type}

/-- The timers of notes in their order, whatever their tickets. -/
def plans (queue : List (Timer α)) : List (Timer α) :=
  (queue.filter (·.action.note?.isSome)).map ({ · with ticket := 0 })

/-- The first timer counts if it is that of a note. -/
theorem plans_cons (timer : Timer α) (later : List (Timer α)) :
    plans (timer :: later) =
      if timer.action.note?.isSome then { timer with ticket := 0 } :: plans later
      else plans later := by
  by_cases noted : timer.action.note?.isSome = true <;> simp [plans, noted]

/-- A queue that has no timer of a note and does not begin with a sweep is empty. -/
theorem eq_nil_of_plans {queue : List (Timer α)}
    (noted : ∀ timer ∈ queue.head?, timer.action ≠ .sweep) (none : plans queue = []) :
    queue = [] := by
  -- A timer of a note at the head would be one of the plans.
  cases queue with
  | nil => rfl
  | cons timer later =>
    have about : timer.action.note?.isSome = true := by
      simpa [Option.isSome_iff_ne_none] using noted
    rw [plans_cons, if_pos about] at none
    contradiction

/-- A queue that does not begin with a sweep begins with its first timer of a note. -/
theorem eq_cons_of_plans {queue work : List (Timer α)} {plan : Timer α}
    (noted : ∀ timer ∈ queue.head?, timer.action ≠ .sweep) (ahead : plans queue = plan :: work) :
    ∃ timer later, queue = timer :: later ∧ timer.action ≠ .sweep ∧
      { timer with ticket := 0 } = plan ∧ plans later = work := by
  -- The first timer is no sweep, so it is the first of the plans, too.
  cases queue with
  | nil => contradiction
  | cons timer later =>
    have noted : timer.action ≠ .sweep := by simpa using noted
    have about : timer.action.note?.isSome = true := by
      simpa [Option.isSome_iff_ne_none] using noted
    rw [plans_cons, if_pos about] at ahead
    obtain ⟨first, rest⟩ := List.cons.inj ahead
    exact ⟨timer, later, rfl, noted, first, rest⟩

/-- A choice that does not look at tickets can be made before or after they are left out. -/
theorem plans_filter (keep : Timer α → Bool)
    (blind : ∀ timer : Timer α, keep { timer with ticket := 0 } = keep timer)
    (queue : List (Timer α)) : plans (queue.filter keep) = (plans queue).filter keep := by
  -- Both choices can be made on the timers as they are, in either order.
  have blind : keep ∘ ({ · with ticket := 0 }) = keep := funext blind
  rw [plans, plans, List.filter_map, blind, List.filter_filter, List.filter_filter]
  simp only [Bool.and_comm]

/-- Taking back the timer of a note takes back what it is set for. -/
theorem plans_without (timers : Timers α) (id : NoteId) :
    plans (timers.without id).queue =
      (plans timers.queue).filter (·.action.note? != some id) :=
  plans_filter (·.action.note? != some id) (fun _ => rfl) timers.queue

/-- Without timers of notes there are only sweeps. -/
theorem plans_dropNotes (timers : Timers α) : plans timers.dropNotes.queue = [] := by
  -- The timers that are left are all sweeps.
  have none : timers.dropNotes.queue.filter (·.action.note?.isSome) = [] := by
    refine List.filter_eq_nil_iff.mpr fun timer member => ?_
    have sweeps := (List.mem_filter.mp member).2
    simpa using sweeps
  rw [plans, none]
  rfl

variable [ExactScalar α]

/-- A sweep does not count among the timers of notes. -/
theorem plans_insert_sweep {timer : Timer α} (sweeps : timer.action = .sweep)
    (queue : List (Timer α)) : plans (insert timer queue) = plans queue := by
  rw [plans, filter_insert_of_neg _ (by rw [sweeps]; rfl)]
  rfl

/-- A timer that is due before all others becomes the first one. -/
theorem insert_of_forall_lt {timer : Timer α} {queue : List (Timer α)}
    (first : ∀ other ∈ queue, timer.due < other.due) : insert timer queue = timer :: queue := by
  cases queue with
  | nil => rfl
  | cons next later =>
    have earlier := Scalar.order_eq_lt.mpr (first next (List.mem_cons_self ..))
    simp [insert, earlier]

/-- The timer of a note takes the same place whether sweeps stand between or not. -/
theorem plans_insert {timer : Timer α} (noted : timer.action.note?.isSome = true)
    {queue : List (Timer α)} (sorted : Sorted queue) :
    plans (insert timer queue) = insert { timer with ticket := 0 } (plans queue) := by
  induction queue with
  | nil => simp [insert, plans, noted]
  | cons next later ih =>
    obtain ⟨behind, rest⟩ := List.pairwise_cons.mp sorted
    by_cases earlier : timer.due < next.due
    · -- All that is set for later stands behind the timer, on either side.
      have first : ∀ other ∈ plans (next :: later), timer.due < other.due := by
        intro other member
        obtain ⟨source, inside, rfl⟩ := List.mem_map.mp member
        rcases List.mem_cons.mp (List.mem_of_mem_filter inside) with rfl | inside
        · exact earlier
        · rcases behind source inside with below | ⟨same, _⟩
          · exact earlier.trans below
          · exact same ▸ earlier
      have ahead : insert { timer with ticket := 0 } (plans (next :: later)) =
          { timer with ticket := 0 } :: plans (next :: later) := insert_of_forall_lt first
      rw [ahead, insert, if_pos (Scalar.order_eq_lt.mpr earlier), plans_cons, if_pos noted]
    · -- It passes the first timer, which is left out if it is a sweep.
      have passes : ¬ Scalar.order timer.due next.due = .lt := fun below =>
        earlier (Scalar.order_eq_lt.mp below)
      rw [insert, if_neg passes, plans_cons, plans_cons, ih rest]
      by_cases about : next.action.note?.isSome = true
      · rw [if_pos about, if_pos about, insert, if_neg passes]
      · rw [if_neg about, if_neg about]

/-- Of the timers that are due, those of notes are the same whatever the tickets. -/
theorem plans_dueBy {timers : Timers α} (ranked : timers.Ranked) (now : α) :
    plans (dueBy now timers.tickets timers.queue) =
      (plans timers.queue).filter fun timer => decide (timer.due ≤ now) := by
  rw [← plans_filter _ fun _ => rfl]
  congr 1
  exact List.filter_congr fun timer member => by simp [ranked.bounded timer member]

end Timers

section Audible

variable {γ α : Type}

/-- An effect can be heard, as the work of a timer and the end of a voice cannot. -/
def Effect.isAudible : Effect α → Bool
  | created .. | commanded _ _ _ (.gain _) | commanded _ _ _ (.release ..) => true
  | fired _ | commanded _ _ _ .destroy => false

/-- A voice is asked for. -/
def Effect.isCreation : Effect α → Bool
  | created .. => true
  | fired _ | commanded .. => false

/-- The effects that can be heard, in their order. -/
def audible (effects : List (Effect α)) : List (Effect α) :=
  effects.filter Effect.isAudible

/-- How often a voice is asked for. -/
def creations (effects : List (Effect α)) : Nat :=
  effects.countP Effect.isCreation

variable [ToneGenerator γ α]

/-- Generators that decide alike on every tone when each has had as many creations since. -/
def Level (one other : γ) : Prop :=
  ∀ first second : List (Effect α), creations first = creations second → ∀ tone,
    (ToneGenerator.create (hear one first) tone).2 =
      (ToneGenerator.create (hear other second) tone).2

namespace Level

variable {one other : γ}

/-- Being level holds in both directions. -/
theorem symm (level : Level one other) : Level other one :=
  fun first second same tone => (level second first same.symm tone).symm

/-- Generators that have been asked as often stay level. -/
theorem hear (level : Level one other) {first second : List (Effect α)}
    (same : creations first = creations second) :
    Level (hear one first) (Melody.hear other second) := by
  intro early late counted tone
  rw [← hear_append, ← hear_append]
  refine level _ _ ?_ tone
  simp only [creations, List.countP_append] at same counted ⊢
  rw [same, counted]

/-- The next tone gets the same voice, or none. -/
theorem outcome (level : Level one other) (tone : Tone α) :
    (ToneGenerator.create one tone).2 = (ToneGenerator.create other tone).2 :=
  level [] [] rfl tone

end Level

/-- A generator whose success depends on nothing but how many creations came before. -/
def Counting (generator : γ) : Prop :=
  Level generator generator

end Audible

/-- What is heard of schedulers, and which sounding notes make a difference to that. -/
structure Listener (α : Type) [ExactScalar α] where
  hears : Effect α → Bool
  minds : α → Entry α → Bool
  /-- Every voice that is asked for is heard. -/
  created : ∀ id tone voice?, hears (.created id tone voice?) = true
  /-- The work of a timer is not heard, and neither is the end of a voice. -/
  fired : ∀ timer, hears (.fired timer) = false
  destroyed : ∀ cause owner voice, hears (.commanded cause owner voice .destroy) = false
  /-- A note makes no difference any more when it has ended. -/
  lasting : ∀ {now : α} {entry : Entry α}, minds now entry = true →
    (!entry.finish.isReached now) = true
  /-- A note that makes a difference did so before. -/
  before : ∀ {now later : α} {entry : Entry α}, now ≤ later → minds later entry = true →
    minds now entry = true
  /-- A note that makes no difference is not heard to fade out. -/
  faded : ∀ {now : α} {entry : Entry α}, entry.finish.isAfter now = true →
    minds now entry = false → ∀ cause owner voice time curve,
    hears (.commanded cause owner voice (.release time curve)) = false

namespace Listener

variable {α : Type} [ExactScalar α]

/-- Hears all that can be heard, so that every note makes a difference until it ends. -/
def full : Listener α where
  hears := Effect.isAudible
  minds now entry := !entry.finish.isReached now
  created _ _ _ := rfl
  fired _ := rfl
  destroyed _ _ _ := rfl
  lasting minded := minded
  before passes minded := by
    rw [Bool.not_eq_true', Bool.eq_false_iff] at minded ⊢
    exact fun reached => minded (Ending.isReached_mono passes reached)
  faded sounds unminded := by
    rw [Ending.isAfter_eq, unminded] at sounds
    contradiction

variable (listener : Listener α)

/-- The effects that are heard, in their order. -/
def heard (effects : List (Effect α)) : List (Effect α) :=
  effects.filter listener.hears

/-- Effects are heard one after the other. -/
@[simp] theorem heard_append (effects later : List (Effect α)) :
    listener.heard (effects ++ later) = listener.heard effects ++ listener.heard later :=
  List.filter_append ..

/-- Nothing is heard of voices that are destroyed. -/
theorem heard_destroys (entries : List (Entry α)) (cause : Entry α → NoteId) :
    listener.heard (entries.map fun entry =>
      .commanded (cause entry) entry.id entry.voice .destroy) = [] := by
  refine List.filter_eq_nil_iff.mpr fun effect member => ?_
  obtain ⟨entry, _, rfl⟩ := List.mem_map.mp member
  simp [listener.destroyed]

/-- A lane in which no note sounds when those that have ended are forgotten is seen so. -/
theorem seen_of_expire {lane rest : Lane α} {now : α} (expired : lane.expire now = rest.vacated) :
    lane.seen (listener.minds now) = rest.vacated := by
  rw [← Lane.seen_seen _ fun _ => listener.lasting, ← Lane.expire_eq_seen, expired]
  rfl

/-- Voices have been asked for as often where the same has been heard. -/
theorem creations_eq {first second : List (Effect α)}
    (same : listener.heard first = listener.heard second) :
    creations first = creations second := by
  -- Every creation is among what is heard.
  have counted : ∀ effects, creations (listener.heard effects) = creations effects := by
    intro effects
    rw [creations, creations, heard, List.countP_filter]
    refine List.countP_congr fun effect _ => ?_
    cases effect <;> simp [Effect.isCreation, listener.created]
  rw [← counted, same, counted]

end Listener

namespace Recorder

variable {α : Type}

/-- What a recorder decides by. -/
def stage (recorder : Recorder α) : Nat × Nat × (Nat → Bool) :=
  (recorder.attempts, recorder.created, recorder.admits)

/-- What a recorder decides by after one more attempt. -/
def next : Nat × Nat × (Nat → Bool) → Nat × Nat × (Nat → Bool)
  | (attempts, created, admits) =>
    (attempts + 1, if admits attempts then created + 1 else created, admits)

/-- An attempt takes a recorder to its next stage. -/
theorem stage_create (recorder : Recorder α) (tone : Tone α) :
    (recorder.create tone).1.stage = next recorder.stage := by
  unfold create
  by_cases admitted : recorder.admits recorder.attempts = true <;> simp [stage, next, admitted]

/-- Only attempts take a recorder from stage to stage. -/
theorem stage_hear (recorder : Recorder α) (effects : List (Effect α)) :
    (hear recorder effects).stage = next^[creations effects] recorder.stage := by
  induction effects generalizing recorder with
  | nil => rfl
  | cons effect later ih =>
    have rest : hear recorder (effect :: later) = hear (effect.heardBy recorder) later := rfl
    rw [rest, ih]
    -- Only an attempt to create a voice moves the stage on.
    cases effect with
    | created id tone voice? =>
      have counted : creations (.created id tone voice? :: later) = creations later + 1 :=
        List.countP_cons_of_pos rfl
      rw [counted, Function.iterate_succ_apply, ← recorder.stage_create tone]
      rfl
    | fired timer => rfl
    | commanded cause owner voice command => rfl

/-- Recorders at one stage decide alike. -/
theorem level_of_stage {one other : Recorder α} (same : one.stage = other.stage) :
    Level one other := by
  intro first second counted tone
  -- As many attempts lead to the same stage, and a stage decides on the next attempt.
  have stages : (hear one first).stage = (hear other second).stage := by
    rw [stage_hear, stage_hear, counted, same]
  simp only [stage, Prod.mk.injEq] at stages
  obtain ⟨attempts, created, admits⟩ := stages
  show (Recorder.create _ tone).2 = (Recorder.create _ tone).2
  unfold create
  rw [attempts, created, admits]
  split <;> rfl

/-- The success of a recorder depends on nothing but how many creations came before. -/
theorem counting (recorder : Recorder α) : Counting recorder :=
  level_of_stage rfl

end Recorder

section Settings

variable {α : Type}

/-- Settings that differ in nothing but the time between sweeps. -/
def Settings.Akin (one other : Settings α) : Prop :=
  other = { one with sweepInterval := other.sweepInterval }

/-- Settings are akin in both directions. -/
theorem Settings.Akin.symm {one other : Settings α} (akin : one.Akin other) : other.Akin one := by
  -- The settings on the left are those on the right with their own time between sweeps put back.
  unfold Settings.Akin at akin ⊢
  rw [akin]

end Settings

namespace Scheduler

variable {γ α : Type} [ExactScalar α] [ToneGenerator γ α] {listener : Listener α}
  {one other : Scheduler γ α}

/-- Schedulers that differ in their sweeps and in sounding notes that make no difference. -/
structure Attuned (listener : Listener α) (one other : Scheduler γ α) : Prop where
  now : one.now = other.now
  nextId : one.nextId = other.nextId
  settings : one.settings.Akin other.settings
  level : Level one.generator other.generator
  /-- Each pitch has the same notes to come, and the same one that sounds if that is minded. -/
  lanes : one.lanes.Agree (listener.minds one.now) other.lanes
  /-- The same notes wait for the same times. -/
  timers : Timers.plans one.timers.queue = Timers.plans other.timers.queue

namespace Attuned

/-- Being attuned holds in both directions. -/
theorem symm (alike : one.Attuned listener other) : other.Attuned listener one where
  now := alike.now.symm
  nextId := alike.nextId.symm
  settings := alike.settings.symm
  level := alike.level.symm
  lanes := alike.now ▸ alike.lanes.symm
  timers := alike.timers.symm

section Reading

/-- Notes are put off by the same lead time. -/
theorem leadTime (alike : one.Attuned listener other) :
    one.settings.leadTime = other.settings.leadTime := by
  rw [alike.settings]

/-- A voice is asked for with the same tone. -/
theorem tone (alike : one.Attuned listener other) (cue : Cue α) :
    one.tone cue = other.tone cue := by
  rw [Scheduler.tone, Scheduler.tone, alike.settings, alike.now]

/-- A voice is given the same part. -/
theorem part (alike : one.Attuned listener other) (cue : Cue α) :
    one.part cue = other.part cue := by
  rw [Scheduler.part, Scheduler.part, alike.tone, sustainLevel, sustainLevel, alike.settings]
  rfl

/-- A voice gets the same entry. -/
theorem entryOf (alike : one.Attuned listener other) (id : NoteId) (cue : Cue α) (voice : Nat) :
    one.entryOf id cue voice = other.entryOf id cue voice := by
  rw [Scheduler.entryOf, Scheduler.entryOf, alike.tone]

/-- It is heard the same when the notes that are minded are faded out. -/
theorem fadeEffects (alike : one.Attuned listener other) (cause : Entry α → NoteId)
    {seated taken : Option (Entry α)}
    (same : seated.filter (listener.minds one.now) = taken.filter (listener.minds one.now)) :
    listener.heard (one.fadeEffects cause seated) =
      listener.heard (other.fadeEffects cause taken) := by
  -- Of the note that has a seat there is nothing to be heard unless it is minded.
  have minded : ∀ (scheduler : Scheduler γ α) (seated : Option (Entry α)),
      listener.heard (scheduler.fadeEffects cause seated) = listener.heard
        (scheduler.fadeEffects cause (seated.filter (listener.minds scheduler.now))) := by
    intro scheduler seated
    cases seated with
    | none => rfl
    | some entry =>
      by_cases counts : listener.minds scheduler.now entry = true
      · rw [Option.filter_some, if_pos counts]
      · rw [Option.filter_some, if_neg counts]
        by_cases sounds : entry.finish.isAfter scheduler.now = true
        · have silent := listener.faded sounds (by simpa using counts)
          simp [Scheduler.fadeEffects, fadeEffect, sounds, Listener.heard, silent]
        · simp [Scheduler.fadeEffects, Option.filter_some, sounds]
  have told : ∀ id entry, one.fadeEffect id entry = other.fadeEffect id entry := by
    intro id entry
    rw [fadeEffect, fadeEffect, sustainLevel, sustainLevel, alike.settings, alike.now]
  rw [minded one, minded other, ← alike.now, same]
  simp only [Scheduler.fadeEffects, ← alike.now, told]

end Reading

/-- Schedulers stay alike when they are told the same and their lanes agree. -/
theorem told (alike : one.Attuned listener other) {first second : List (Effect α)}
    {lanes others : Lanes α} {journal notices : List Notice}
    (same : listener.heard first = listener.heard second)
    (agree : lanes.Agree (listener.minds one.now) others) :
    (one.told first lanes journal).Attuned listener (other.told second others notices) :=
  { alike with level := alike.level.hear (listener.creations_eq same), lanes := agree }

/-- A sweep that is set makes no difference. -/
theorem ensureSweep_left (alike : one.Attuned listener other) :
    one.ensureSweep.Attuned listener other := by
  -- A sweep in the queue is no plan.
  unfold ensureSweep
  by_cases pending : one.sweepPending = true
  · rw [if_pos pending]
    exact alike
  · rw [if_neg pending]
    exact { alike with timers := (Timers.plans_insert_sweep rfl _).trans alike.timers }

/-- Setting up a sweep leaves schedulers attuned. -/
theorem ensureSweep (alike : one.Attuned listener other) :
    one.ensureSweep.Attuned listener other.ensureSweep :=
  alike.ensureSweep_left.symm.ensureSweep_left.symm

/-- A sweep that is fired makes no difference. -/
theorem sweep_left (alike : one.Attuned listener other) (ordered : one.lanes.Ordered)
    {timer : Timer α} {rest : Timers α} (queued : one.timers.queue = timer :: rest.queue)
    (sweeps : timer.action = .sweep) :
    ({ one with timers := rest }).sweep.Attuned listener other := by
  -- The timer that goes is none of a note, and so is the one that may be set instead.
  have timers := alike.timers
  rw [queued, Timers.plans_cons, sweeps] at timers
  have swept : ({ one with timers := rest }).swept.Attuned listener other :=
    { alike with timers, lanes := alike.lanes.expire_left ordered fun _ => listener.lasting }
  rcases sweep_cases ({ one with timers := rest }) with same | same
  · exact same ▸ swept
  · exact same ▸ swept.ensureSweep_left

/-- A timer is set for a note on both sides. -/
theorem setTimer (alike : one.Attuned listener other) (sorted : Timers.Sorted one.timers.queue)
    (ranked : Timers.Sorted other.timers.queue) (id : NoteId) (due : α) {action : Action α}
    (noted : action.note?.isSome = true) :
    (one.setTimer id due action).Attuned listener (other.setTimer id due action) := by
  refine { alike with timers := ?_ }
  show Timers.plans (Timers.insert _ _) = Timers.plans (Timers.insert _ _)
  rw [Timers.plans_insert (by exact noted) sorted, Timers.plans_insert (by exact noted) ranked,
    alike.timers]

/-- What a note waits for is taken back on both sides. -/
theorem unset (alike : one.Attuned listener other) (id : NoteId) :
    (one.unset id).Attuned listener (other.unset id) := by
  refine { alike with timers := ?_ }
  show Timers.plans (one.timers.without id).queue = Timers.plans (other.timers.without id).queue
  rw [Timers.plans_without, Timers.plans_without, alike.timers]

end Attuned

end Scheduler

end Melody
