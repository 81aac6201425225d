import Melody.Proofs.Scheduler.Alike

/-! What schedulers that are attuned are asked is heard and answered alike. -/

namespace Melody.Scheduler

variable {γ α : Type} [ExactScalar α] [ToneGenerator γ α] {listener : Listener α}
  {one other : Scheduler γ α}

/-- Two pieces of work that are heard alike, leave schedulers attuned and have the same outcome. -/
structure Matches {ρ : Type} (listener : Listener α) (first second : List (Effect α))
    (one other : Scheduler γ α × ρ) : Prop where
  heard : listener.heard first = listener.heard second
  alike : one.1.Attuned listener other.1
  answer : one.2 = other.2

/-- An outcome may be put in other terms. -/
theorem Matches.map {ρ σ : Type} {first second : List (Effect α)} {one other : Scheduler γ α × ρ}
    (agree : Matches listener first second one other) (wording : ρ → σ) :
    Matches listener first second (one.1, wording one.2) (other.1, wording other.2) :=
  ⟨agree.heard, agree.alike, congrArg wording agree.answer⟩

/-- It is enough to compare what can be heard. -/
theorem Matches.of_heard {ρ : Type} {first second early late : List (Effect α)}
    {one other : Scheduler γ α × ρ} (agree : Matches listener first second one other)
    (heard : listener.heard early = listener.heard first)
    (told : listener.heard late = listener.heard second) :
    Matches listener early late one other :=
  ⟨heard.trans (agree.heard.trans told.symm), agree.alike, agree.answer⟩

namespace Attuned

/-- It is heard the same when a voice has been created and the note that it displaces fades. -/
theorem voiceEffects (alike : one.Attuned listener other) (id : NoteId) (cue : Cue α)
    (voice : Nat) {displaced taken : Option (Entry α)}
    (same : displaced.filter (listener.minds one.now) = taken.filter (listener.minds one.now)) :
    listener.heard (one.voiceEffects id cue voice displaced) =
      listener.heard (other.voiceEffects id cue voice taken) := by
  rw [Scheduler.voiceEffects, Scheduler.voiceEffects, Listener.heard_append,
    Listener.heard_append, alike.tone, alike.part, alike.fadeEffects (fun _ => id) same]

/-- A prepared note comes to sound on both sides. -/
theorem promote (alike : one.Attuned listener other) (ordered : one.lanes.Ordered)
    (arranged : other.lanes.Ordered) (pitch : Pitch) (id : NoteId) :
    Matches listener (one.promoteEffects pitch id) (other.promoteEffects pitch id)
      (one.promote pitch id, ()) (other.promote pitch id, ()) := by
  have waiting := alike.lanes.future pitch
  cases found : (one.lanes.laneOf pitch).future.find? (·.id == id) with
  | none =>
    -- The note is not among those to come, so there is nothing to do.
    have first : (one.lanes.find? pitch).bind (·.takeFuture? id) = none := by
      rw [Lanes.find?_takeFuture?, found, Option.map_none]
    have second : (other.lanes.find? pitch).bind (·.takeFuture? id) = none := by
      rw [Lanes.find?_takeFuture?, ← waiting, found, Option.map_none]
    simp only [promoteEffects, Scheduler.promote, first, second]
    exact ⟨rfl, alike, rfl⟩
  | some entry =>
    -- It is taken out of the same notes to come, beside whatever has the seat.
    have first := one.lanes.find?_takeFuture? pitch id
    have second := other.lanes.find?_takeFuture? pitch id
    rw [found, Option.map_some] at first
    rw [← waiting, found, Option.map_some] at second
    have faded := alike.fadeEffects (fun _ => id) (alike.lanes.active pitch)
    obtain ⟨journal, started⟩ := promote_told first
    obtain ⟨notices, sounding⟩ := promote_told second
    simp only [promoteEffects, first, second, started, sounding, Option.toList_some,
      List.flatMap_cons, List.flatMap_nil, List.append_nil]
    refine ⟨by rw [faded], alike.told (by rw [faded]) ?_, rfl⟩
    -- The note has the seat on both sides, and the notes to come are the same without it.
    refine alike.lanes.update ordered arranged pitch (fun _ _ => Lanes.laneOf_pitch _ _)
      (fun _ _ => Lanes.laneOf_pitch _ _) ?_
    simp only [Lanes.laneOf_pitch, waiting]

/-- A voice that has been created enters a lane on both sides. -/
theorem entered (alike : one.Attuned listener other) (ordered : one.lanes.Ordered)
    (arranged : other.lanes.Ordered) (id : NoteId) (cue : Cue α) (voice : Nat)
    (journal notices : List Notice) :
    (one.entered id cue voice journal).Attuned listener (other.entered id cue voice notices) := by
  refine alike.told (alike.voiceEffects id cue voice rfl) (alike.lanes.update ordered arranged
    cue.pitch (fun _ same => same) (fun _ same => same) ?_)
  -- The entry joins the same notes to come, whatever has the seat.
  have same := Lane.seen_eq_seen.mp (alike.lanes cue.pitch)
  exact Lane.seen_eq_seen.mpr ⟨same.1, same.2.1, by rw [same.2.2, alike.entryOf]⟩

/-- A voice is created for the same cue on both sides, or on neither. -/
theorem prepare (alike : one.Attuned listener other) (steady : one.Steady) (firm : other.Steady)
    (id : NoteId) (cue : Cue α) :
    Matches listener (one.prepareEffects id cue) (other.prepareEffects id cue)
      (one.prepare id cue.pitch cue.start cue.finish cue.velocity cue.pan)
      (other.prepare id cue.pitch cue.start cue.finish cue.velocity cue.pan) := by
  have ordered := steady.coherent.regular.ordered
  have arranged := firm.coherent.regular.ordered
  have decided := alike.level.outcome (one.tone cue)
  cases outcome : (ToneGenerator.create one.generator (one.tone cue)).2 with
  | error cause =>
    rw [outcome, alike.tone] at decided
    rw [prepare_refused id outcome, prepare_refused id decided.symm,
      prepareEffects_refused id outcome, prepareEffects_refused id decided.symm, alike.tone]
    exact ⟨rfl, alike.told rfl alike.lanes, rfl⟩
  | ok voice =>
    rw [outcome, alike.tone] at decided
    obtain ⟨journal, prepared⟩ := prepare_created id outcome
    obtain ⟨notices, readied⟩ := prepare_created id decided.symm
    have entered := alike.entered ordered arranged id cue voice journal notices
    rw [prepared, readied, prepareEffects_created id outcome,
      prepareEffects_created id decided.symm, ← alike.tone, ← alike.now]
    by_cases begun : (one.tone cue).start ≤ one.now
    · -- The note takes the seat at once, and the one that has it makes way.
      have promoted := entered.promote
        (Lanes.update_ordered ordered cue.pitch fun _ same => same)
        (Lanes.update_ordered arranged cue.pitch fun _ same => same) cue.pitch id
      simp only [if_pos begun]
      refine ⟨?_, promoted.alike.ensureSweep, rfl⟩
      exact alike.voiceEffects id cue voice (alike.lanes.active cue.pitch)
    · simp only [if_neg begun]
      refine ⟨?_, (entered.setTimer steady.ranked.sorted firm.ranked.sorted id _ rfl).ensureSweep,
        rfl⟩
      exact alike.voiceEffects id cue voice rfl

/-- A note is dropped, put off or prepared on both sides. -/
theorem place (alike : one.Attuned listener other) (steady : one.Steady) (firm : other.Steady)
    (id : NoteId) (note : Note α) :
    Matches listener (one.placeEffects id note) (other.placeEffects id note)
      (one.place id note) (other.place id note) := by
  unfold Scheduler.place placeEffects
  rw [← alike.now, ← alike.leadTime]
  -- Both decide by the same clock and the same lead.
  by_cases ended : note.finish < one.now
  · simp only [if_pos ended]
    exact ⟨rfl, alike, rfl⟩
  · simp only [if_neg ended]
    by_cases far : one.now + 2.0 * one.settings.leadTime < note.start
    · simp only [if_pos far]
      exact ⟨rfl, alike.setTimer steady.ranked.sorted firm.ranked.sorted id _ rfl, rfl⟩
    · simp only [if_neg far]
      exact (alike.prepare steady firm id note.cue).map (Except.map fun _ => some id)

end Attuned

omit [ExactScalar α] in
/-- A pitch with a velocity in range is prepared under a number of its own. -/
theorem playPitch_eq [Analytic α] (scheduler : Scheduler γ α) (pitch : Pitch) {velocity : α}
    (checked : Note.checkVelocity velocity = .ok ()) :
    let cue := scheduler.heldCue pitch velocity
    let prepared := scheduler.freshId.1.prepare scheduler.freshId.2 cue.pitch cue.start
      cue.finish cue.velocity cue.pan
    scheduler.playPitchEffects pitch velocity =
        scheduler.freshId.1.prepareEffects scheduler.freshId.2 cue ∧
      scheduler.playPitch pitch velocity =
        (prepared.1, prepared.2.map fun _ => scheduler.freshId.2) := by
  simp only [Scheduler.playPitch, playPitchEffects, checked]
  exact ⟨trivial, rfl⟩

/-- A note that is cancelled leaves the lanes unheard, and what it waits for is taken back. -/
theorem Coherent.cancel_told {rules : Rules α} (coherent : Coherent rules one) (id : NoteId) :
    listener.heard (one.cancelEffects id) = [] ∧ ∃ (effects : List (Effect α)) (lanes : Lanes α)
      (journal : List Notice), (one.cancel id).1 = (one.unset id).told effects lanes journal ∧
        listener.heard effects = [] ∧
        ∀ pitch, lanes.laneOf pitch = (one.lanes.laneOf pitch).without id := by
  have ordered := coherent.regular.ordered
  have timer := coherent.dropTimer_eq id
  have lanes : (one.dropTimer id).1.lanes = one.lanes := by rw [timer]; rfl
  simp only [cancel, dropVoice, cancelEffects, lanes]
  cases taken : one.lanes.take? id with
  | none =>
    refine ⟨rfl, [], one.lanes, one.journal, timer, rfl, fun pitch => ?_⟩
    -- The note is in no lane, so every lane stays as it is.
    have absent : (one.lanes.laneOf pitch).take? id = none := by
      refine Lane.take?_eq_none.mpr fun slot member => ?_
      exact Lanes.take?_eq_none.mp taken slot
        ((Lanes.slots_perm_laneOf ordered pitch).mem_iff.mpr (List.mem_append_left _ member))
    exact (Lane.without_eq_self absent).symm
  | some pair =>
    obtain ⟨entry, rest⟩ := pair
    simp only [timer]
    have silent := listener.heard_destroys [entry] (fun _ => id)
    exact ⟨silent, [.commanded id entry.id entry.voice .destroy], rest, _, rfl, silent,
      Lanes.laneOf_take? ordered coherent.distinct taken⟩

namespace Attuned

/-- A note is cancelled on both sides, and nothing is heard of it. -/
theorem cancel (alike : one.Attuned listener other) (steady : one.Steady) (firm : other.Steady)
    (id : NoteId) :
    listener.heard (one.cancelEffects id) = [] ∧ listener.heard (other.cancelEffects id) = [] ∧
      (one.cancel id).1.Attuned listener (other.cancel id).1 := by
  obtain ⟨silent, first, lanes, journal, reached, unheard, left⟩ := steady.coherent.cancel_told id
  obtain ⟨quiet, second, others, notices, arrived, unsaid, rest⟩ := firm.coherent.cancel_told id
  refine ⟨silent, quiet, ?_⟩
  rw [reached, arrived]
  exact (alike.unset id).told (unheard.trans unsaid.symm) (alike.lanes.without id left rest)

/-- A number is given out on both sides. -/
theorem freshId (alike : one.Attuned listener other) :
    one.freshId.1.Attuned listener other.freshId.1 :=
  { alike with nextId := congrArg (· + 1) alike.nextId }

/-- A note is scheduled on both sides. -/
theorem schedule (alike : one.Attuned listener other) (steady : one.Steady) (firm : other.Steady)
    (note : Note α) (id? : Option NoteId) :
    Matches listener (one.scheduleEffects note id?) (other.scheduleEffects note id?)
      (one.schedule note id?) (other.schedule note id?) := by
  cases id? with
  | some id =>
    -- What the number stood for goes unheard on both sides before the note is placed.
    obtain ⟨silent, quiet, cancelled⟩ := alike.cancel steady firm id
    have placed := cancelled.place
      (steady.moves (.single (steady.coherent.cancel_move id).1))
      (firm.moves (.single (firm.coherent.cancel_move id).1)) id note
    refine ⟨?_, placed.alike, placed.answer⟩
    rw [scheduleEffects, scheduleEffects, Listener.heard_append, Listener.heard_append, silent,
      quiet]
    exact placed.heard
  | none =>
    have fresh : one.freshId.2 = other.freshId.2 := congrArg NoteId.mk alike.nextId
    have placed := alike.freshId.place (steady.moves (.single .issue))
      (firm.moves (.single .issue)) one.freshId.2 note
    show Matches listener (one.freshId.1.placeEffects _ note) (other.freshId.1.placeEffects _ note)
      (one.freshId.1.place _ note) (other.freshId.1.place other.freshId.2 note)
    rw [← fresh]
    exact placed

/-- A pitch is sounded on both sides. -/
theorem playPitch (alike : one.Attuned listener other) (steady : one.Steady) (firm : other.Steady)
    (pitch : Pitch) (velocity : α) :
    Matches listener (one.playPitchEffects pitch velocity) (other.playPitchEffects pitch velocity)
      (one.playPitch pitch velocity) (other.playPitch pitch velocity) := by
  -- Both check the velocity first, and then give out the same number.
  cases checked : Note.checkVelocity velocity with
  | error cause =>
    simp only [Scheduler.playPitch, playPitchEffects, checked]
    exact ⟨rfl, alike, rfl⟩
  | ok _ =>
    have fresh : one.freshId.2 = other.freshId.2 := congrArg NoteId.mk alike.nextId
    have held : one.heldCue pitch velocity = other.heldCue pitch velocity := by
      rw [heldCue, heldCue, alike.now]
    have prepared := alike.freshId.prepare (steady.moves (.single .issue))
      (firm.moves (.single .issue)) one.freshId.2 (one.heldCue pitch velocity)
    have sounded := prepared.map (Except.map fun _ => one.freshId.2)
    obtain ⟨effects, reached⟩ := one.playPitch_eq pitch checked
    obtain ⟨heard, arrived⟩ := other.playPitch_eq pitch checked
    rw [effects, reached, heard, arrived, ← fresh, ← held]
    exact sounded

end Attuned

/-- Fading out the note that sounds in a lane leaves the lane with notes to come only. -/
theorem releaseLane_told (ordered : one.lanes.Ordered) {lane : Lane α}
    (here : one.lanes.laneOf lane.pitch = lane) :
    (one.releaseLane lane).2 = lane.active.any (·.finish.isAfter one.now) ∧
    ∃ lanes journal,
      (one.releaseLane lane).1 = one.told (one.releaseLaneEffects lane) lanes journal ∧
      Lanes.Ordered lanes ∧
      (lanes.laneOf lane.pitch).expire one.now = lane.vacated ∧
      ∀ pitch, pitch ≠ lane.pitch → lanes.laneOf pitch = one.lanes.laneOf pitch := by
  unfold releaseLane releaseLaneEffects Scheduler.fadeEffects
  cases seated : lane.active with
  | none =>
    refine ⟨rfl, one.lanes, one.journal, rfl, ordered, ?_, fun _ _ => rfl⟩
    rw [here, Lane.expire_eq, seated]
    rfl
  | some entry =>
    by_cases sounds : entry.finish.isAfter one.now = true
    · -- The entry that keeps the seat ends now, so it is forgotten.
      simp only [if_pos sounds, Option.filter_some]
      refine ⟨by simp [sounds], one.lanes.update lane.pitch fun lane =>
          { lane with active := some { entry with finish := .at one.now } }, _, rfl,
        Lanes.update_ordered ordered lane.pitch fun _ same => same, ?_, fun pitch apart =>
          Lanes.laneOf_update_of_ne _ apart fun _ same => same⟩
      rw [Lanes.laneOf_update ordered lane.pitch, here]
      · simp [Lane.expire_eq, Lane.vacated, Option.filter_some, Ending.isReached]
      · exact fun _ same => same
    · -- An entry that has ended is forgotten as it is.
      simp only [if_neg sounds, Option.filter_some]
      refine ⟨by simp [sounds], one.lanes, one.journal, rfl, ordered, ?_, fun _ _ => rfl⟩
      have ended : entry.finish.isReached one.now = true := by
        simpa [Ending.isAfter_eq] using sounds
      rw [here, Lane.expire_eq, seated, Option.filter_some, ended]
      rfl

/-- Fading out the note that sounds for a pitch leaves its lane with notes to come only. -/
theorem releasePitch_told (ordered : one.lanes.Ordered) (pitch : Pitch) :
    one.releasePitchEffects pitch = one.fadeEffects Entry.id (one.lanes.laneOf pitch).active ∧
    (one.releasePitch pitch).2 = (one.lanes.laneOf pitch).active.any (·.finish.isAfter one.now) ∧
    ∃ lanes journal, (one.releasePitch pitch).1 =
        one.told (one.releasePitchEffects pitch) lanes journal ∧
      (Lanes.laneOf lanes pitch).expire one.now = (one.lanes.laneOf pitch).vacated ∧
      ∀ place, place ≠ pitch → lanes.laneOf place = one.lanes.laneOf place := by
  unfold releasePitch releasePitchEffects
  -- Without a lane there is nothing to release.
  cases found : one.lanes.find? pitch with
  | none =>
    have bare : one.lanes.laneOf pitch = ⟨pitch, none, []⟩ := by rw [Lanes.laneOf, found]; rfl
    refine ⟨by rw [bare]; rfl, by rw [bare]; rfl, one.lanes, one.journal, rfl, ?_, fun _ _ => rfl⟩
    rw [bare]
    rfl
  | some lane =>
    have here : one.lanes.laneOf pitch = lane := by rw [Lanes.laneOf, found]; rfl
    have pitched : lane.pitch = pitch := here ▸ Lanes.laneOf_pitch one.lanes pitch
    subst pitched
    obtain ⟨answer, lanes, journal, told, _, left, others⟩ := one.releaseLane_told ordered here
    simp only [Option.toList_some, List.flatMap_cons, List.flatMap_nil, List.append_nil, here]
    exact ⟨rfl, answer, lanes, journal, told, left, others⟩

/-- Fading out the notes of some lanes leaves those with notes to come only. -/
theorem releaseLanes_told (scheduler : Scheduler γ α) {later : Lanes α} (sorted : later.Ordered)
    (ordered : one.lanes.Ordered) (now : one.now = scheduler.now)
    (settings : one.settings = scheduler.settings)
    (present : ∀ lane ∈ later, one.lanes.laneOf lane.pitch = lane) :
    ∃ lanes journal, later.foldl (fun scheduler lane => (scheduler.releaseLane lane).1) one =
        one.told (later.flatMap scheduler.releaseLaneEffects) lanes journal ∧
      (∀ lane ∈ later, (Lanes.laneOf lanes lane.pitch).expire scheduler.now = lane.vacated) ∧
      ∀ pitch, (∀ lane ∈ later, lane.pitch ≠ pitch) →
        lanes.laneOf pitch = one.lanes.laneOf pitch := by
  -- The lanes still ahead are untouched, so what was read of them at first still holds.
  induction later generalizing one with
  | nil => exact ⟨one.lanes, one.journal, rfl, by simp, fun _ _ => rfl⟩
  | cons lane later ih =>
    obtain ⟨_, first, journal, told, kept, left, others⟩ :=
      one.releaseLane_told ordered (present lane (List.mem_cons_self ..))
    have effects := releaseLaneEffects_congr now settings lane
    have apart : ∀ next ∈ later, next.pitch ≠ lane.pitch := fun next member =>
      Lanes.ne_of_ordered sorted member (Or.inl rfl)
    have ahead : ∀ next ∈ later, first.laneOf next.pitch = next := fun next member =>
      (others next.pitch (apart next member)).trans
        (present next (List.mem_cons_of_mem _ member))
    obtain ⟨lanes, notices, reached, released, untouched⟩ :=
      @ih (one.told (scheduler.releaseLaneEffects lane) first journal)
        (List.Pairwise.of_cons sorted) kept now settings ahead
    refine ⟨lanes, notices, ?_, ?_, ?_⟩
    · rw [List.foldl_cons, told, effects, reached, told_told]
      rfl
    · intro next member
      rcases List.mem_cons.mp member with rfl | inside
      · rw [untouched _ apart, ← now]
        exact left
      · exact released next inside
    · intro pitch absent
      rw [untouched pitch fun next member => absent next (List.mem_cons_of_mem _ member)]
      exact others pitch (absent lane (List.mem_cons_self ..)).symm

/-- Fading out every note that sounds leaves the lanes with notes to come only. -/
theorem releaseAll_told (ordered : one.lanes.Ordered) :
    ∃ lanes journal, one.releaseAll = one.told one.releaseAllEffects lanes journal ∧
      ∀ pitch, (Lanes.laneOf lanes pitch).expire one.now =
        (one.lanes.laneOf pitch).vacated := by
  obtain ⟨lanes, journal, reached, released, untouched⟩ := releaseLanes_told one ordered ordered
    rfl rfl fun lane member => Lanes.laneOf_of_mem ordered member
  refine ⟨lanes, journal, reached, fun pitch => ?_⟩
  by_cases present : ∃ lane ∈ one.lanes, lane.pitch = pitch
  · obtain ⟨lane, member, rfl⟩ := present
    rw [released lane member, Lanes.laneOf_of_mem ordered member]
  · -- A pitch without a lane has nothing to be faded out.
    have absent : ∀ lane ∈ one.lanes, lane.pitch ≠ pitch := fun lane member same =>
      present ⟨lane, member, same⟩
    rw [untouched pitch absent, Lanes.laneOf_of_forall_ne absent]
    rfl

omit [ToneGenerator γ α] in
/-- What is faded out can be read off the lanes without the notes that have ended. -/
theorem releaseAllEffects_eq (scheduler : Scheduler γ α) : scheduler.releaseAllEffects =
    (scheduler.lanes.expire scheduler.now).flatMap scheduler.releaseLaneEffects := by
  unfold releaseAllEffects
  induction scheduler.lanes with
  | nil => rfl
  | cons lane later ih =>
    -- A note that has ended is not faded out, nor is any in a lane that is empty.
    have single : scheduler.releaseLaneEffects lane =
        scheduler.releaseLaneEffects (lane.expire scheduler.now) := by
      simp [releaseLaneEffects, fadeEffects, Ending.isAfter_eq, Lane.expire_eq,
        Option.filter_filter]
    rw [Lanes.expire_cons, List.flatMap_cons, ih, single]
    by_cases bare : (lane.expire scheduler.now).isEmpty = true
    · rw [if_pos bare, Lane.eq_of_isEmpty bare]
      rfl
    · rw [if_neg bare, List.flatMap_cons]

namespace Attuned

/-- The note that sounds for a pitch is faded out on both sides. -/
theorem releasePitch (alike : one.Attuned listener other) (steady : one.Steady)
    (firm : other.Steady) (pitch : Pitch) :
    listener.heard (one.releasePitchEffects pitch) =
        listener.heard (other.releasePitchEffects pitch) ∧
      (one.releasePitch pitch).1.Attuned listener (other.releasePitch pitch).1 := by
  obtain ⟨effects, _, lanes, journal, told, left, others⟩ :=
    one.releasePitch_told steady.coherent.regular.ordered pitch
  obtain ⟨heard, _, rest, notices, reached, kept, untouched⟩ :=
    other.releasePitch_told firm.coherent.regular.ordered pitch
  have same : listener.heard (one.releasePitchEffects pitch) =
      listener.heard (other.releasePitchEffects pitch) := by
    rw [effects, heard, alike.fadeEffects Entry.id (alike.lanes.active pitch)]
  refine ⟨same, ?_⟩
  rw [← alike.now] at kept
  rw [told, reached]
  refine alike.told same fun place => ?_
  by_cases here : place = pitch
  · -- The notes to come are what is left on either side.
    rw [here, listener.seen_of_expire left, listener.seen_of_expire kept,
      alike.lanes.vacated pitch]
  · rw [others place here, untouched place here, alike.lanes place]

/-- There is a note to be faded out for a pitch if there is one that has not ended. -/
theorem released (alike : one.Attuned .full other) (steady : one.Steady) (firm : other.Steady)
    (pitch : Pitch) : (one.releasePitch pitch).2 = (other.releasePitch pitch).2 := by
  -- A release answers whether the active note ends later, and both sides have the same one.
  obtain ⟨_, answer, _⟩ := one.releasePitch_told steady.coherent.regular.ordered pitch
  obtain ⟨_, reply, _⟩ := other.releasePitch_told firm.coherent.regular.ordered pitch
  have seated : (one.lanes.laneOf pitch).active.filter (!·.finish.isReached one.now) =
      (other.lanes.laneOf pitch).active.filter (!·.finish.isReached one.now) :=
    alike.lanes.active pitch
  rw [answer, reply, Entry.any_isAfter, Entry.any_isAfter, seated, alike.now]

/-- Every note that sounds is faded out on both sides. -/
theorem releaseAll (alike : one.Attuned .full other) (steady : one.Steady)
    (firm : other.Steady) :
    Listener.full.heard one.releaseAllEffects = Listener.full.heard other.releaseAllEffects ∧
      one.releaseAll.Attuned .full other.releaseAll := by
  obtain ⟨lanes, journal, told, left⟩ := one.releaseAll_told steady.coherent.regular.ordered
  obtain ⟨rest, notices, reached, kept⟩ := other.releaseAll_told firm.coherent.regular.ordered
  have same : Listener.full.heard one.releaseAllEffects =
      Listener.full.heard other.releaseAllEffects := by
    have single : ∀ lane, Listener.full.heard (one.releaseLaneEffects lane) =
        Listener.full.heard (other.releaseLaneEffects lane) :=
      fun lane => alike.fadeEffects Entry.id rfl
    -- What is left when the notes that have ended are forgotten is the same.
    have lanes := Lanes.Agree.expire_eq alike.lanes steady.coherent.regular firm.coherent.regular
    rw [releaseAllEffects_eq, releaseAllEffects_eq, ← alike.now, lanes]
    simp only [Listener.heard, List.filter_flatMap] at single ⊢
    simp only [single]
  refine ⟨same, ?_⟩
  rw [← alike.now] at kept
  rw [told, reached]
  refine alike.told same fun pitch => ?_
  rw [Listener.seen_of_expire _ (left pitch), Listener.seen_of_expire _ (kept pitch),
    alike.lanes.vacated pitch]

/-- Every note is dropped on both sides. -/
theorem cancelAll (alike : one.Attuned listener other) :
    Matches listener one.cancelAllEffects other.cancelAllEffects
      (one.cancelAll, ()) (other.cancelAll, ()) := by
  -- Which entries are destroyed does not depend on the order of the lanes.
  have same : listener.heard one.cancelAllEffects = listener.heard other.cancelAllEffects := by
    rw [cancelAllEffects, cancelAllEffects, listener.heard_destroys _ Entry.id,
      listener.heard_destroys _ Entry.id]
  obtain ⟨journal, told⟩ := one.cancelAll_eq
  obtain ⟨notices, reached⟩ := other.cancelAll_eq
  refine ⟨same, ?_, rfl⟩
  rw [told, reached]
  have emptied : (one.told one.cancelAllEffects [] journal).Attuned listener
      (other.told other.cancelAllEffects [] notices) := alike.told same fun _ => rfl
  refine { emptied with timers := ?_ }
  show Timers.plans one.timers.dropNotes.queue = Timers.plans other.timers.dropNotes.queue
  rw [Timers.plans_dropNotes, Timers.plans_dropNotes]

/-- Time passes on both sides. -/
theorem setClock (alike : one.Attuned listener other) {now : α} (passes : one.now ≤ now) :
    (one.setClock now).Attuned listener (other.setClock now) :=
  { alike with now := rfl, lanes := alike.lanes.weaken fun _ => listener.before passes }

end Attuned

end Melody.Scheduler
