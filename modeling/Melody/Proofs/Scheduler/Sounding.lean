import Melody.Proofs.Scalar.Order
import Melody.Proofs.Scheduler.Ownership
import Melody.Proofs.Scheduler.Steps

/-! No voice is left to sound and forgotten while the clock does not run into infinity. -/

namespace Melody

namespace Ending

variable {α : Type} [Scalar α]

/-- An end that is not reached before infinity is. -/
def Endless : Ending α → Prop
  | .at time => time ≤ time ∧ Scalar.isFinite time = false ∧ 0.0 < time
  | .never => True

/-- An end that is a finite number, infinity or open. -/
def Proper : Ending α → Prop
  | .at time => time ≤ time ∧ (Scalar.isFinite time = true ∨ 0.0 < time)
  | .never => True

instance (ending : Ending α) : Decidable ending.Proper :=
  match ending with
  | .at time =>
    inferInstanceAs (Decidable (time ≤ time ∧ (Scalar.isFinite time = true ∨ 0.0 < time)))
  | .never => .isTrue trivial

/-- An ending is at a finite time when it says so. -/
theorem finite?_eq_some {ending : Ending α} {time : α} :
    ending.finite? = some time ↔ ending = .at time ∧ Scalar.isFinite time = true := by
  cases ending with
  | never => simp [finite?]
  | «at» end_ =>
    -- An end at a time counts exactly if that time is finite.
    by_cases finite : Scalar.isFinite end_ = true
    · simp only [finite?, if_pos finite, Option.some.injEq, Ending.at.injEq]
      exact ⟨fun same => ⟨same, same ▸ finite⟩, And.left⟩
    · simp only [finite?, if_neg finite, reduceCtorEq, Ending.at.injEq, false_iff, not_and]
      exact fun same bounded => finite (same ▸ bounded)

end Ending

/-- A clock that shows a number short of infinity. -/
def Clocked {α : Type} [Scalar α] (now : α) : Prop :=
  now ≤ now ∧ Ending.never.isAfter now = true

instance {α : Type} [Scalar α] (now : α) : Decidable (Clocked now) :=
  inferInstanceAs (Decidable (now ≤ now ∧ Ending.never.isAfter now = true))

/-- A request whose end is proper and that does not put a clock back. -/
def Request.Forward {α : Type} [Scalar α] (now : α) : Request α → Prop
  | .schedule note _ => (Ending.at note.finish).Proper
  | .setClock next => now ≤ next
  | _ => True

instance {α : Type} [Scalar α] (now : α) : DecidablePred (Request.Forward now) := fun request =>
  match request with
  | .schedule note _ => inferInstanceAs (Decidable (Ending.at note.finish).Proper)
  | .setClock next => inferInstanceAs (Decidable (now ≤ next))
  | .playPitch .. | .releasePitch _ | .releaseAll | .cancel _ | .cancelAll | .advance =>
    .isTrue trivial

/-- A request that does not put the clock to infinity. -/
def Request.Bounded {α : Type} [Scalar α] : Request α → Prop
  | .setClock next => Ending.never.isAfter next = true
  | _ => True

instance {α : Type} [Scalar α] : DecidablePred (@Request.Bounded α _) := fun request =>
  match request with
  | .setClock next => inferInstanceAs (Decidable (Ending.never.isAfter next = true))
  | .schedule .. | .playPitch .. | .releasePitch _ | .releaseAll | .cancel _ | .cancelAll
  | .advance => .isTrue trivial

section Reaching

variable {α : Type} [Scalar α] {now : α} {ending : Ending α}

/-- A proper end that is not finite is endless. -/
theorem Ending.Proper.endless (proper : ending.Proper) (unplanned : ending.finite? = none) :
    ending.Endless := by
  cases ending with
  | never => trivial
  | «at» time =>
    -- The time is no finite one, so it is proper by lying above zero.
    have infinite : Scalar.isFinite time = false := by simpa [Ending.finite?] using unplanned
    obtain ⟨number, finite | above⟩ := proper
    · rw [infinite] at finite
      contradiction
    · exact ⟨number, infinite, above⟩

variable [OrderedScalar α]

/-- An endless note lies ahead of the clock. -/
theorem Clocked.isAfter (clocked : Clocked now) (endless : ending.Endless) :
    ending.isAfter now = true ∧ ending.isReached now = false := by
  have bounded : Scalar.isFinite now = true ∨ now < 0.0 := by
    simpa [Ending.isAfter] using clocked.2
  cases ending with
  | never =>
    refine ⟨clocked.2, ?_⟩
    rcases bounded with finite | below
    · simp [Ending.isReached, finite]
    · simp [Ending.isReached, OrderedScalar.lt_asymm below]
  | «at» time =>
    -- What is finite or below zero does not reach the end of the line.
    obtain ⟨number, infinite, above⟩ := endless
    have apart := OrderedScalar.not_le_of_endless infinite above bounded
    have ahead : now < time := by
      by_contra reached
      exact apart (OrderedScalar.le_of_not_lt clocked.1 number reached)
    exact ⟨by simpa [Ending.isAfter] using ahead, by simpa [Ending.isReached] using apart⟩

end Reaching

namespace Scheduler

variable {α : Type} [Analytic α]

/-- The last release of an entry's voice is at the end of the entry, which is endless otherwise. -/
def Settled (recorder : Recorder α) (entry : Entry α) : Prop :=
  (∃ time, entry.finish = .at time ∧ time ≤ time ∧
    recorder.lastRelease? entry.voice = some time) ∨
  (entry.finish.Endless ∧ recorder.lastRelease? entry.voice = none)

/-- A voice has been destroyed, or it has been released by now and not again later. -/
def Silenced (now : α) (recorder : Recorder α) (voice : Nat) : Prop :=
  0 < recorder.destroyCount voice ∨ ∃ time, recorder.lastRelease? voice = some time ∧ time ≤ now

/-- Every voice is the settled one of an entry or has been silenced. -/
structure Accounted (now : α) (recorder : Recorder α) (entries : List (Entry α)) : Prop
    extends Owned recorder entries where
  settled : ∀ entry ∈ entries, Settled recorder entry
  silenced : ∀ voice < recorder.created, (∀ entry ∈ entries, entry.voice ≠ voice) →
    Silenced now recorder voice

/-- What is written down of other voices does not matter to an entry. -/
theorem Settled.add {recorder : Recorder α} {entry : Entry α} (settled : Settled recorder entry)
    {records : List (Record α)} (others : ∀ record ∈ records, record.voice ≠ entry.voice) :
    Settled (recorder.add records) entry := by
  rw [Settled, Recorder.lastRelease?_add_other _ others]
  exact settled

/-- A silenced voice stays so if the record goes on about others. -/
theorem Silenced.add {now : α} {recorder : Recorder α} {voice : Nat}
    (silenced : Silenced now recorder voice) {records : List (Record α)}
    (others : ∀ record ∈ records, record.voice ≠ voice) :
    Silenced now (recorder.add records) voice := by
  rw [Silenced, Recorder.lastRelease?_add_other _ others, Recorder.destroyCount_add_other _ others]
  exact silenced

namespace Accounted

variable {rules : Rules α} {settings : Settings α} {now : α} {recorder : Recorder α}
  {entries : List (Entry α)}

/-- An entry may leave when its voice has been silenced. -/
theorem leave {entry : Entry α} (accounted : Accounted now recorder (entry :: entries))
    {records : List (Record α)} (about : ∀ record ∈ records, record.voice = entry.voice)
    (silenced : Silenced now (recorder.add records) entry.voice) :
    Accounted now (recorder.add records) entries where
  toOwned := accounted.toOwned.leave about
  settled other member := by
    refine (accounted.settled other (List.mem_cons_of_mem _ member)).add fun record inside => ?_
    exact about record inside ▸ accounted.voice_ne member
  silenced voice known apart := by
    -- The voice is that of the entry, or one that was accounted for before.
    by_cases own : entry.voice = voice
    · exact own ▸ silenced
    · refine (accounted.silenced voice known fun other member => ?_).add fun record inside =>
        about record inside ▸ own
      rcases List.mem_cons.mp member with rfl | inside
      · exact own
      · exact apart other inside

/-- A voice that is created with a proper end enters as a settled one. -/
theorem enter {entry : Entry α} (accounted : Accounted now recorder entries)
    (proper : entry.finish.Proper) (numbered : entry.voice = recorder.created)
    {records : List (Record α)} (about : ∀ record ∈ records, record.voice = entry.voice)
    (alive : ∀ record ∈ records, record.destroys entry.voice = false)
    (planned : records.filterMap (·.release? entry.voice) = entry.finish.finite?.toList) :
    Accounted now { recorder.add records with
      attempts := recorder.attempts + 1, created := recorder.created + 1 } (entry :: entries) where
  toOwned := accounted.toOwned.enter numbered about alive
  settled other member := by
    rcases List.mem_cons.mp member with rfl | inside
    · -- Nothing was written down of the voice before its planned release.
      have before : recorder.lastRelease? other.voice = none := by
        rw [Recorder.lastRelease?, List.filterMap_eq_nil_iff.mpr, List.getLast?_nil]
        exact fun record old =>
          Record.release?_eq_none (numbered ▸ accounted.voice_ne_created old)
      have last : (recorder.add records).lastRelease? other.voice = other.finish.finite? := by
        rw [Recorder.lastRelease?_add, planned, before]
        cases other.finish.finite? <;> rfl
      cases finite : other.finish.finite? with
      | none => exact Or.inr ⟨proper.endless finite, last.trans finite⟩
      | some time =>
        obtain ⟨finish, _⟩ := Ending.finite?_eq_some.mp finite
        rw [finish] at proper
        exact Or.inl ⟨time, finish, proper.1, last.trans finite⟩
    · -- The lines are about the new voice, which no older entry has.
      refine (accounted.settled other inside).add fun record new => ?_
      rw [about record new, numbered]
      exact Nat.ne_of_gt (accounted.known other inside)
  silenced voice known apart := by
    -- A voice without an entry is not the new one, so it was there before.
    have own : entry.voice ≠ voice := apart entry (List.mem_cons_self ..)
    have older : voice < recorder.created := by
      have known : voice < recorder.created + 1 := known
      omega
    refine (accounted.silenced voice older fun other member =>
      apart other (List.mem_cons_of_mem _ member)).add fun record new => ?_
    exact about record new ▸ own

/-- What has been silenced by now stays so while the clock goes on. -/
theorem later [OrderedScalar α] (accounted : Accounted now recorder entries) {next : α}
    (forward : now ≤ next) : Accounted next recorder entries where
  toOwned := accounted.toOwned
  settled := accounted.settled
  silenced voice known apart := by
    -- What is past stays past as the clock goes on.
    rcases accounted.silenced voice known apart with destroyed | ⟨time, last, past⟩
    · exact Or.inl destroyed
    · exact Or.inr ⟨time, last, OrderedScalar.le_trans past forward⟩

/-- A settled entry that is over has a voice that was released by now. -/
theorem released_of_ended [OrderedScalar α] (clocked : Clocked now) {entry : Entry α}
    (settled : Settled recorder entry)
    (ended : entry.finish.isAfter now = false ∨ entry.finish.isReached now = true) :
    Silenced now recorder entry.voice := by
  rcases settled with ⟨time, finish, number, last⟩ | ⟨endless, _⟩
  · -- The last release was at the end of the entry, which the clock has passed or reached.
    refine Or.inr ⟨time, last, ?_⟩
    rw [finish] at ended
    rcases ended with passed | reached
    · exact OrderedScalar.le_of_not_lt clocked.1 number (by simpa [Ending.isAfter] using passed)
    · simpa [Ending.isReached] using reached
  · -- An endless entry is never over.
    obtain ⟨ahead, unreached⟩ := clocked.isAfter endless
    rw [ahead, unreached] at ended
    rcases ended with impossible | impossible <;> contradiction

/-- Every hand-over leaves all voices accounted for. -/
theorem handover [OrderedScalar α] (clocked : Clocked now)
    (proper : ∀ id cue, rules.fit id cue → cue.finish.Proper)
    {before after : Recorder α × List (Entry α)}
    (accounted : Accounted now before.1 before.2)
    (step : Handover rules settings now before after) :
    Accounted now after.1 after.2 := by
  have owned := accounted.toOwned.handover step
  cases step with
  | swap perm =>
    exact { owned with
      settled := fun entry member => accounted.settled entry (perm.mem_iff.mpr member)
      silenced := fun voice known apart => accounted.silenced voice known fun entry member =>
        apart entry (perm.mem_iff.mp member) }
  | refuse =>
    exact { owned with settled := accounted.settled, silenced := accounted.silenced }
  | enter fit finish =>
    exact accounted.enter (finish ▸ proper _ _ fit) rfl (voice_of_mem_opening _ _ _)
      (destroys_of_mem_opening _ _ _) (release?_opening ..)
  | destroy =>
    -- The voice falls silent by being destroyed.
    refine accounted.leave (by simp [Record.voice]) (Or.inl ?_)
    rw [Recorder.destroyCount_add]
    simp [Record.destroys]
  | displace sounds =>
    -- The voice falls silent by being released now.
    refine accounted.leave (by simp [Record.voice]) (Or.inr ⟨now, ?_, clocked.1⟩)
    rw [Recorder.lastRelease?_add]
    simp [Record.release?]
  | @fade recorder entries entry sounds =>
    -- The end moves to now together with the release, so the entry stays settled.
    have about : ∀ record ∈ [Record.commanded entry.voice (.release now (fading settings entry))],
        record.voice = entry.voice := by simp [Record.voice]
    have last : (recorder.add [.commanded entry.voice
        (.release now (fading settings entry))]).lastRelease? entry.voice = some now := by
      rw [Recorder.lastRelease?_add]
      simp [Record.release?]
    have others := accounted.leave about (Or.inr ⟨now, last, clocked.1⟩)
    refine { owned with settled := ?_, silenced := ?_ }
    · intro other member
      rcases List.mem_cons.mp member with rfl | inside
      · exact Or.inl ⟨now, rfl, clocked.1, last⟩
      · exact others.settled other inside
    · exact fun voice known apart => others.silenced voice known fun other member =>
        apart other (List.mem_cons_of_mem _ member)
  | @forget recorder entries entry ended =>
    -- Nothing is written down, and the voice was released when the entry ended.
    have about : ∀ record ∈ ([] : List (Record α)), record.voice = entry.voice := by simp
    have silenced := released_of_ended clocked
      (accounted.settled entry (List.mem_cons_self ..)) ended
    have left := accounted.leave about (by simpa [Recorder.add] using silenced)
    simpa [Recorder.add] using left

/-- Handing over voices leaves all of them accounted for. -/
theorem handovers [OrderedScalar α] (clocked : Clocked now)
    (proper : ∀ id cue, rules.fit id cue → cue.finish.Proper)
    {before after : Recorder α × List (Entry α)}
    (accounted : Accounted now before.1 before.2)
    (steps : Handovers rules settings now before after) :
    Accounted now after.1 after.2 := by
  induction steps with
  | refl => exact accounted
  | tail _ step ih => exact ih.handover clocked proper step

end Accounted

/-- The rules that every end is proper and that the clock goes on, short of infinity. -/
def timed : Rules α where
  fit _ cue := cue.finish.Proper
  ticks now next := now ≤ next ∧ Ending.never.isAfter next = true

/-- A scheduler with a clock short of infinity that accounts for all voices. -/
def Attended (scheduler : Scheduler (Recorder α) α) : Prop :=
  Clocked scheduler.now ∧ Accounted scheduler.now scheduler.generator scheduler.entries

/-- Every move in time leaves all voices accounted for. -/
theorem Attended.move [OrderedScalar α] {scheduler next : Scheduler (Recorder α) α}
    {effects : List (Effect α)} (attended : scheduler.Attended)
    (move : Move timed scheduler effects next) : next.Attended := by
  obtain ⟨clocked, accounted⟩ := attended
  -- Where the clock moves voices rest, and where voices move the clock does.
  rcases move.handovers with ⟨generator, entries, forward, bounded⟩ | ⟨now, handovers⟩
  · refine ⟨⟨OrderedScalar.number_of_le forward, bounded⟩, ?_⟩
    rw [generator, entries]
    exact accounted.later forward
  · rw [Attended, now]
    exact ⟨clocked, accounted.handovers clocked (fun _ _ fit => fit) handovers⟩

/-- A scheduler without voices accounts for all of them. -/
theorem Attended.initial (admits : Nat → Bool) {now : α} (clocked : Clocked now)
    (settings : Settings α) : (new ({ admits } : Recorder α) now settings).Attended where
  left := clocked
  right := {
    toOwned := .initial admits now settings
    settled := by simp [entries, new, slots, Lanes.slots]
    silenced := fun voice known => absurd known (Nat.not_lt_zero voice) }

/-- Each voice is that of one entry and sounds on, or is that of none and falls silent. -/
structure Remembered (scheduler : Scheduler (Recorder α) α) : Prop where
  /-- A voice is not destroyed and held once, or it is not held and was destroyed or released. -/
  voices : ∀ voice tone, .created voice tone ∈ scheduler.generator.records →
    (scheduler.generator.destroyCount voice = 0 ∧
      ((scheduler.lanes.flatMap Lane.entries).map Entry.voice).count voice = 1) ∨
    (voice ∉ (scheduler.lanes.flatMap Lane.entries).map Entry.voice ∧
      (0 < scheduler.generator.destroyCount voice ∨
        ∃ time, scheduler.generator.lastRelease? voice = some time ∧ time ≤ scheduler.now))
  /-- An entry that ends at a finite time was released at just that time, and not again later. -/
  ends : ∀ entry ∈ scheduler.lanes.flatMap Lane.entries, ∀ time, entry.finish = .at time →
    Scalar.isFinite time = true → scheduler.generator.lastRelease? entry.voice = some time

/-- What is attended to is remembered. -/
theorem Attended.remembered {scheduler : Scheduler (Recorder α) α} (attended : scheduler.Attended) :
    scheduler.Remembered where
  voices voice tone created := by
    obtain ⟨_, accounted⟩ := attended
    rw [← Lanes.slots_entries]
    by_cases held : ∃ entry ∈ scheduler.entries, entry.voice = voice
    · -- The voice is that of an entry, which is alive and the only one with it.
      obtain ⟨entry, member, rfl⟩ := held
      exact Or.inl ⟨accounted.alive entry member,
        List.count_eq_one_of_mem accounted.single (List.mem_map_of_mem member)⟩
    · -- No entry has the voice, so it was created and has been silenced.
      have apart : ∀ entry ∈ scheduler.entries, entry.voice ≠ voice := by simpa using held
      have known : voice < scheduler.generator.created := accounted.recorded _ created
      refine Or.inr ⟨fun member => ?_, accounted.silenced voice known apart⟩
      obtain ⟨entry, inside, same⟩ := List.mem_map.mp member
      exact apart entry inside same
  ends entry member time finish finite := by
    rw [← Lanes.slots_entries] at member
    -- An entry with a finite end is settled by its release, not by being endless.
    rcases attended.2.settled entry member with ⟨end_, same, _, last⟩ | ⟨endless, _⟩
    · rw [finish, Ending.at.injEq] at same
      exact same ▸ last
    · rw [finish] at endless
      rw [endless.2.1] at finite
      contradiction

/-- Numbers that were given out, ends that are proper and a clock that does not go back. -/
def Forward (scheduler : Scheduler (Recorder α) α) (request : Request α) : Prop :=
  scheduler.Issued request ∧ request.Forward scheduler.now

instance (scheduler : Scheduler (Recorder α) α) : DecidablePred scheduler.Forward := fun request =>
  inferInstanceAs (Decidable (scheduler.Issued request ∧ request.Forward scheduler.now))

/-- The same with a clock that stays short of infinity. -/
def Timely (scheduler : Scheduler (Recorder α) α) (request : Request α) : Prop :=
  scheduler.Forward request ∧ request.Bounded

instance (scheduler : Scheduler (Recorder α) α) : DecidablePred scheduler.Timely := fun request =>
  inferInstanceAs (Decidable (scheduler.Forward request ∧ request.Bounded))

/-- A timely request obeys the rules of timed notes. -/
theorem Timely.obeys {scheduler : Scheduler (Recorder α) α} {request : Request α}
    (timely : scheduler.Timely request) : scheduler.Obeys timed request := by
  -- Only notes and clocks that a request brings are restricted.
  obtain ⟨⟨issued, forward⟩, bounded⟩ := timely
  refine ⟨issued, ?_⟩
  cases request with
  | schedule note id? => exact forward
  | playPitch pitch velocity => exact fun _ => trivial
  | setClock now => exact ⟨forward, bounded⟩
  | _ => trivial

/-- While the clock goes on short of infinity no voice is left to sound and forgotten. -/
theorem run_remembered (admits : Nat → Bool) {now : Float} (settings : Settings Float)
    (clocked : Clocked now) {requests : List (Request Float)}
    (timely : (new ({ admits } : Recorder Float) now settings).Along Timely requests) :
    ((new ({ admits } : Recorder Float) now settings).run requests).Remembered := by
  -- The run is made of moves in time, each of which leaves all voices accounted for.
  have coherent := Coherent.initial timed ({ admits } : Recorder Float) now settings
  have moves := coherent.run_moves (timely.imp fun _ _ => Timely.obeys)
  exact (moves.induction Attended.move (.initial admits clocked settings)).remembered

/-- A held pitch and two notes cut each other short, one is released, and all are forgotten. -/
theorem run_remembered_released :
    ((new ({ admits := fun attempt => attempt != 1 } : Recorder Float) 0.0 .standard).run
      [.playPitch ⟨60⟩ 1.0, .schedule ⟨⟨60⟩, 0.125, 1.0, 1.0, 0.0⟩ none,
        .schedule ⟨⟨60⟩, 0.125, 1.0, 1.0, 0.0⟩ none, .setClock 0.125, .advance, .setClock 0.5,
        .releasePitch ⟨60⟩, .setClock 2.0, .advance]).Remembered :=
  run_remembered (fun attempt => attempt != 1) .standard (by decide +kernel) (by decide +kernel)

/-- A held pitch is forgotten without a release when the clock runs into infinity. -/
theorem forgotten_at_infinity :
    ∃ requests : List (Request Float),
      (new ({} : Recorder Float) 0.0 .standard).Along Forward requests ∧
      ¬ ((new ({} : Recorder Float) 0.0 .standard).run requests).Remembered := by
  refine ⟨[.playPitch ⟨57⟩ 1.0, .setClock (1.0 / 0.0), .advance], by decide +kernel,
    fun remembered => ?_⟩
  -- The voice was created, and neither an entry nor a command is left that could end it.
  obtain ⟨tone, created⟩ : ∃ tone, .created 0 tone ∈
      ((new ({} : Recorder Float) 0.0 .standard).run
        [.playPitch ⟨57⟩ 1.0, .setClock (1.0 / 0.0), .advance]).generator.records :=
    ⟨_, List.mem_cons_self ..⟩
  rcases remembered.voices 0 tone created with ⟨_, held⟩ | ⟨_, destroyed | ⟨time, last, _⟩⟩
  · exact absurd held (by decide +kernel)
  · exact absurd destroyed (by decide +kernel)
  · exact absurd (Option.isSome_iff_exists.mpr ⟨time, last⟩) (by decide +kernel)

end Scheduler

end Melody
