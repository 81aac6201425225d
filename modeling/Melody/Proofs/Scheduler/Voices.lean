import Mathlib.Logic.Relation
import Melody.Proofs.Scheduler.Coherence
import Melody.Proofs.Voice.Recording

/-! Every move of a scheduler hands voices over between its lanes and the record, one at a time. -/

namespace Melody

/-- What a recorder writes down when it is told of an effect. -/
def Effect.record? {α : Type} : Effect α → Option (Record α)
  | fired _ => none
  | created _ tone voice? => voice?.map (.created · tone)
  | commanded _ _ voice command => some (.commanded voice command)

/-- An effect asks for a voice. -/
def Effect.asks {α : Type} : Effect α → Bool
  | created .. => true
  | _ => false

/-- Effects that ask for nothing are recorded one after the other. -/
theorem hear_add {α : Type} (recorder : Recorder α) {effects : List (Effect α)}
    (silent : ∀ effect ∈ effects, effect.asks = false) :
    hear recorder effects = recorder.add (effects.filterMap Effect.record?) := by
  -- Commands are written down one after the other, and timers are not heard of.
  induction effects generalizing recorder with
  | nil => simp [hear, Recorder.add]
  | cons effect later ih =>
    have rest := fun next member => silent next (List.mem_cons_of_mem _ member)
    have first := silent effect (List.mem_cons_self ..)
    show hear (effect.heardBy recorder) later = _
    rw [ih _ rest]
    cases effect with
    | fired timer => rfl
    | created id tone voice? => simp [Effect.asks] at first
    | commanded cause owner voice command =>
      show Recorder.add (Recorder.add recorder [.commanded voice command]) _ = _
      simp [Recorder.add, Effect.record?]

/-- The records of effects that ask for nothing stand behind the earlier ones. -/
theorem records_of_silent {α : Type} (recorder : Recorder α) {effects : List (Effect α)}
    (silent : ∀ effect ∈ effects, effect.asks = false) :
    (hear recorder effects).records = recorder.records ++ effects.filterMap Effect.record? := by
  rw [hear_add recorder silent]
  rfl

/-- Commands ask for nothing. -/
theorem silent_commanded {α β : Type} (items : List β) (cause owner : β → NoteId)
    (voice : β → Nat) (command : β → Command α) :
    ∀ effect ∈ items.map fun item => Effect.commanded (cause item) (owner item) (voice item)
      (command item), effect.asks = false := by
  intro effect member
  obtain ⟨item, _, rfl⟩ := List.mem_map.mp member
  rfl

/-- Commands are recorded one by one. -/
theorem record?_commanded {α β : Type} (items : List β) (cause owner : β → NoteId)
    (voice : β → Nat) (command : β → Command α) :
    (items.map fun item => Effect.commanded (cause item) (owner item) (voice item)
      (command item)).filterMap Effect.record? =
      items.map fun item => .commanded (voice item) (command item) := by
  rw [List.filterMap_map, ← List.filterMap_eq_map]
  rfl

namespace Scheduler

/-- The entries of a scheduler. -/
def entries {γ α : Type} (scheduler : Scheduler γ α) : List (Entry α) :=
  scheduler.slots.map Slot.entry

variable {α : Type} [Analytic α]

/-- The creation of a voice with the commands that make it play its tone. -/
def opening (settings : Settings α) (voice : Nat) (tone : Tone α) : List (Record α) :=
  let part := script settings settings.attack.lastValue tone.start tone.finish tone.velocity
  .created voice tone :: part.map (.commanded voice)

/-- The envelope along which the voice of an entry fades out. -/
def fading (settings : Settings α) (entry : Entry α) : Envelope α :=
  settings.release.scaleY (settings.attack.lastValue * entry.velocity)

/-- One voice passes between the entries of a scheduler and its recorder. -/
inductive Handover (rules : Rules α) (settings : Settings α) (now : α) :
    Recorder α × List (Entry α) → Recorder α × List (Entry α) → Prop where
  /-- Entries change places. -/
  | swap {recorder : Recorder α} {entries others : List (Entry α)}
      (perm : entries.Perm others) :
      Handover rules settings now (recorder, entries) (recorder, others)
  /-- A voice is refused. -/
  | refuse {recorder : Recorder α} {entries : List (Entry α)} :
      Handover rules settings now (recorder, entries)
        ({ recorder with attempts := recorder.attempts + 1 }, entries)
  /-- A voice is created under the next number and told how to play its tone. -/
  | enter {recorder : Recorder α} {entries : List (Entry α)} {id : NoteId} {cue : Cue α}
      {tone : Tone α} (fit : rules.fit id cue) (finish : tone.finish = cue.finish) :
      Handover rules settings now (recorder, entries)
        ({ recorder.add (opening settings recorder.created tone) with
            attempts := recorder.attempts + 1, created := recorder.created + 1 },
          ⟨id, recorder.created, tone.start, tone.finish, tone.velocity⟩ :: entries)
  /-- A voice is destroyed. -/
  | destroy {recorder : Recorder α} {entries : List (Entry α)} {entry : Entry α} :
      Handover rules settings now (recorder, entry :: entries)
        (recorder.add [.commanded entry.voice .destroy], entries)
  /-- A voice that sounds is released and stays until it has ended. -/
  | fade {recorder : Recorder α} {entries : List (Entry α)} {entry : Entry α}
      (sounds : entry.finish.isAfter now = true) :
      Handover rules settings now (recorder, entry :: entries)
        (recorder.add [.commanded entry.voice (.release now (fading settings entry))],
          { entry with finish := .at now } :: entries)
  /-- A voice that sounds is released and makes way for another one. -/
  | displace {recorder : Recorder α} {entries : List (Entry α)} {entry : Entry α}
      (sounds : entry.finish.isAfter now = true) :
      Handover rules settings now (recorder, entry :: entries)
        (recorder.add [.commanded entry.voice (.release now (fading settings entry))], entries)
  /-- A voice that has ended is forgotten. -/
  | forget {recorder : Recorder α} {entries : List (Entry α)} {entry : Entry α}
      (ended : entry.finish.isAfter now = false ∨ entry.finish.isReached now = true) :
      Handover rules settings now (recorder, entry :: entries) (recorder, entries)

/-- Voices pass one after the other. -/
abbrev Handovers (rules : Rules α) (settings : Settings α) (now : α) :
    Recorder α × List (Entry α) → Recorder α × List (Entry α) → Prop :=
  Relation.ReflTransGen (Handover rules settings now)

section Opening

variable (settings : Settings α) (voice : Nat) (tone : Tone α)

/-- The records that open a voice are about this voice. -/
theorem voice_of_mem_opening : ∀ record ∈ opening settings voice tone, record.voice = voice := by
  intro record member
  rcases List.mem_cons.mp member with rfl | member
  · rfl
  · obtain ⟨command, _, rfl⟩ := List.mem_map.mp member
    rfl

/-- The creation destroys nothing, nor does a change of gain or a release. -/
theorem destroys_of_mem_opening :
    ∀ record ∈ opening settings voice tone, record.destroys voice = false := by
  intro record member
  -- A voice is opened by its creation, its attack and perhaps a release.
  rcases List.mem_cons.mp member with rfl | member
  · rfl
  · obtain ⟨command, inside, rfl⟩ := List.mem_map.mp member
    rcases List.mem_append.mp inside with gain | release
    · obtain ⟨event, _, rfl⟩ := List.mem_map.mp gain
      rfl
    · obtain ⟨time, _, rfl⟩ := Option.map_eq_some_iff.mp (Option.mem_toList.mp release)
      rfl

/-- The commands after a creation release the voice at its end, if that is known and finite. -/
theorem release?_opening :
    (opening settings voice tone).filterMap (Record.release? voice) =
      tone.finish.finite?.toList := by
  show (List.map _ (script ..)).filterMap (Record.release? voice) = _
  unfold script
  rw [List.map_append, List.filterMap_append, List.map_map, List.filterMap_map]
  -- The changes of gain come before the release and are none themselves.
  have silent : ∀ events : List (ControlEvent α),
      events.filterMap (Record.release? voice ∘ Record.commanded voice ∘ Command.gain) = [] :=
    fun events => List.filterMap_eq_nil_iff.mpr fun _ _ => rfl
  rw [silent, List.nil_append]
  cases tone.finish.finite? with
  | none => rfl
  | some time => simp [Record.release?]

end Opening

variable {rules : Rules α} {settings : Settings α} {now : α} {recorder : Recorder α}
  {entries others : List (Entry α)}

/-- All entries may be destroyed. -/
theorem Handovers.destroyed :
    Handovers rules settings now (recorder, entries)
      (recorder.add (entries.map fun entry => .commanded entry.voice .destroy), []) := by
  -- The entry in front goes first, and the record grows by one line for each.
  induction entries generalizing recorder with
  | nil => simpa [Recorder.add] using .refl
  | cons entry later ih =>
    have rest := @ih (recorder.add [.commanded entry.voice .destroy])
    simp only [Recorder.add, List.append_assoc, List.singleton_append] at rest
    exact .head .destroy rest

/-- Entries that have ended may be forgotten. -/
theorem Handovers.forgotten {keep : Slot α → Bool} {slots : List (Slot α)}
    (ended : ∀ slot ∈ slots, keep slot = false → slot.entry.finish.isReached now = true) :
    Handovers rules settings now (recorder, slots.map Slot.entry)
      (recorder, (slots.filter keep).map Slot.entry) := by
  -- The slots already kept are carried along behind those still to be looked at.
  suffices general : ∀ kept : List (Slot α),
      Handovers rules settings now (recorder, slots.map Slot.entry ++ kept.map Slot.entry)
        (recorder, (slots.filter keep).map Slot.entry ++ kept.map Slot.entry) by
    simpa using general []
  induction slots with
  | nil => exact fun _ => .refl
  | cons slot later ih =>
    intro kept
    have rest := ih fun next member => ended next (List.mem_cons_of_mem _ member)
    by_cases stays : keep slot = true
    · rw [List.filter_cons_of_pos stays]
      refine .head (.swap List.perm_middle.symm) ?_
      exact (rest (slot :: kept)).tail (.swap List.perm_middle)
    · rw [List.filter_cons_of_neg stays]
      have reached := ended slot (List.mem_cons_self ..) (by simpa using stays)
      exact .head (.forget (Or.inr reached)) (rest kept)

section Passing

variable {γ : Type} {scheduler : Scheduler γ α} {id : NoteId} {cue : Cue α} {voice : Nat}

/-- An entry that is displaced is faded out and leaves. -/
theorem Handovers.displaced (cause : Entry α → NoteId) (seated : Option (Entry α)) :
    Handovers rules scheduler.settings scheduler.now (recorder, seated.toList ++ entries)
      (hear recorder (scheduler.fadeEffects cause seated), entries) := by
  unfold fadeEffects
  -- An entry makes way with a release if it sounds, and without one if it is over.
  cases seated with
  | none => exact .refl
  | some entry =>
    by_cases sounds : entry.finish.isAfter scheduler.now = true
    · rw [Option.filter_some, if_pos sounds]
      exact .single (.displace sounds)
    · rw [Option.filter_some, if_neg sounds]
      exact .single (.forget (Or.inl (by simpa using sounds)))

/-- Fading out entries asks for nothing. -/
theorem fadeEffects_silent (scheduler : Scheduler γ α) (cause : Entry α → NoteId)
    (seated : Option (Entry α)) :
    ∀ effect ∈ scheduler.fadeEffects cause seated, effect.asks = false :=
  silent_commanded _ cause Entry.id Entry.voice _

/-- A recorder writes down a creation with what follows it, and counts the attempt and the voice. -/
theorem hear_voiceEffects (created : (recorder.create (scheduler.tone cue)).2 = .ok voice)
    (displaced : Option (Entry α)) :
    hear recorder (scheduler.voiceEffects id cue voice displaced) =
      { recorder.add
          ((scheduler.voiceEffects id cue voice displaced).filterMap Effect.record?) with
        attempts := recorder.attempts + 1
        created := recorder.created + 1 } := by
  obtain ⟨_, grown⟩ := Recorder.create_ok created
  -- What follows the creation are commands only.
  have silent : ∀ effect ∈ (scheduler.part cue).map (Effect.commanded id id voice) ++
      scheduler.fadeEffects (fun _ => id) displaced, effect.asks = false := by
    intro effect member
    rcases List.mem_append.mp member with started | faded
    · exact silent_commanded _ (fun _ => id) (fun _ => id) (fun _ => voice) _ effect started
    · exact scheduler.fadeEffects_silent _ displaced effect faded
  show hear (recorder.create (scheduler.tone cue)).1
    ((scheduler.part cue).map (Effect.commanded id id voice) ++
      scheduler.fadeEffects (fun _ => id) displaced) = _
  rw [hear_add _ silent, grown]
  simp [Recorder.add, voiceEffects, Effect.record?]

/-- A voice that has been created enters with the number that its generator gave it. -/
theorem Handover.entered (fit : rules.fit id cue)
    (created : (recorder.create (scheduler.tone cue)).2 = .ok voice) :
    Handover rules scheduler.settings scheduler.now (recorder, entries)
      (hear recorder (scheduler.voiceEffects id cue voice none),
        scheduler.entryOf id cue voice :: entries) := by
  obtain ⟨rfl, _⟩ := Recorder.create_ok created
  -- The voice effects of an entry that displaces none are what opens its voice.
  have recorded : (scheduler.voiceEffects id cue recorder.created none).filterMap
      Effect.record? = opening scheduler.settings recorder.created (scheduler.tone cue) := by
    have commanded := record?_commanded (scheduler.part cue) (fun _ => id) (fun _ => id)
      (fun _ => recorder.created) fun part => part
    simp only [voiceEffects, fadeEffects, Effect.record?, commanded, Option.filter_none,
      Option.toList_none, List.map_nil, List.append_nil, List.filterMap_cons, Option.map_some]
    rfl
  rw [hear_voiceEffects created, recorded]
  exact .enter fit rfl

/-- A voice that is refused leaves the entries alone. -/
theorem Handovers.refused (id : NoteId) {tone : Tone α} {cause : CreationFault}
    (refused : (recorder.create tone).2 = .error cause) :
    Handovers rules settings now (recorder, entries)
      (hear recorder [.created id tone none], entries) := by
  -- A refusal is counted, and nothing is written down.
  show Handovers rules settings now _ ((recorder.create tone).1, entries)
  rw [Recorder.create_error refused]
  exact .single .refuse

/-- An entry that loses its voice is brought to the front and destroyed there. -/
theorem Handovers.withdrawn (id : NoteId) {entry : Entry α}
    (perm : entries.Perm (entry :: others)) :
    Handovers rules settings now (recorder, entries)
      (hear recorder [.commanded id entry.id entry.voice .destroy], others) :=
  .head (.swap perm) (.single .destroy)

/-- All entries are destroyed in their order. -/
theorem Handovers.cleared :
    Handovers rules settings now (recorder, scheduler.entries)
      (hear recorder scheduler.cancelAllEffects, []) := by
  -- Cancelling everything destroys the voice of each entry once.
  have recorded : scheduler.cancelAllEffects.filterMap Effect.record? =
      scheduler.entries.map fun entry => .commanded entry.voice .destroy := by
    rw [cancelAllEffects, ← Lanes.slots_entries]
    exact record?_commanded scheduler.entries Entry.id Entry.id Entry.voice fun _ => .destroy
  have heard : hear recorder scheduler.cancelAllEffects =
      recorder.add (scheduler.cancelAllEffects.filterMap Effect.record?) :=
    hear_add _ (silent_commanded _ Entry.id Entry.id Entry.voice _)
  rw [heard, recorded]
  exact .destroyed

/-- An entry that is faded is brought to the front, faded there and put back. -/
theorem Handovers.faded {entry : Entry α} (sounds : entry.finish.isAfter scheduler.now = true)
    {rest : List (Entry α)} (before : entries.Perm (entry :: rest))
    (after : others.Perm ({ entry with finish := .at scheduler.now } :: rest)) :
    Handovers rules scheduler.settings scheduler.now (recorder, entries)
      (hear recorder [scheduler.fadeEffect entry.id entry], others) := by
  have faded : Handover rules scheduler.settings scheduler.now (recorder, entry :: rest)
      (hear recorder [scheduler.fadeEffect entry.id entry],
        { entry with finish := .at scheduler.now } :: rest) := .fade sounds
  exact .head (.swap before) (.head faded (.single (.swap after.symm)))

/-- An entry that takes the seat of another one has that make way for it. -/
theorem Handovers.seated {entry : Entry α} {displaced : Option (Entry α)} {rest : List (Entry α)}
    (cause : Entry α → NoteId) (before : entries.Perm (entry :: (displaced.toList ++ rest)))
    (after : others.Perm (entry :: rest)) :
    Handovers rules scheduler.settings scheduler.now (recorder, entries)
      (hear recorder (scheduler.fadeEffects cause displaced), others) :=
  .head (.swap (before.trans List.perm_middle.symm))
    ((Handovers.displaced cause displaced).tail (.swap after.symm))

/-- All that a sweep takes away has ended. -/
theorem Handovers.swept :
    Handovers rules settings scheduler.now (recorder, scheduler.entries)
      (recorder, scheduler.swept.entries) := by
  -- Sweeping forgets entries whose end is reached, and only those.
  show Handovers rules settings scheduler.now _
    (_, ((scheduler.lanes.expire scheduler.now).slots).map Slot.entry)
  rw [Lanes.expire_slots]
  refine .forgotten fun slot _ ended => ?_
  simp only [Lanes.isOver, Bool.not_eq_false', Bool.and_eq_true] at ended
  exact ended.2

end Passing

variable {scheduler next : Scheduler (Recorder α) α} {effects : List (Effect α)}

/-- The record grows by what is written down of the effects of a move. -/
theorem Move.records (move : Move rules scheduler effects next) :
    next.generator.records = scheduler.generator.records ++ effects.filterMap Effect.record? := by
  cases move with
  -- Creations apart, the recorder writes down what it hears of.
  | clear => exact records_of_silent _ (silent_commanded _ Entry.id Entry.id Entry.voice _)
  | refuse _ _ _ refused =>
    show (scheduler.generator.create _).1.records = _
    rw [Recorder.create_error refused]
    exact (List.append_nil _).symm
  | start _ _ _ created =>
    rw [ensureSweep_generator]
    exact congrArg Recorder.records (hear_voiceEffects created _)
  | book _ _ _ created =>
    rw [ensureSweep_generator]
    exact congrArg Recorder.records (hear_voiceEffects created none)
  | @promote timer later id pitch entry displaced rest lanes journal =>
    -- The recorder does not hear of the timer.
    have faded := records_of_silent scheduler.generator
      (scheduler.fadeEffects_silent (fun _ => id) displaced)
    exact faded
  | @sweep timer rest queued counted due action =>
    -- A sweep tells the recorder nothing.
    rcases sweep_cases ({ scheduler with timers := rest }) with same | same
    · rw [same]
      exact (List.append_nil _).symm
    · rw [same, ensureSweep_generator]
      exact (List.append_nil _).symm
  | withdraw => rfl
  | fade => rfl
  | _ => exact (List.append_nil _).symm

/-- The record grows by what is written down of the effects of moves one after the other. -/
theorem Moves.records (moves : Moves rules scheduler effects next) :
    next.generator.records = scheduler.generator.records ++ effects.filterMap Effect.record? := by
  -- The lines of a move stand before those of the moves after it.
  induction moves with
  | done => exact (List.append_nil _).symm
  | step move _ ih => rw [ih, move.records, List.filterMap_append, List.append_assoc]

/-- Every move but one of the clock hands over voices, and none of them moves the clock. -/
theorem Move.handovers (move : Move rules scheduler effects next) :
    (next.generator = scheduler.generator ∧ next.entries = scheduler.entries ∧
      rules.ticks scheduler.now next.now) ∨
    (next.now = scheduler.now ∧ Handovers rules scheduler.settings scheduler.now
      (scheduler.generator, scheduler.entries) (next.generator, next.entries)) := by
  cases move with
  | clock ticks => exact Or.inl ⟨rfl, rfl, ticks⟩
  | issue => exact Or.inr ⟨rfl, .refl⟩
  | forget _ => exact Or.inr ⟨rfl, .refl⟩
  | defer _ _ _ _ => exact Or.inr ⟨rfl, .refl⟩
  | wake _ _ _ => exact Or.inr ⟨rfl, .refl⟩
  | @withdraw id slot lanes journal regular slots named =>
    exact Or.inr ⟨rfl, .withdrawn id (slots.map Slot.entry)⟩
  | clear => exact Or.inr ⟨rfl, .cleared⟩
  | @fade pitch entry rest lanes journal regular sounds before after =>
    exact Or.inr ⟨rfl, .faded sounds (before.map Slot.entry) (after.map Slot.entry)⟩
  | @refuse id cue cause lacks issued fit refused => exact Or.inr ⟨rfl, .refused id refused⟩
  | @start id cue voice displaced rest lanes journal lacks issued fit created begun regular before
      after =>
    -- The new voice enters beside the one that sounds, which then makes way for it.
    refine Or.inr ⟨ensureSweep_now _, ?_⟩
    have beside : (scheduler.entryOf id cue voice :: scheduler.entries).Perm
        (scheduler.entryOf id cue voice :: (displaced.toList ++ rest.map Slot.entry)) := by
      simpa [entries, Function.comp_def] using before.map Slot.entry
    simp only [ensureSweep_generator, entries, slots, ensureSweep_lanes]
    show Handovers rules scheduler.settings scheduler.now _
      (hear scheduler.generator _, lanes.slots.map Slot.entry)
    rw [← voiceEffects_append, hear_append]
    exact .head (.entered fit created) (Handovers.seated _ beside (after.map Slot.entry))
  | @book id cue voice lanes journal lacks issued fit created ahead regular after =>
    -- The new voice enters, and its entry finds its place among those to come.
    refine Or.inr ⟨ensureSweep_now _, ?_⟩
    simp only [ensureSweep_generator, entries, slots, ensureSweep_lanes]
    exact .head (.entered fit created) (.single (.swap (after.map Slot.entry).symm))
  | @promote timer later id pitch entry displaced rest lanes journal queued due action named regular
      before after =>
    -- The note has an entry already, for which the one that sounds makes way.
    have seated : scheduler.entries.Perm (entry :: (displaced.toList ++ rest.map Slot.entry)) := by
      simpa [entries, Function.comp_def] using before.map Slot.entry
    exact Or.inr ⟨rfl, .seated _ seated (after.map Slot.entry)⟩
  | @sweep timer rest queued counted due action =>
    have swept : Handovers rules scheduler.settings scheduler.now
        (scheduler.generator, scheduler.entries)
        (scheduler.generator, ({ scheduler with timers := rest }).swept.entries) :=
      Handovers.swept
    rcases sweep_cases ({ scheduler with timers := rest }) with same | same
    · rw [same]
      exact Or.inr ⟨rfl, swept⟩
    · rw [same]
      refine Or.inr ⟨ensureSweep_now _, ?_⟩
      simp only [ensureSweep_generator, entries, slots, ensureSweep_lanes]
      exact swept

end Scheduler

end Melody
