import Melody.Proofs.Scheduler.Voices

/-! A voice that has been created is held by an entry until it is destroyed or departs. -/

namespace Melody

/-- The voice that an effect creates. -/
def Effect.given? {α : Type} : Effect α → Option Nat
  | created _ _ voice? => voice?
  | fired _ | commanded .. => none

/-- The voice that an effect destroys. -/
def Effect.destroyed? {α : Type} : Effect α → Option Nat
  | commanded _ _ voice .destroy => some voice
  | _ => none

/-- No voice is created where none is asked for. -/
theorem given?_of_silent {α : Type} {effect : Effect α} (silent : effect.asks = false) :
    effect.given? = none := by
  cases effect with
  | created => simp [Effect.asks] at silent
  | fired => rfl
  | commanded => rfl

section Granting

variable {γ α : Type} [ToneGenerator γ α]

/-- A voice is there if the generator that was asked for it gave one, and then that one. -/
def Effect.GrantedBy (generator : γ) : Effect α → Prop
  | created _ tone voice? => (ToneGenerator.create generator tone).2.toOption = voice?
  | fired _ | commanded .. => True

/-- Every voice is granted by the generator that hears of the effects in their order. -/
def Granted (generator : γ) : List (Effect α) → Prop
  | [] => True
  | effect :: later => effect.GrantedBy generator ∧ Granted (effect.heardBy generator) later

/-- Effects that follow others are granted by the generator that those leave. -/
theorem granted_append {generator : γ} {effects later : List (Effect α)} :
    Granted generator (effects ++ later) ↔
      Granted generator effects ∧ Granted (hear generator effects) later := by
  -- The generator changes from one effect to the next, so the induction is over all of them.
  induction effects generalizing generator with
  | nil => simp [Granted, hear]
  | cons effect effects ih => simp [Granted, hear, ih, and_assoc]

/-- Nothing has to be granted where no voice is asked for. -/
theorem granted_of_silent {generator : γ} {effects : List (Effect α)}
    (silent : ∀ effect ∈ effects, effect.asks = false) : Granted generator effects := by
  induction effects generalizing generator with
  | nil => trivial
  | cons effect later ih =>
    refine ⟨?_, ih fun next member => silent next (List.mem_cons_of_mem _ member)⟩
    -- Only an effect that creates a voice says what the generator has answered.
    have first := silent effect (List.mem_cons_self ..)
    cases effect with
    | created => simp [Effect.asks] at first
    | fired => trivial
    | commanded => trivial

end Granting

namespace Recorder

variable {α : Type} {recorder : Recorder α}

/-- A voice that is granted is created. -/
theorem create_of_granted {id : NoteId} {tone : Tone α} {voice : Nat} {later : List (Effect α)}
    (granted : Granted recorder (.created id tone (some voice) :: later)) :
    (recorder.create tone).2 = .ok voice := by
  have given : (recorder.create tone).2.toOption = some voice := granted.1
  cases outcome : (recorder.create tone).2 with
  | error cause => simp [outcome, Except.toOption] at given
  | ok other => simpa [outcome, Except.toOption] using given

/-- Where no voice is granted it is refused. -/
theorem refuse_of_granted {id : NoteId} {tone : Tone α} {later : List (Effect α)}
    (granted : Granted recorder (.created id tone none :: later)) :
    ∃ cause, (recorder.create tone).2 = .error cause := by
  have given : (recorder.create tone).2.toOption = none := granted.1
  cases outcome : (recorder.create tone).2 with
  | error cause => exact ⟨cause, rfl⟩
  | ok other => simp [outcome, Except.toOption] at given

/-- Asking for a voice destroys none. -/
theorem destroyCount_create (recorder : Recorder α) (tone : Tone α) (voice : Nat) :
    (recorder.create tone).1.destroyCount voice = recorder.destroyCount voice := by
  cases outcome : (recorder.create tone).2 with
  | error cause =>
    -- A refusal is counted and leaves no line in the record.
    rw [create_error outcome]
    rfl
  | ok given =>
    rw [(create_ok outcome).2]
    exact destroyCount_add recorder [.created given tone] voice

/-- A voice is destroyed as often as a recorder hears of it. -/
theorem destroyCount_hear (recorder : Recorder α) (effects : List (Effect α)) (voice : Nat) :
    (hear recorder effects).destroyCount voice =
      recorder.destroyCount voice + (effects.filterMap Effect.destroyed?).count voice := by
  -- Each effect adds at most one line to the record, and only a destruction is counted.
  induction effects generalizing recorder with
  | nil => rfl
  | cons effect later ih =>
    show (hear (effect.heardBy recorder) later).destroyCount voice = _
    rw [ih]
    cases effect with
    | fired timer => rfl
    | created id tone voice? =>
      show (recorder.create tone).1.destroyCount voice + _ = _
      rw [destroyCount_create]
      rfl
    | commanded cause owner other command =>
      show (recorder.add [.commanded other command]).destroyCount voice + _ = _
      rw [destroyCount_add, Nat.add_assoc, List.filterMap_cons]
      cases command with
      | gain event => simp [Record.destroys, Effect.destroyed?]
      | release time envelope => simp [Record.destroys, Effect.destroyed?]
      | destroy =>
        -- The count grows if the voice that is destroyed is the one that is asked about.
        by_cases same : other = voice <;>
          simp [Record.destroys, Effect.destroyed?, same, Nat.add_comm]

/-- A recorder gives out the voices in the order of their numbers, each of them once. -/
theorem range_hear {effects : List (Effect α)} (granted : Granted recorder effects) :
    List.range recorder.created ++ effects.filterMap Effect.given? =
      List.range (hear recorder effects).created := by
  -- The numbers given out so far are those below the counter, which every creation moves up.
  induction effects generalizing recorder with
  | nil => simp [hear]
  | cons effect later ih =>
    show _ = List.range (hear (effect.heardBy recorder) later).created
    rw [← ih granted.2]
    cases effect with
    | fired timer => rfl
    | commanded cause owner voice command => rfl
    | created id tone voice? =>
      show _ = List.range (recorder.create tone).1.created ++ _
      cases voice? with
      | none =>
        -- Without a voice the counter stays where it is.
        obtain ⟨_, refused⟩ := refuse_of_granted granted
        rw [create_error refused]
        rfl
      | some voice =>
        obtain ⟨numbered, grown⟩ := create_ok (create_of_granted granted)
        rw [grown, List.filterMap_cons, numbered]
        simp [Effect.given?, List.range_succ]

/-- A recorder writes down what it hears of, and every voice under the number that it grants. -/
theorem records_hear {effects : List (Effect α)} (granted : Granted recorder effects) :
    (hear recorder effects).records =
      recorder.records ++ effects.filterMap Effect.record? := by
  induction effects generalizing recorder with
  | nil => exact (List.append_nil _).symm
  | cons effect later ih =>
    show (hear (effect.heardBy recorder) later).records = _
    rw [ih granted.2]
    -- A creation that is granted succeeds or fails as the effect says.
    cases effect with
    | fired timer => rfl
    | commanded cause owner voice command => exact List.append_assoc ..
    | created id tone voice? =>
      show (recorder.create tone).1.records ++ _ = _
      cases voice? with
      | none =>
        obtain ⟨_, refused⟩ := refuse_of_granted granted
        rw [create_error refused]
        rfl
      | some voice =>
        rw [(create_ok (create_of_granted granted)).2]
        exact List.append_assoc ..

end Recorder

/-- The voices of the entries of lanes. -/
def Lanes.voices {α : Type} (lanes : Lanes α) : List Nat :=
  lanes.slots.map (·.entry.voice)

namespace Scheduler

variable {γ α : Type}

/-- The voices that a scheduler holds. -/
def voices (scheduler : Scheduler γ α) : List Nat :=
  scheduler.lanes.voices

section Accounts

variable [ToneGenerator γ α] {scheduler next last : Scheduler γ α}
  {effects later : List (Effect α)} {departed gone : List Nat}

/-- The account of the voices held over a stretch, in which some of them depart untold. -/
structure Custody (scheduler : Scheduler γ α) (effects : List (Effect α)) (departed : List Nat)
    (next : Scheduler γ α) : Prop where
  regular : next.lanes.Regular
  heard : next.generator = hear scheduler.generator effects
  granted : Granted scheduler.generator effects
  /-- A voice that was held or is created departs, is destroyed or is held after that. -/
  balance : ∀ voice,
    scheduler.voices.count voice + (effects.filterMap Effect.given?).count voice =
      departed.count voice + (effects.filterMap Effect.destroyed?).count voice +
        next.voices.count voice

namespace Custody

/-- Nothing happens to voices where lanes and generator are left alone. -/
theorem still (regular : scheduler.lanes.Regular) (lanes : next.lanes = scheduler.lanes)
    (generator : next.generator = scheduler.generator) : Custody scheduler [] [] next where
  regular := lanes ▸ regular
  heard := generator
  granted := trivial
  balance voice := by simp [voices, lanes]

/-- That a timer is taken out does not touch voices. -/
theorem taken (regular : scheduler.lanes.Regular) (timer : Timer α) (timers : Timers α) :
    Custody scheduler [.fired timer] [] { scheduler with timers } where
  regular := regular
  heard := rfl
  granted := ⟨trivial, trivial⟩
  balance voice := by simp [voices, List.filterMap_cons, Effect.given?, Effect.destroyed?]

/-- The accounts of two stretches make up one of both. -/
theorem trans (first : Custody scheduler effects departed next)
    (second : Custody next later gone last) :
    Custody scheduler (effects ++ later) (departed ++ gone) last where
  regular := second.regular
  heard := by rw [second.heard, first.heard, hear_append]
  granted := granted_append.mpr ⟨first.granted, first.heard ▸ second.granted⟩
  balance voice := by
    -- What the first stretch leaves held is what the second one begins with.
    have before := first.balance voice
    have after := second.balance voice
    simp only [List.filterMap_append, List.count_append]
    omega

/-- What leaves lanes and generator alone may follow. -/
theorem and_still (first : Custody scheduler effects departed next)
    (lanes : last.lanes = next.lanes) (generator : last.generator = next.generator) :
    Custody scheduler effects departed last := by
  simpa using first.trans (still first.regular lanes generator)

/-- Where no voice is asked for, those that were held depart, are destroyed or are held on. -/
theorem told {lanes : Lanes α} (regular : lanes.Regular)
    (silent : ∀ effect ∈ effects, effect.asks = false)
    (held : ∀ voice, scheduler.voices.count voice = departed.count voice +
      (effects.filterMap Effect.destroyed?).count voice + lanes.voices.count voice)
    (journal : List Notice) :
    Custody scheduler effects departed (scheduler.told effects lanes journal) where
  regular := regular
  heard := rfl
  granted := granted_of_silent silent
  balance voice := by
    -- Effects that ask for nothing are given nothing.
    have none : effects.filterMap Effect.given? = [] :=
      List.filterMap_eq_nil_iff.mpr fun effect member => given?_of_silent (silent effect member)
    rw [none]
    exact held voice

end Custody

end Accounts

section Minding

variable {scheduler next : Scheduler (Recorder α) α} {effects : List (Effect α)}
  {departed : List Nat}

/-- Every voice that is held has been created, and none is held or destroyed more than once. -/
structure Minded (scheduler : Scheduler (Recorder α) α) : Prop where
  regular : scheduler.lanes.Regular
  once : ∀ voice, scheduler.voices.count voice + scheduler.generator.destroyCount voice ≤
    (List.range scheduler.generator.created).count voice

/-- A scheduler that has been asked for nothing yet minds its voices. -/
theorem Minded.initial (admits : Nat → Bool) (now : α) (settings : Settings α) :
    Minded (new ({ admits } : Recorder α) now settings) where
  regular := ⟨List.Pairwise.nil, by simp [new]⟩
  once voice := by simp [new, voices, Lanes.voices, Lanes.slots, Recorder.destroyCount]

/-- The recorder gives out no voice that was there before. -/
theorem Custody.range_count (custody : Custody scheduler effects departed next) (voice : Nat) :
    (List.range scheduler.generator.created).count voice +
        (effects.filterMap Effect.given?).count voice =
      (List.range next.generator.created).count voice := by
  rw [← List.count_append, Recorder.range_hear custody.granted, ← custody.heard]

/-- What is accounted for is minded. -/
theorem Minded.custody (minded : scheduler.Minded)
    (custody : Custody scheduler effects departed next) : next.Minded where
  regular := custody.regular
  once voice := by
    have before := minded.once voice
    have balance := custody.balance voice
    -- A voice that is created has a number at or above the counter, so it was not there before.
    have range := custody.range_count voice
    rw [custody.heard] at range ⊢
    rw [Recorder.destroyCount_hear]
    omega

/-- Where no voice is held in the end, all are destroyed once but for those that departed. -/
theorem Minded.destroyCount_eq (minded : scheduler.Minded)
    (custody : Custody scheduler effects departed next) (bare : next.voices = []) {voice : Nat}
    (known : voice ∈ scheduler.voices ++ effects.filterMap Effect.given?) :
    next.generator.destroyCount voice = if voice ∈ departed then 0 else 1 := by
  have before := minded.once voice
  have balance := custody.balance voice
  have range := custody.range_count voice
  -- A number is given out once, so the voice was held or has been created, but not both.
  have once : (List.range next.generator.created).count voice ≤ 1 :=
    List.nodup_iff_count_le_one.mp List.nodup_range voice
  have known := List.count_pos_iff.mpr known
  rw [List.count_append] at known
  rw [bare, List.count_nil] at balance
  rw [custody.heard, Recorder.destroyCount_hear]
  -- With nothing held in the end, it has departed or been destroyed, and again not both.
  by_cases gone : voice ∈ departed
  · have some := List.count_pos_iff.mpr gone
    rw [if_pos gone]
    omega
  · have none := List.count_eq_zero.mpr gone
    rw [if_neg gone]
    omega

end Minding

end Scheduler

end Melody
