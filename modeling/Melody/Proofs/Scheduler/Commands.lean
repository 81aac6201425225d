import Melody.Binary64
import Melody.Proofs.Scheduler.Ownership
import Melody.Proofs.Scheduler.Steps

/-! Every voice is told to play its tone, then to fade out ever earlier, and then to stop. -/

namespace Melody

namespace Binary64

open Float.Model

/-- Signs are multiplied in any order. -/
private theorem sign_mul_comm (s t : UnpackedFloat.Sign) : s * t = t * s := by
  cases s <;> cases t <;> rfl

/-- The product of two doubles is rounded from the same exact value in either order. -/
theorem mul_comm (x y : Float) : x * y = y * x := by
  have unpacked : ∀ (format : Format) (left right : UnpackedFloat),
      left.mul format right = right.mul format left := by
    intro format left right
    cases left <;> cases right <;> dsimp only [UnpackedFloat.mul] <;>
      simp [sign_mul_comm, Nat.mul_comm, Int.add_comm]
  -- The model unpacks both, rounds the product and packs it again.
  have packed : x.toModel * y.toModel = y.toModel * x.toModel :=
    congrArg Float.Model.pack (unpacked ..)
  show Float.mul x y = Float.mul y x
  rw [Float.mul, Float.mul, packed]

instance commutativeMul : Std.Commutative (fun x y : Float => x * y) :=
  ⟨mul_comm⟩

end Binary64

namespace Ending

variable {α : Type}

/-- The end of something that has been made to end at times one after the other. -/
def cut (ending : Ending α) (times : List α) : Ending α :=
  times.foldl (fun _ time => .at time) ending

/-- The last time is the end that counts. -/
theorem cut_concat (ending : Ending α) (times : List α) (time : α) :
    ending.cut (times ++ [time]) = .at time :=
  List.foldl_append

variable [Scalar α]

/-- Times before an end, each of them before the one ahead of it. -/
def Descends : Ending α → List α → Prop
  | _, [] => True
  | ending, time :: later => ending.isAfter time = true ∧ Descends (.at time) later

/-- Times that lie ever earlier may be followed by a time before all of them. -/
theorem Descends.concat {ending : Ending α} {times : List α} {time : α}
    (descends : ending.Descends times) (earlier : (ending.cut times).isAfter time = true) :
    ending.Descends (times ++ [time]) := by
  induction times generalizing ending with
  | nil => exact ⟨earlier, trivial⟩
  | cons first later ih => exact ⟨descends.1, ih descends.2 earlier⟩

end Ending

namespace Recorder

variable {α : Type} {recorder : Recorder α} {records : List (Record α)} {voice : Nat}

/-- The entries of the record that are about a voice. -/
def lines (recorder : Recorder α) (voice : Nat) : List (Record α) :=
  recorder.records.filter (·.voice == voice)

/-- Entries about a voice come after those that were there before. -/
theorem lines_add (about : ∀ record ∈ records, record.voice = voice) :
    (recorder.add records).lines voice = recorder.lines voice ++ records := by
  have kept : records.filter (·.voice == voice) = records :=
    List.filter_eq_self.mpr (by simpa using about)
  rw [lines, add, List.filter_append, kept]
  rfl

/-- Entries about other voices do not show. -/
theorem lines_add_other (others : ∀ record ∈ records, record.voice ≠ voice) :
    (recorder.add records).lines voice = recorder.lines voice := by
  have none : records.filter (·.voice == voice) = [] :=
    List.filter_eq_nil_iff.mpr (by simpa using others)
  rw [lines, add, List.filter_append, none, List.append_nil]
  rfl

end Recorder

namespace Scheduler

variable {α : Type} [Analytic α]

/-- The commands that play a tone and release it at its end and at further times. -/
def score (settings : Settings α) (tone : Tone α) (times : List α) : List (Command α) :=
  let gains := (settings.attack.scaleY tone.velocity).events (.startingAt tone.start)
    settings.resolution
  let level := tone.velocity * settings.attack.lastValue
  gains.map .gain ++ (tone.finish.finite?.toList ++ times).map fun time =>
    .release time (settings.release.scaleY level)

/-- Commands that play a tone and release it ever earlier, and may end with its destruction. -/
def WellFormed (settings : Settings α) (tone : Tone α) (commands : List (Command α)) : Prop :=
  ∃ (times : List α) (last : List (Command α)), tone.finish.Descends times ∧
    (last = [] ∨ last = [.destroy]) ∧ commands = score settings tone times ++ last

/-- A voice has been created and told well-formed commands ever since. -/
def Told (settings : Settings α) (recorder : Recorder α) (voice : Nat) : Prop :=
  ∃ tone commands, recorder.lines voice = .created voice tone :: commands.map (.commanded voice) ∧
    WellFormed settings tone commands

/-- The voice of an entry plays at the entry's velocity and is to end when the entry does. -/
def Held (settings : Settings α) (recorder : Recorder α) (entry : Entry α) : Prop :=
  ∃ tone times, recorder.lines entry.voice =
      .created entry.voice tone :: (score settings tone times).map (.commanded entry.voice) ∧
    tone.finish.Descends times ∧ entry.finish = tone.finish.cut times ∧
    entry.velocity = tone.velocity

/-- The entries hold their voices, and every voice has been told well-formed commands. -/
structure Conducted (settings : Settings α) (recorder : Recorder α) (entries : List (Entry α)) :
    Prop extends Owned recorder entries where
  held : ∀ entry ∈ entries, Held settings recorder entry
  told : ∀ voice < recorder.created, Told settings recorder voice

variable {settings : Settings α} {recorder : Recorder α} {entries : List (Entry α)}
  {entry : Entry α}

/-- A voice that has been created has been told to play its tone and nothing else. -/
theorem opening_eq (settings : Settings α) (voice : Nat) (tone : Tone α) :
    opening settings voice tone =
      .created voice tone :: (score settings tone []).map (.commanded voice) := by
  unfold opening script score
  cases tone.finish.finite? <;> rfl

namespace Held

/-- A voice that is held has been told well-formed commands, which may end with destruction. -/
theorem told (held : Held settings recorder entry) : Told settings recorder entry.voice := by
  obtain ⟨tone, times, lines, descends, _⟩ := held
  exact ⟨tone, _, lines, ⟨times, [], descends, Or.inl rfl, (List.append_nil _).symm⟩⟩

/-- A voice that is held may be destroyed. -/
theorem destroyed (held : Held settings recorder entry) :
    Told settings (recorder.add [.commanded entry.voice .destroy]) entry.voice := by
  obtain ⟨tone, times, lines, descends, _⟩ := held
  refine ⟨tone, score settings tone times ++ [.destroy], ?_,
    ⟨times, [.destroy], descends, Or.inr rfl, rfl⟩⟩
  rw [Recorder.lines_add (by simp [Record.voice]), lines]
  simp

/-- A voice that is held and sounds may be released. -/
theorem released [commutes : Std.Commutative (fun x y : α => x * y)] {now : α}
    (held : Held settings recorder entry) (sounds : entry.finish.isAfter now = true) :
    Held settings (recorder.add [.commanded entry.voice (.release now (fading settings entry))])
      { entry with finish := .at now } := by
  obtain ⟨tone, times, lines, descends, finish, velocity⟩ := held
  refine ⟨tone, times ++ [now], ?_, descends.concat (finish ▸ sounds),
    (Ending.cut_concat ..).symm, velocity⟩
  rw [Recorder.lines_add (by simp [Record.voice]), lines]
  -- Both factors of the fading level are known, and come in either order.
  have level : fading settings entry =
      settings.release.scaleY (tone.velocity * settings.attack.lastValue) := by
    rw [fading, velocity, commutes.comm]
  simp [score, level]

/-- What is written down of other voices does not matter to a voice that is held. -/
theorem add (held : Held settings recorder entry) {records : List (Record α)}
    (others : ∀ record ∈ records, record.voice ≠ entry.voice) :
    Held settings (recorder.add records) entry := by
  rw [Held, Recorder.lines_add_other others]
  exact held

end Held

/-- What is written down of other voices does not matter to a voice. -/
theorem Told.add {voice : Nat} (told : Told settings recorder voice) {records : List (Record α)}
    (others : ∀ record ∈ records, record.voice ≠ voice) :
    Told settings (recorder.add records) voice := by
  rw [Told, Recorder.lines_add_other others]
  exact told

namespace Conducted

/-- An entry may leave if its voice has been told well-formed commands to the last. -/
theorem leave (conducted : Conducted settings recorder (entry :: entries))
    {records : List (Record α)} (about : ∀ record ∈ records, record.voice = entry.voice)
    (told : Told settings (recorder.add records) entry.voice) :
    Conducted settings (recorder.add records) entries where
  toOwned := conducted.toOwned.leave about
  held other member := by
    refine (conducted.held other (List.mem_cons_of_mem _ member)).add fun record inside => ?_
    exact about record inside ▸ conducted.voice_ne member
  told voice known := by
    -- Only the voice of the entry is told anything.
    by_cases own : entry.voice = voice
    · exact own ▸ told
    · exact (conducted.told voice known).add fun record inside => about record inside ▸ own

/-- A recorder that has not been asked for anything has told no voice anything. -/
theorem initial (admits : Nat → Bool) (now : α) (settings : Settings α) :
    Conducted settings (new ({ admits } : Recorder α) now settings).generator
      (new ({ admits } : Recorder α) now settings).entries where
  toOwned := .initial admits now settings
  held := by simp [entries, new, slots, Lanes.slots]
  told voice known := by simp [new] at known

/-- Every hand-over continues the commands of each voice as it should. -/
theorem handover [Std.Commutative (fun x y : α => x * y)] {rules : Rules α} {now : α}
    {before after : Recorder α × List (Entry α)} (conducted : Conducted settings before.1 before.2)
    (step : Handover rules settings now before after) :
    Conducted settings after.1 after.2 := by
  have owned := conducted.toOwned.handover step
  cases step with
  | swap perm =>
    exact { owned with
      held := fun entry member => conducted.held entry (perm.mem_iff.mpr member)
      told := conducted.told }
  | refuse => exact { owned with held := conducted.held, told := conducted.told }
  | @enter recorder entries id cue tone fit finish =>
    -- The new voice has no lines before its creation, and its part is that of the tone.
    have fresh : recorder.lines recorder.created = [] :=
      List.filter_eq_nil_iff.mpr fun record member => by
        simpa using conducted.voice_ne_created member
    have lines : (recorder.add (opening settings recorder.created tone)).lines recorder.created =
        .created recorder.created tone ::
          (score settings tone []).map (.commanded recorder.created) := by
      rw [Recorder.lines_add (voice_of_mem_opening _ _ _), fresh, opening_eq, List.nil_append]
    have entered : Held settings (recorder.add (opening settings recorder.created tone))
        ⟨id, recorder.created, tone.start, tone.finish, tone.velocity⟩ :=
      ⟨tone, [], lines, trivial, rfl, rfl⟩
    have others : ∀ voice < recorder.created, ∀ record ∈ opening settings recorder.created tone,
        record.voice ≠ voice := fun voice known record member => by
      rw [voice_of_mem_opening _ _ _ record member]
      exact Nat.ne_of_gt known
    refine { owned with held := fun entry member => ?_, told := fun voice known => ?_ }
    · rcases List.mem_cons.mp member with rfl | inside
      · exact entered
      · exact (conducted.held entry inside).add (others _ (conducted.known entry inside))
    · rcases Nat.lt_succ_iff_lt_or_eq.mp known with older | rfl
      · exact (conducted.told voice older).add (others voice older)
      · exact entered.told
  | destroy =>
    exact conducted.leave (by simp [Record.voice])
      (conducted.held _ (List.mem_cons_self ..)).destroyed
  | displace sounds =>
    exact conducted.leave (by simp [Record.voice])
      ((conducted.held _ (List.mem_cons_self ..)).released sounds).told
  | @fade recorder entries entry sounds =>
    have released := (conducted.held entry (List.mem_cons_self ..)).released sounds
    have left := conducted.leave (by simp [Record.voice]) released.told
    refine { owned with held := fun other member => ?_, told := left.told }
    rcases List.mem_cons.mp member with rfl | inside
    · exact released
    · exact left.held other inside
  | @forget recorder entries entry ended =>
    -- A voice that is forgotten is told nothing, as if no lines were added.
    have told : Told settings (recorder.add []) entry.voice := by
      simpa [Recorder.add] using (conducted.held entry (List.mem_cons_self ..)).told
    simpa [Recorder.add] using conducted.leave (by simp) told

/-- Hand-overs continue the commands of each voice as they should. -/
theorem handovers [Std.Commutative (fun x y : α => x * y)] {rules : Rules α} {now : α}
    {before after : Recorder α × List (Entry α)} (conducted : Conducted settings before.1 before.2)
    (steps : Handovers rules settings now before after) :
    Conducted settings after.1 after.2 := by
  induction steps with
  | refl => exact conducted
  | tail _ step ih => exact ih.handover step

/-- Moves continue the commands of each voice as they should. -/
theorem moves [Std.Commutative (fun x y : α => x * y)] {rules : Rules α}
    {scheduler next : Scheduler (Recorder α) α} {effects : List (Effect α)}
    (moves : Moves rules scheduler effects next)
    (conducted : Conducted scheduler.settings scheduler.generator scheduler.entries) :
    Conducted next.settings next.generator next.entries := by
  -- The induction is on the moves, each of which hands voices over or leaves them.
  induction moves with
  | done => exact conducted
  | step move _ ih =>
    refine ih ?_
    rw [move.settings_eq]
    rcases move.handovers with ⟨generator, entries, _⟩ | ⟨_, handovers⟩
    · rw [generator, entries]
      exact conducted
    · exact conducted.handovers handovers

end Conducted

/-- Every voice that a run creates is told to play its tone, to fade ever earlier and to stop. -/
theorem run_told (admits : Nat → Bool) (now : Float) (settings : Settings Float)
    {requests : List (Request Float)}
    (issued : (new ({ admits } : Recorder Float) now settings).Along Issued requests) {voice : Nat}
    (created :
      voice < ((new ({ admits } : Recorder Float) now settings).run requests).generator.created) :
    Told settings ((new ({ admits } : Recorder Float) now settings).run requests).generator
      voice := by
  have coherent := Coherent.initial .free ({ admits } : Recorder Float) now settings
  have moves := coherent.run_moves (issued.imp fun _ _ => obeys_free)
  have conducted := Conducted.moves moves (.initial admits now settings)
  rw [moves.settings_eq] at conducted
  exact conducted.told voice created

/-- A pitch that is sounded twice and then given up, under a clock that goes back. -/
theorem run_told_again :
    Told .standard ((new ({ admits := fun _ => true } : Recorder Float) 0.0 .standard).run
      [.playPitch ⟨60⟩ 0.5, .setClock 2.0, .playPitch ⟨60⟩ 1.0, .setClock 1.0, .releasePitch ⟨60⟩,
        .cancelAll]).generator 1 :=
  run_told _ 0.0 .standard
    (by exact ⟨trivial, trivial, trivial, trivial, trivial, trivial, trivial⟩) (by decide +kernel)

end Scheduler

end Melody
