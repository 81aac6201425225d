import Mathlib
import Melody.Json.Tempo
import Melody.Proofs.Json.Doubles
import Melody.Proofs.Json.Numbers
import Melody.Proofs.Json.Writing
import Melody.Proofs.Note.Settled
import Melody.Proofs.Tempo

/-! Tempos are checked when they are made of numbers, but not when they are read from a text. -/

namespace Melody.Tempo

open Json

section Making

variable {α : Type} [Scalar α] {tempo next : Tempo α} {bpm offset beatMeaning : α}

/-- A tempo whose numbers pass the checks of those that tempos are made of. -/
structure Checked (tempo : Tempo α) : Prop where
  bpm : Scalar.isPositive tempo.bpm = true
  offset : Scalar.isFinite tempo.offset = true
  beatMeaning : Scalar.isPositive tempo.beatMeaning = true

/-- A tempo is made of a positive pace and a finite offset. -/
theorem make_eq_ok_iff : make bpm offset = .ok tempo ↔ Scalar.isPositive bpm = true ∧
    Scalar.isFinite offset = true ∧ tempo = { (standard : Tempo α) with bpm, offset } := by
  unfold make
  cases Scalar.isPositive bpm <;> cases Scalar.isFinite offset <;> simp [eq_comm]

/-- The meaning of a beat is set to any that is positive. -/
theorem withBeatMeaning_eq_ok_iff : tempo.withBeatMeaning beatMeaning = .ok next ↔
    Scalar.isPositive beatMeaning = true ∧ next = { tempo with beatMeaning } := by
  unfold withBeatMeaning
  cases Scalar.isPositive beatMeaning <;> simp [eq_comm]

variable [Numeric α]

/-- The tempos that can be made, in any number of steps. -/
inductive Made : Tempo α → Prop where
  | standard : Made standard
  | make {bpm offset : α} {tempo : Tempo α} (made : make bpm offset = .ok tempo) : Made tempo
  | withBeatMeaning {tempo next : Tempo α} {beatMeaning : α} (before : Made tempo)
    (made : tempo.withBeatMeaning beatMeaning = .ok next) : Made next
  | ofJson {text : String} {tempo : Tempo α} (read : ofJson text = .ok tempo) : Made tempo

/-- A tempo that is read from a text, with the beat meaning that it has there or a checked one. -/
def Read (tempo : Tempo α) : Prop :=
  ∃ text read, ofJson text = .ok read ∧
    (tempo = read ∨ ∃ beatMeaning, read.withBeatMeaning beatMeaning = .ok tempo)

/-- A checked tempo is made of its numbers. -/
theorem Checked.made (checked : tempo.Checked) : Made tempo :=
  .withBeatMeaning (.make (make_eq_ok_iff.mpr ⟨checked.bpm, checked.offset, rfl⟩))
    (withBeatMeaning_eq_ok_iff.mpr ⟨checked.beatMeaning, rfl⟩)

/-- The tempos that can be made are those that are checked and those that are read from a text. -/
theorem made_iff (usual : (standard : Tempo α).Checked) :
    Made tempo ↔ tempo.Checked ∨ tempo.Read := by
  constructor
  · intro made
    -- Each way to make a tempo keeps its numbers checked, or those of the text that it is from.
    induction made with
    | standard => exact Or.inl usual
    | make made =>
      obtain ⟨positive, finite, rfl⟩ := make_eq_ok_iff.mp made
      exact Or.inl ⟨positive, finite, usual.beatMeaning⟩
    | withBeatMeaning _ made ih =>
      obtain ⟨positive, rfl⟩ := withBeatMeaning_eq_ok_iff.mp made
      rcases ih with checked | ⟨text, read, found, rfl | ⟨_, before⟩⟩
      · exact Or.inl ⟨checked.bpm, checked.offset, positive⟩
      · exact Or.inr ⟨text, _, found, Or.inr ⟨_, made⟩⟩
      · -- Only the last beat meaning is left.
        obtain ⟨_, rfl⟩ := withBeatMeaning_eq_ok_iff.mp before
        exact Or.inr ⟨text, read, found, Or.inr
          ⟨_, withBeatMeaning_eq_ok_iff.mpr ⟨positive, rfl⟩⟩⟩
    | ofJson read => exact Or.inr ⟨_, _, read, Or.inl rfl⟩
  · rintro (checked | ⟨text, read, found, rfl | ⟨_, changed⟩⟩)
    · exact checked.made
    · exact .ofJson found
    · exact .withBeatMeaning (.ofJson found) changed

end Making

section Reading

variable {α : Type} [Numeric α]

/-- The numbers of a tempo that are read are those of its text, whatever they are. -/
theorem ofJson_writeRecord {bpm offset beatMeaning : String} {tempo : Tempo α}
    (first : readNumber α bpm.toList = .ok (tempo.bpm, []))
    (second : readNumber α offset.toList = .ok (tempo.offset, []))
    (third : readNumber α beatMeaning.toList = .ok (tempo.beatMeaning, [])) :
    ofJson (writeRecord [("bpm", bpm), ("offset", offset), ("beat_meaning", beatMeaning)]) =
      .ok tempo := by
  have names : (slots : List (Json.Slot (Fields α))).map (·.name) =
      ["bpm", "offset", "beat_meaning"] := rfl
  -- The three fields are read into their slots in the order they are written.
  have fills : Fills (slots : List (Json.Slot (Fields α))) {} [
      ("bpm", bpm), ("offset", offset), ("beat_meaning", beatMeaning)]
      ⟨some tempo.bpm, some tempo.offset, some tempo.beatMeaning⟩ := by
    refine .cons rfl (by decide) rfl (Slot.reads_of (reads_number first) _) ?_
    refine .cons rfl (by decide) rfl (Slot.reads_of (reads_number second) _) ?_
    refine .cons rfl (by decide) rfl (Slot.reads_of (reads_number third) _) ?_
    exact .nil
  exact readWhole_of_reads (reads_record (named_of_nodup names (by decide)) fills rfl)

/-- The numbers of a tempo are of some kind. -/
structure Each {α : Type} (holds : α → Prop) (tempo : Tempo α) : Prop where
  bpm : holds tempo.bpm
  offset : holds tempo.offset
  beatMeaning : holds tempo.beatMeaning

/-- The numbers of a tempo that is read are of the kind that numbers are read as. -/
theorem each_of_ofJson {holds : α → Prop} (gives : Reader.Gives (readNumber α) holds)
    {text : String} {tempo : Tempo α} (read : ofJson text = .ok tempo) : tempo.Each holds := by
  -- What is known of a record holds of the fields that have been read so far.
  let Known (fields : Fields α) : Prop := (∀ x ∈ fields.bpm, holds x) ∧
    (∀ x ∈ fields.offset, holds x) ∧ ∀ x ∈ fields.beatMeaning, holds x
  have keeps : ∀ slot ∈ (slots : List (Json.Slot (Fields α))), slot.Keeps Known := by
    simp only [slots, List.forall_mem_cons]
    refine ⟨Slot.keeps_of gives fun _ _ known held => ⟨?_, known.2⟩,
      Slot.keeps_of gives fun _ _ known held => ⟨known.1, ?_, known.2.2⟩,
      Slot.keeps_of gives fun _ _ known held => ⟨known.1, known.2.1, ?_⟩, List.forall_mem_nil _⟩ <;>
    · rintro _ ⟨⟩
      exact held
  have unread : Known {} := ⟨nofun, nofun, nofun⟩
  refine readWhole_gives (readRecord_gives keeps unread fun fields tempo known built => ?_) read
  obtain ⟨bpm, first, built⟩ := bind_eq_ok.mp built
  obtain ⟨offset, second, built⟩ := bind_eq_ok.mp built
  obtain ⟨beatMeaning, third, ⟨⟩⟩ := bind_eq_ok.mp built
  exact ⟨known.1 _ (need_eq_ok.mp first), known.2.1 _ (need_eq_ok.mp second),
    known.2.2 _ (need_eq_ok.mp third)⟩

end Reading

section Doubles

/-- The standard tempo passes all checks on doubles. -/
theorem checked_standard : (standard : Tempo Float).Checked := by
  constructor <;> decide +kernel

/-- All numbers of a tempo on doubles are finite, however it is made. -/
theorem Made.finite {tempo : Tempo Float} (made : Made tempo) :
    tempo.Each fun x => x.isFinite = true := by
  have finite : ∀ {x : Float}, Scalar.isPositive x = true → x.isFinite = true :=
    fun positive => (Bool.and_eq_true_iff.mp positive).1
  -- A tempo is checked as it is made, or was read, perhaps with another meaning of the beat.
  rcases (made_iff checked_standard).mp made with checked | ⟨_, _, found, rfl | ⟨_, changed⟩⟩
  · exact ⟨finite checked.bpm, checked.offset, finite checked.beatMeaning⟩
  · exact each_of_ofJson readNumber_finite found
  · have each := each_of_ofJson readNumber_finite found
    obtain ⟨positive, rfl⟩ := withBeatMeaning_eq_ok_iff.mp changed
    exact ⟨each.bpm, each.offset, finite positive⟩

end Doubles

section Exact

variable {α : Type} [ExactScalar α] {tempo : Tempo α}

/-- A tempo in which later beats fall on later seconds, which stand for them, and in which notes go
on lasting and touching. -/
structure Proceeds (tempo : Tempo α) : Prop where
  rising : StrictMono tempo.toAbsolute
  beats : ∀ beat, tempo.toBeat (tempo.toAbsolute beat) = beat
  seconds : ∀ time, tempo.toAbsolute (tempo.toBeat time) = time
  lasting : ∀ note : Note α, note.Valid → 0 < (tempo.noteToAbsolute note).duration
  touching : ∀ first second : Note α, first.finish = second.start →
    (tempo.noteToAbsolute first).finish = (tempo.noteToAbsolute second).start

/-- A tempo proceeds exactly when its numbers of beats have one sign. -/
theorem proceeds_iff : tempo.Proceeds ↔ 0 < tempo.bpm * tempo.beatMeaning := by
  have length : 0 < tempo.beatMeaning * 60 / tempo.bpm ↔ 0 < tempo.bpm * tempo.beatMeaning := by
    have sixty : (0 : α) < 60 := by norm_num
    rw [div_pos_iff, mul_pos_iff_of_pos_right sixty, ← neg_pos, ← neg_mul,
      mul_pos_iff_of_pos_right sixty, neg_pos, mul_pos_iff]
    tauto
  rw [← length]
  constructor
  · intro proceeds
    -- One beat must take a time above zero.
    have step := proceeds.rising zero_lt_one
    rwa [toAbsolute_eq, toAbsolute_eq, zero_mul, one_mul, add_lt_add_iff_right] at step
  · intro positive
    have rising : StrictMono tempo.toAbsolute := fun first second before => by
      rw [toAbsolute_eq, toAbsolute_eq, add_lt_add_iff_right]
      exact mul_lt_mul_of_pos_right before positive
    obtain ⟨bpm, beatMeaning⟩ := mul_ne_zero_iff.mp (length.mp positive).ne'
    refine ⟨rising, fun beat => ?_, fun time => ?_, fun note valid => ?_,
      fun first second touch => ?_⟩
    · rw [toAbsolute_eq, toBeat, Scalar.sixty_eq, add_sub_cancel_right]
      field_simp
    · rw [toAbsolute_eq, toBeat, Scalar.sixty_eq]
      field_simp
      ring
    · exact sub_pos.mpr (rising (lt_add_of_pos_right _ valid.duration))
    · rw [finish_noteToAbsolute, touch]
      rfl

/-- A tempo that passes its checks proceeds. -/
theorem Checked.proceeds (checked : tempo.Checked) : tempo.Proceeds :=
  proceeds_iff.mpr
    (mul_pos (Scalar.isPositive_iff.mp checked.bpm) (Scalar.isPositive_iff.mp checked.beatMeaning))

/-- The standard tempo passes all checks in exact arithmetic. -/
theorem checked_standard_exact : (standard : Tempo α).Checked := by
  -- The literals are those of the field.
  have bpm : (standard : Tempo α).bpm = 120 :=
    (ExactScalar.literal 1200 true 1).trans (by norm_num)
  have beatMeaning : (standard : Tempo α).beatMeaning = 4 :=
    (ExactScalar.literal 40 true 1).trans (by norm_num)
  refine ⟨Scalar.isPositive_iff.mpr ?_, ExactScalar.finite _, Scalar.isPositive_iff.mpr ?_⟩
  · rw [bpm]
    norm_num
  · rw [beatMeaning]
    norm_num

end Exact

/-- Tempos are checked unless they are read from a text, whose numbers may be any, though only
finite ones on doubles. Without rounding a tempo proceeds if its numbers of beats have one sign, as
those of checked tempos have. -/
theorem made_spec {α : Type} [ExactScalar α] [Numeric α] :
    (∀ tempo : Tempo Float, (Made tempo ↔ tempo.Checked ∨ tempo.Read) ∧
      (Made tempo → tempo.Each fun x => x.isFinite = true)) ∧
    (∀ (tempo : Tempo Float) (bpm offset beatMeaning : String),
      readNumber Float bpm.toList = .ok (tempo.bpm, []) →
      readNumber Float offset.toList = .ok (tempo.offset, []) →
      readNumber Float beatMeaning.toList = .ok (tempo.beatMeaning, []) →
      ofJson (writeRecord [("bpm", bpm), ("offset", offset), ("beat_meaning", beatMeaning)]) =
        .ok tempo) ∧
    ∀ tempo : Tempo α, (Made tempo ↔ tempo.Checked ∨ tempo.Read) ∧
      (tempo.Checked → tempo.Proceeds) ∧ (tempo.Proceeds ↔ 0 < tempo.bpm * tempo.beatMeaning) :=
  ⟨fun _ => ⟨made_iff checked_standard, Made.finite⟩,
    fun _ _ _ _ first second third => ofJson_writeRecord first second third,
    fun _ => ⟨made_iff checked_standard_exact, Checked.proceeds, proceeds_iff⟩⟩

/-- A tempo below zero is read from a text, though none can be made of its numbers, and a tempo like
it does not proceed. -/
theorem made_spec_backwards :
    letI := ExactScalar.rational
    Made (⟨-120.0, 0.0, 4.0⟩ : Tempo Float) ∧ ¬ Checked (⟨-120.0, 0.0, 4.0⟩ : Tempo Float) ∧
      ¬ Proceeds (⟨-120, 0, 4⟩ : Tempo ℚ) := by
  let := ExactScalar.rational
  let : Numeric ℚ := ⟨fun _ => none, fun _ => ""⟩
  obtain ⟨_, reads, exact⟩ := @made_spec ℚ _ _
  -- The text is read without a check, and gives a tempo that goes backwards.
  refine ⟨?_, fun checked => ?_, fun proceeds => ?_⟩
  · exact .ofJson (reads ⟨-120.0, 0.0, 4.0⟩ "-120.0" "0.0" "4.0" (by decide +kernel)
      (by decide +kernel) (by decide +kernel))
  · exact absurd checked.bpm (by decide +kernel)
  · have positive := (exact ⟨-120, 0, 4⟩).2.2.mp proceeds
    norm_num at positive

end Melody.Tempo
