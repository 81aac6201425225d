import Melody.Proofs.Scalar.Field
import Melody.Tempo

/-! Beats and seconds stand for each other, in the same order. -/

namespace Melody.Tempo

variable {α : Type} [ExactScalar α]

/-- A tempo in which time goes on. -/
structure Positive (tempo : Tempo α) : Prop where
  bpm : 0 < tempo.bpm
  beatMeaning : 0 < tempo.beatMeaning

/-- The second of a beat is that of beat zero and a beat length for each beat. -/
theorem toAbsolute_eq (tempo : Tempo α) (beat : α) :
    tempo.toAbsolute beat = beat * (tempo.beatMeaning * 60 / tempo.bpm) + tempo.offset := by
  rw [toAbsolute, Scalar.sixty_eq]
  ring

/-- A note in seconds ends on the second of its end. -/
@[simp] theorem finish_noteToAbsolute (tempo : Tempo α) (note : Note α) :
    (tempo.noteToAbsolute note).finish = tempo.toAbsolute note.finish :=
  add_sub_cancel _ _

namespace Positive

variable {tempo : Tempo α}

/-- Every beat takes some time. -/
theorem length_pos (positive : tempo.Positive) : 0 < tempo.beatMeaning * 60 / tempo.bpm :=
  div_pos (mul_pos positive.beatMeaning (by norm_num)) positive.bpm

/-- A second is that of the beat that falls on it. -/
theorem toAbsolute_toBeat (positive : tempo.Positive) (time : α) :
    tempo.toAbsolute (tempo.toBeat time) = time := by
  have bpm := positive.bpm.ne'
  have meaning := positive.beatMeaning.ne'
  rw [toAbsolute_eq, toBeat, Scalar.sixty_eq]
  field_simp
  ring

/-- Later beats fall on later seconds. -/
theorem toAbsolute_lt_iff (positive : tempo.Positive) {first second : α} :
    tempo.toAbsolute first < tempo.toAbsolute second ↔ first < second := by
  rw [toAbsolute_eq, toAbsolute_eq, add_lt_add_iff_right]
  exact mul_lt_mul_iff_left₀ positive.length_pos

/-- A beat lies before that of a second when it falls before the second. -/
theorem lt_toBeat_iff (positive : tempo.Positive) {beat time : α} :
    beat < tempo.toBeat time ↔ tempo.toAbsolute beat < time := by
  rw [← positive.toAbsolute_lt_iff, positive.toAbsolute_toBeat]

end Positive

end Melody.Tempo
