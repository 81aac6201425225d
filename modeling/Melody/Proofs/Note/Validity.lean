import Mathlib
import Melody.Proofs.Note.Lasting

/-! Notes have values within their bounds, and they still do when conflicts have been settled. -/

namespace Melody

/-- The values of a note lie within their bounds. -/
structure Note.Valid {α : Type} [Zero α] [One α] [Neg α] [LT α] [LE α] (note : Note α) : Prop where
  start : 0 ≤ note.start
  duration : 0 < note.duration
  velocity : 0 < note.velocity
  pan : -1 ≤ note.pan ∧ note.pan ≤ 1

variable {α : Type} [ExactScalar α]

namespace Note

/-- A start passes its check when it is not below zero. -/
theorem checkStart_eq_ok {start : α} : checkStart start = .ok () ↔ 0 ≤ start := by
  simp [checkStart, ExactScalar.finite]

/-- A duration passes its check when it is above zero. -/
theorem checkDuration_eq_ok {duration : α} : checkDuration duration = .ok () ↔ 0 < duration := by
  simp [checkDuration, Scalar.isPositive_iff]

/-- A velocity passes its check when it is above zero. -/
theorem checkVelocity_eq_ok {velocity : α} : checkVelocity velocity = .ok () ↔ 0 < velocity := by
  simp [checkVelocity, Scalar.isPositive_iff]

/-- A pan passes its check within its bounds. -/
theorem checkPan_eq_ok {pan : α} : checkPan pan = .ok () ↔ -1 ≤ pan ∧ pan ≤ 1 := by
  simp [checkPan]

/-- A note is made of given values exactly when they lie within their bounds. -/
theorem ofParts_eq_ok_iff {pitch : Pitch} {start duration velocity pan : α} {note : Note α} :
    ofParts pitch start duration velocity pan = .ok note ↔
      note = ⟨pitch, start, duration, velocity, pan⟩ ∧ note.Valid := by
  simp only [ofParts, make, withVelocity, withPan, bind_eq_ok]
  -- The four checks are made in order, each of them for one part of validity.
  constructor
  · rintro ⟨_, ⟨_, begins, _, lasts, ⟨⟩⟩, _, ⟨_, sounds, ⟨⟩⟩, _, placed, ⟨⟩⟩
    exact ⟨rfl, checkStart_eq_ok.mp begins, checkDuration_eq_ok.mp lasts,
      checkVelocity_eq_ok.mp sounds, checkPan_eq_ok.mp placed⟩
  · rintro ⟨rfl, begins, lasts, sounds, placed⟩
    exact ⟨_, ⟨_, checkStart_eq_ok.mpr begins, _, checkDuration_eq_ok.mpr lasts, rfl⟩, _,
      ⟨_, checkVelocity_eq_ok.mpr sounds, rfl⟩, _, checkPan_eq_ok.mpr placed, rfl⟩

variable {first second : Note α}

/-- A valid note that is put to a later end is valid. -/
theorem Valid.spanning (valid : first.Valid) (other : α) :
    (first.endingAt (Scalar.larger first.finish other)).Valid :=
  ⟨valid.start, duration_spanning_pos valid.duration other, valid.velocity, valid.pan⟩

/-- The larger of two velocities or pans within bounds lies within them. -/
theorem Valid.larger (one : first.Valid) (other : second.Valid) :
    0 < Scalar.larger first.velocity second.velocity ∧
      -1 ≤ Scalar.larger first.pan second.pan ∧ Scalar.larger first.pan second.pan ≤ 1 := by
  rw [Scalar.larger_eq_max, Scalar.larger_eq_max]
  exact ⟨lt_max_of_lt_left one.velocity, le_max_of_le_left one.pan.1,
    max_le one.pan.2 other.pan.2⟩

end Note

namespace Strategy

variable {first second : Note α}

/-- What is left of two valid notes that are coincident is valid. -/
theorem resolveCoincident_valid (choice : Coincident) (one : first.Valid) (other : second.Valid) :
    ∀ note ∈ resolveCoincident choice first second, note.Valid := by
  have spanning := one.spanning second.finish
  -- A note that is kept is valid already; a joined one combines values that were valid.
  cases choice with
  | sum =>
    have louder := add_pos one.velocity other.velocity
    exact List.forall_mem_singleton.mpr ⟨one.start, spanning.duration, louder, one.pan⟩
  | remove => exact List.forall_mem_nil _
  | longer =>
    show ∀ note ∈ if first.duration < second.duration then [second] else [first], _
    split <;> simpa
  | shorter =>
    show ∀ note ∈ if second.duration < first.duration then [second] else [first], _
    split <;> simpa
  | maxProperties =>
    obtain ⟨velocity, pan⟩ := one.larger other
    exact List.forall_mem_singleton.mpr ⟨one.start, spanning.duration, velocity, pan⟩

/-- What is left of two valid notes that overlap is valid. -/
theorem resolveOverlap_valid (choice : Overlap) (before : first.start < second.start)
    (one : first.Valid) (other : second.Valid) :
    ∀ note ∈ resolveOverlap choice first second, note.Valid := by
  have lasts := resolveOverlap_lasts choice before one.duration other.duration
  cases choice with
  | merge =>
    have spanning := one.spanning second.finish
    obtain ⟨velocity, _⟩ := one.larger other
    exact List.forall_mem_singleton.mpr ⟨one.start, spanning.duration, velocity, one.pan⟩
  | trim =>
    -- Only the duration of the first note changes.
    have trimmed := lasts _ (List.mem_cons_self ..)
    exact List.forall_mem_cons.mpr ⟨⟨one.start, trimmed, one.velocity, one.pan⟩,
      List.forall_mem_singleton.mpr other⟩
  | remove => exact List.forall_mem_nil _
  | first => exact List.forall_mem_singleton.mpr one
  | second => exact List.forall_mem_singleton.mpr other

/-- What is left of two valid notes is valid. -/
theorem resolve_valid (strategy : Strategy) (starts : first.start ≤ second.start)
    (one : first.Valid) (other : second.Valid) :
    ∀ note ∈ strategy.resolve first second, note.Valid := by
  -- Notes that start apart are settled as an overlap, in which the first starts earlier.
  unfold resolve
  by_cases together : startTogether first second = true
  · rw [if_pos together]
    exact resolveCoincident_valid _ one other
  · rw [if_neg together]
    have apart : first.start ≠ second.start := fun same => together (startTogether_of_eq same)
    exact resolveOverlap_valid _ (lt_of_le_of_ne starts apart) one other

/-- What is left of two notes has the pitch of one of them. -/
theorem resolve_pitch (strategy : Strategy) (first second : Note α) :
    ∀ note ∈ strategy.resolve first second,
      note.pitch = first.pitch ∨ note.pitch = second.pitch :=
  fun note member => (strategy.resolve_from first second note member).imp And.left And.left

end Strategy

namespace Resolution

variable {notes : List (Note α)}

/-- A note of a pair that is aligned with the other one is valid if both are. -/
theorem align_valid {first second : Note α} (one : first.Valid) (other : second.Valid) :
    (align first second).Valid := by
  unfold align
  split
  · -- The start that the first note gets is that of the second one.
    exact ⟨other.start, one.duration, one.velocity, one.pan⟩
  · exact one

/-- Settling the conflicts among valid notes leaves valid notes. -/
theorem settle_valid (strategy : Strategy) (valid : ∀ note ∈ notes, note.Valid) :
    ∀ note ∈ settle strategy notes, note.Valid := by
  refine settle_keeps (fun starts one other => ?_) valid
  exact strategy.resolve_valid (start_align_le starts) (align_valid one other) other

/-- Settling the conflicts among notes brings in no pitch. -/
theorem settle_pitch (strategy : Strategy) {holds : Pitch → Prop}
    (all : ∀ note ∈ notes, holds note.pitch) :
    ∀ note ∈ settle strategy notes, holds note.pitch := by
  refine settle_keeps (fun {first second} _ one other note member => ?_) all
  -- Aligning changes a start, never a pitch.
  have aligned : (align first second).pitch = first.pitch := by
    unfold align
    split <;> rfl
  rcases strategy.resolve_pitch _ _ note member with same | same
  · rw [same, aligned]
    exact one
  · rw [same]
    exact other

end Resolution

end Melody
