import Melody.Proofs.Json.Numbers
import Melody.Proofs.Note.Validity

/-! Groups stay in order, free of conflicts and valid, whatever is done to them. -/

namespace Melody

/-- Rational numbers are exact, though not with the functions of curves, which are left out. -/
abbrev ExactScalar.rational : ExactScalar ℚ where
  __ : Analytic ℚ := ⟨fun x _ => x, id, id, id, id, fun y _ => y, id, 0⟩
  __ := (inferInstance : Field ℚ)
  __ := (inferInstance : LinearOrder ℚ)
  __ := (inferInstance : IsStrictOrderedRing ℚ)
  finite := fun _ => rfl
  order_eq := fun _ _ => rfl
  literal := fun _ _ _ => rfl

namespace Resolution

/-- Sorted notes without conflicts are settled already. -/
theorem settle_eq_self (strategy : Strategy) {notes : List (Note ℚ)}
    (sorted : notes.Pairwise fun first second => inOrder first second = true)
    (apart : notes.Pairwise fun first second => first.conflictsWith second = false) :
    settle strategy notes = notes := by
  have still : sort notes = notes := List.mergeSort_of_pairwise sorted
  have done : step? strategy notes = none :=
    Option.map_eq_none_iff.mpr (firstConflict?_eq_none.mpr apart)
  -- There is at least one round, and it finds nothing to replace.
  obtain ⟨rounds, limit⟩ : ∃ rounds, roundLimit notes.length = rounds + 1 :=
    Nat.exists_eq_succ_of_ne_zero (by simp [roundLimit])
  rw [settle, still, limit, settleWithin, done]
  rfl

end Resolution

/-- A note moved in time, to wherever that is. -/
def Note.moved (note : Note ℚ) (offset : ℚ) : Note ℚ :=
  { note with start := note.start + offset }

namespace Group

open Resolution

/-- All notes are moved if none of them would start before zero. -/
theorem shiftNotes_eq {offset : ℚ} {notes : List (Note ℚ)}
    (begins : ∀ note ∈ notes, 0 ≤ note.start + offset) :
    shiftNotes offset notes = (notes.map (·.moved offset), .ok ()) := by
  induction notes with
  | nil => rfl
  | cons note later ih =>
    obtain ⟨first, others⟩ := List.forall_mem_cons.mp begins
    -- A start that stays at or above zero passes its check.
    have shifted : note.shift offset = .ok (note.moved offset) :=
      bind_eq_ok.mpr ⟨_, (@Note.checkStart_eq_ok ℚ ExactScalar.rational _).mpr first, rfl⟩
    rw [shiftNotes, shifted, ih others]
    rfl

/-- The notes are in order by start and pitch, no two of them conflict, and they are valid. -/
structure Settled (group : Group ℚ) : Prop where
  sorted : group.notes.Pairwise fun first second =>
    first.start < second.start ∨
      first.start = second.start ∧ first.pitch.index ≤ second.pitch.index
  apart : group.notes.Pairwise fun first second =>
    first.conflictsWith second = false ∧ second.conflictsWith first = false
  valid : ∀ note ∈ group.notes, note.Valid
  /-- The pitches have 32 bits. -/
  words : ∀ note ∈ group.notes, Json.IsWord note.pitch.index

namespace Settled

variable {group : Group ℚ}

/-- Settled notes are left as they are when they are settled again. -/
theorem ofNotes_eq (settled : group.Settled) : ofNotes group.notes group.strategy = group := by
  have same : settle group.strategy group.notes = group.notes :=
    settle_eq_self _ (settled.sorted.imp inOrder_iff.mpr) (settled.apart.imp And.left)
  rw [ofNotes, same]

/-- Valid notes make up a settled group. -/
theorem ofNotes {notes : List (Note ℚ)} (valid : ∀ note ∈ notes, note.Valid)
    (words : ∀ note ∈ notes, Json.IsWord note.pitch.index) (strategy : Strategy) :
    (Group.ofNotes notes strategy).Settled := by
  obtain ⟨_, done, sorted⟩ := settle_spec strategy notes
  have free : firstConflict? (settle strategy notes) = none := Option.map_eq_none_iff.mp done
  -- Settling ends without a conflict, and keeps what every single note had.
  refine ⟨sorted.imp inOrder_iff.mp, ?_, ?_, ?_⟩
  · refine (firstConflict?_eq_none.mp free).imp fun {first second} apart => ⟨apart, ?_⟩
    rw [Note.conflictsWith_comm]
    exact apart
  · exact @settle_valid ℚ ExactScalar.rational notes strategy valid
  · exact @settle_pitch ℚ ExactScalar.rational notes strategy (Json.IsWord ·.index) words

/-- Without notes there is nothing to settle. -/
theorem empty : Settled {} :=
  ⟨.nil, .nil, List.forall_mem_nil _, List.forall_mem_nil _⟩

/-- Valid notes that are added to a settled group leave it settled. -/
theorem addAll (settled : group.Settled) {notes : List (Note ℚ)}
    (fit : ∀ note ∈ notes, note.Valid ∧ Json.IsWord note.pitch.index) :
    (group.addAll notes).Settled := by
  apply Settled.ofNotes
  · exact List.forall_mem_append.mpr ⟨settled.valid, fun note member => (fit note member).1⟩
  · exact List.forall_mem_append.mpr ⟨settled.words, fun note member => (fit note member).2⟩

/-- A settled group without some of its notes is settled. -/
theorem sublist (settled : group.Settled) {notes : List (Note ℚ)}
    (fewer : notes.Sublist group.notes) : Settled { group with notes } where
  sorted := settled.sorted.sublist fewer
  apart := settled.apart.sublist fewer
  valid := fun note member => settled.valid note (fewer.subset member)
  words := fun note member => settled.words note (fewer.subset member)

/-- Taking a note out of a settled group leaves all others as they were. -/
theorem remove?_eq (settled : group.Settled) (index : Nat) :
    group.remove? index = group.notes[index]?.map fun note =>
      (note, { group with notes := group.notes.eraseIdx index }) := by
  have fewer := settled.sublist (List.eraseIdx_sublist group.notes index)
  rw [remove?, fewer.ofNotes_eq]

/-- A group whose notes are changed in a way that keeps their order, their conflicts and their
validity is settled. -/
theorem map (settled : group.Settled) {change : Note ℚ → Note ℚ}
    (ordered : ∀ {first second}, inOrder first second = true →
      inOrder (change first) (change second) = true)
    (clear : ∀ {first second}, first.conflictsWith second = false →
      (change first).conflictsWith (change second) = false)
    (valid : ∀ note ∈ group.notes, (change note).Valid)
    (words : ∀ note ∈ group.notes, Json.IsWord (change note).pitch.index) :
    Settled { group with notes := group.notes.map change } where
  sorted := List.pairwise_map.mpr (settled.sorted.imp fun before =>
    inOrder_iff.mp (ordered (inOrder_iff.mpr before)))
  apart := List.pairwise_map.mpr (settled.apart.imp fun ⟨one, other⟩ => ⟨clear one, clear other⟩)
  valid := List.forall_mem_map.mpr valid
  words := List.forall_mem_map.mpr words

/-- Raising or lowering all pitches leaves a settled group settled. -/
theorem transpose (settled : group.Settled) {interval : Interval}
    (words : ∀ note ∈ group.notes, Json.IsWord (note.pitch + interval).index) :
    (group.transpose interval).Settled := by
  have index : ∀ pitch : Pitch, (pitch + interval).index = pitch.index + interval.semitones :=
    fun _ => rfl
  refine settled.map ?_ ?_ ?_ words
  · intro first second before
    rw [inOrder_iff] at before ⊢
    simpa [Note.transpose, index] using before
  · intro first second apart
    -- Pitches that differ before still do, and the times are the same.
    rw [← Bool.not_eq_true, Note.conflictsWith_iff] at apart ⊢
    intro ⟨pitch, begins, ends⟩
    have raised : first.pitch.index + interval.semitones =
        second.pitch.index + interval.semitones := congrArg Pitch.index pitch
    have same : first.pitch.index = second.pitch.index := by omega
    exact apart ⟨congrArg Pitch.mk same, begins, ends⟩
  · intro note member
    obtain ⟨start, duration, velocity, pan⟩ := settled.valid note member
    exact ⟨start, duration, velocity, pan⟩

/-- Scaling all velocities leaves a settled group settled. -/
theorem amplify (settled : group.Settled) {factor : ℚ} {next : Group ℚ}
    (amplified : group.amplify factor = .ok next) : next.Settled := by
  obtain ⟨notes, scaled, same⟩ := bind_eq_ok.mp amplified
  cases same
  have only : ∀ {note louder : Note ℚ}, note.amplify factor = .ok louder →
      louder = { note with velocity := note.velocity * factor } := by
    intro note louder passed
    obtain ⟨_, _, set⟩ := bind_eq_ok.mp passed
    obtain ⟨_, _, same⟩ := bind_eq_ok.mp set
    cases same
    rfl
  obtain ⟨rfl, all⟩ := mapM_eq_map only scaled
  refine settled.map id id (fun note member => ?_) settled.words
  obtain ⟨start, duration, _, pan⟩ := settled.valid note member
  -- The note passed the check of its new velocity.
  obtain ⟨_, _, set⟩ := bind_eq_ok.mp (all note member)
  obtain ⟨_, loud, _⟩ := bind_eq_ok.mp set
  exact ⟨start, duration, (@Note.checkVelocity_eq_ok ℚ ExactScalar.rational _).mp loud, pan⟩

/-- A settled group whose notes all move in time is settled. -/
theorem mapMoved (settled : group.Settled) {offset : ℚ}
    (begins : ∀ note ∈ group.notes, 0 ≤ note.start + offset) :
    Settled { group with notes := group.notes.map (·.moved offset) } := by
  refine settled.map ?_ ?_ ?_ settled.words
  · intro first second before
    rw [inOrder_iff] at before ⊢
    simpa [Note.moved] using before
  · intro first second apart
    -- A conflict is about differences of times, which do not change.
    rw [← Bool.not_eq_true, Note.conflictsWith_iff] at apart ⊢
    intro ⟨pitch, starts, ends⟩
    simp only [Note.moved, Note.finish] at starts ends
    refine apart ⟨pitch, ?_, ?_⟩
    · rw [Note.finish]
      linarith
    · rw [Note.finish]
      linarith
  · intro note member
    obtain ⟨_, duration, velocity, pan⟩ := settled.valid note member
    exact ⟨begins note member, duration, velocity, pan⟩

/-- Moving all notes in time leaves a settled group settled, also if the notes are not moved. -/
theorem shift (settled : group.Settled) (offset : ℚ) : (group.shift offset).1.Settled := by
  obtain ⟨notes, strategy⟩ := group
  cases notes with
  | nil => exact settled
  | cons first later =>
    unfold Group.shift
    rw [show Group.start? ⟨first :: later, strategy⟩ = some first.start from rfl, Option.map_some]
    cases checked : Note.checkStart (first.start + offset) with
    | error error => exact settled
    | ok passed =>
      have begins : 0 ≤ first.start + offset :=
        (@Note.checkStart_eq_ok ℚ ExactScalar.rational _).mp checked
      -- No note starts before the first one, so that none is refused.
      have all : ∀ note ∈ first :: later, 0 ≤ note.start + offset := by
        refine List.forall_mem_cons.mpr ⟨begins, fun note member => ?_⟩
        have ordered := (List.pairwise_cons.mp settled.sorted).1 note member
        have after : first.start ≤ note.start := by
          rcases ordered with before | ⟨same, _⟩
          · exact before.le
          · exact same.le
        linarith
      show Settled ⟨(shiftNotes offset (first :: later)).1, strategy⟩
      rw [shiftNotes_eq all]
      exact settled.mapMoved all

end Settled

end Group

end Melody
