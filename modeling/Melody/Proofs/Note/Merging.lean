import Mathlib.Order.Interval.Set.LinearOrder
import Melody.Proofs.Note.Chords

/-! Merging keeps each pitch sounding at the very times at which it sounded before. -/

namespace Melody

/-- Of two conflicting notes one is left that reaches as far as both. -/
structure Strategy.Spanning (strategy : Strategy) : Prop where
  overlap : strategy.overlap = .merge
  coincident : strategy.coincident ∈ [Coincident.sum, .longer, .maxProperties]

namespace Resolution

variable {origin notes others next : List (Note ℚ)} {first second note : Note ℚ} {pitch : Pitch}
  {strategy : Strategy}

/-- The times at which notes of a pitch sound, each from its start on and no longer at its end. -/
def sounding (pitch : Pitch) (notes : List (Note ℚ)) : Set ℚ :=
  {time | ∃ note ∈ notes, note.pitch = pitch ∧ time ∈ Set.Ico note.start note.finish}

/-- The times at which notes of a pitch start. -/
def starts (pitch : Pitch) (notes : List (Note ℚ)) : Set ℚ :=
  {time | ∃ note ∈ notes, note.pitch = pitch ∧ note.start = time}

/-- Different starts of one pitch are farther apart than the tolerance. -/
def Spaced (notes : List (Note ℚ)) : Prop :=
  ∀ pitch, (starts pitch notes).Pairwise fun one other => Note.tolerance < |other - one|

section Times

/-- A pitch sounds at a time when one of its notes spans it. -/
theorem mem_sounding {time : ℚ} : time ∈ sounding pitch notes ↔
    ∃ note ∈ notes, note.pitch = pitch ∧ time ∈ Set.Ico note.start note.finish :=
  Iff.rfl

/-- A time is a start of a pitch when one of its notes starts then. -/
theorem mem_starts {time : ℚ} : time ∈ starts pitch notes ↔
    ∃ note ∈ notes, note.pitch = pitch ∧ note.start = time :=
  Iff.rfl

/-- It does not matter in which order the notes stand. -/
theorem sounding_perm (perm : notes.Perm others) :
    sounding pitch notes = sounding pitch others := by
  ext time
  simp only [mem_sounding, perm.mem_iff]

/-- The starts of a pitch do not depend on the order of the notes. -/
theorem starts_perm (perm : notes.Perm others) : starts pitch notes = starts pitch others := by
  ext time
  simp only [mem_starts, perm.mem_iff]

/-- A note of the pitch adds its span. -/
theorem sounding_cons_here (here : note.pitch = pitch) (notes : List (Note ℚ)) :
    sounding pitch (note :: notes) = Set.Ico note.start note.finish ∪ sounding pitch notes := by
  ext time
  simp [mem_sounding, here]

/-- A note of another pitch adds nothing. -/
theorem sounding_cons_there (elsewhere : note.pitch ≠ pitch) (notes : List (Note ℚ)) :
    sounding pitch (note :: notes) = sounding pitch notes := by
  ext time
  simp [mem_sounding, elsewhere]

/-- Two notes of one pitch start together only if they do so at one time. -/
theorem Spaced.start_eq (spaced : Spaced notes) (one : first ∈ notes) (other : second ∈ notes)
    (same : first.pitch = second.pitch) (together : Strategy.startTogether first second = true) :
    first.start = second.start := by
  by_contra different
  have apart := spaced second.pitch ⟨first, one, same, rfl⟩ ⟨second, other, rfl, rfl⟩ different
  exact absurd (startTogether_iff.mp together) (not_le.mpr apart)

end Times

/-- What is left of a conflicting pair is one note with its pitch and the earlier start, which ends
where the later one of the two does. -/
theorem resolve_spanning (spanning : strategy.Spanning) (pitch : first.pitch = second.pitch)
    (apart : Strategy.startTogether first second = true → first.start = second.start) :
    ∃ kept, strategy.resolve (align first second) second = [kept] ∧ kept.pitch = first.pitch ∧
      kept.start = first.start ∧ kept.finish = max first.finish second.finish := by
  have latest : Scalar.larger first.finish second.finish = max first.finish second.finish :=
    @Scalar.larger_eq_max ℚ ExactScalar.rational _ _
  by_cases together : Strategy.startTogether first second = true
  · have same := apart together
    have aligned : align first second = first := by
      rw [align, if_pos together, ← same]
    rw [aligned, Strategy.resolve, if_pos together]
    have choices := spanning.coincident
    cases choice : strategy.coincident with
    | sum | maxProperties => exact ⟨_, rfl, rfl, rfl, (Note.finish_endingAt first _).trans latest⟩
    | longer =>
      -- Of two notes that start at one time the longer one ends later.
      show ∃ kept, (if first.duration < second.duration then [second] else [first]) = [kept] ∧ _
      by_cases longer : first.duration < second.duration
      · have later : first.finish ≤ second.finish := by
          rw [Note.finish, Note.finish, same]
          exact add_le_add_right longer.le _
        exact ⟨second, if_pos longer, pitch.symm, same.symm, (max_eq_right later).symm⟩
      · have sooner : second.finish ≤ first.finish := by
          rw [Note.finish, Note.finish, same]
          exact add_le_add_right (not_lt.mp longer) _
        exact ⟨first, if_neg longer, rfl, rfl, (max_eq_left sooner).symm⟩
    | remove | shorter => simp [choice] at choices
  · have aligned : align first second = first := by
      rw [align, if_neg together]
    rw [aligned, Strategy.resolve, if_neg together, spanning.overlap]
    exact ⟨_, rfl, rfl, rfl, (Note.finish_endingAt first _).trans latest⟩

/-- A round leaves each pitch sounding at the same times, and brings in no start. -/
theorem step?_sounding (spanning : strategy.Spanning) (spaced : Spaced notes)
    (sorted : notes.Pairwise fun first second => inOrder first second = true)
    (stepped : step? strategy notes = some next) (pitch : Pitch) :
    sounding pitch next = sounding pitch notes ∧ starts pitch next ⊆ starts pitch notes := by
  obtain ⟨⟨first, second, others⟩, found, rfl⟩ := Option.map_eq_some_iff.mp stepped
  obtain ⟨conflict, perm⟩ := firstConflict?_spec found
  obtain ⟨same, before, reaches⟩ := Note.conflictsWith_iff.mp conflict
  have ordered : first.start ≤ second.start := by
    obtain ⟨early, middle, late, rfl, _⟩ := firstConflict?_first found
    have behind := (List.pairwise_append.mp sorted).2.1
    exact start_le_of_inOrder ((List.pairwise_cons.mp behind).1 second (by simp))
  obtain ⟨kept, resolved, here, start, finish⟩ := resolve_spanning spanning same
    (spaced.start_eq (perm.mem_iff.mpr (by simp)) (perm.mem_iff.mpr (by simp)) same)
  have made : (sort (others ++ strategy.resolve (align first second) second)).Perm
      (kept :: others) := by
    rw [resolved]
    exact (sort_perm _).trans List.perm_append_comm
  dsimp only
  rw [sounding_perm made, sounding_perm perm, starts_perm made, starts_perm perm]
  constructor
  · by_cases place : first.pitch = pitch
    · -- The second note starts before the first one ends, so that no gap is filled.
      have positive := Note.tolerance_pos
      have joined : Set.Ico first.start first.finish ∪ Set.Ico second.start second.finish =
          Set.Ico kept.start kept.finish := by
        rw [start, finish, Set.Ico_union_Ico' (by linarith) (by linarith), min_eq_left ordered]
      rw [sounding_cons_here (here.trans place), sounding_cons_here place,
        sounding_cons_here (same ▸ place), ← Set.union_assoc, joined]
    · rw [sounding_cons_there (here ▸ place), sounding_cons_there place,
        sounding_cons_there (same ▸ place)]
  · rintro time ⟨note, member, at_pitch, at_time⟩
    rcases List.mem_cons.mp member with rfl | other
    · exact ⟨first, by simp, here ▸ at_pitch, start ▸ at_time⟩
    · exact ⟨note, by simp [other], at_pitch, at_time⟩

/-- Notes in order that sound when those of the origin do and start at some of their starts. -/
structure Blended (origin notes : List (Note ℚ)) : Prop where
  sorted : notes.Pairwise fun first second => inOrder first second = true
  sounding : ∀ pitch, sounding pitch notes = sounding pitch origin
  starts : ∀ pitch, starts pitch notes ⊆ starts pitch origin

namespace Blended

/-- Sorted notes sound and start as they did before. -/
theorem sort (notes : List (Note ℚ)) : Blended notes (sort notes) where
  sorted := sort_sorted notes
  sounding := fun _ => sounding_perm (sort_perm notes)
  starts := fun _ => (starts_perm (sort_perm notes)).le

/-- Each round leaves the times of the origin. -/
theorem step (blended : Blended origin notes) (spanning : strategy.Spanning)
    (spaced : Spaced origin) (stepped : step? strategy notes = some next) :
    Blended origin next := by
  -- No start has been brought in, so that those there are lie as far apart as at first.
  have still : Spaced notes := fun pitch => (spaced pitch).mono (blended.starts pitch)
  have round := step?_sounding spanning still blended.sorted stepped
  refine ⟨?_, fun pitch => (round pitch).1.trans (blended.sounding pitch),
    fun pitch => (round pitch).2.trans (blended.starts pitch)⟩
  obtain ⟨_, _, rfl⟩ := Option.map_eq_some_iff.mp stepped
  exact sort_sorted _

end Blended

/-- Merging notes leaves each pitch sounding at just the times at which it did before, and starting
at none but those of its starts, if these are equal or farther apart than the tolerance. -/
theorem settle_sounding (spanning : strategy.Spanning) (spaced : Spaced notes) (pitch : Pitch) :
    sounding pitch (settle strategy notes) = sounding pitch notes ∧
      starts pitch (settle strategy notes) ⊆ starts pitch notes := by
  have blended : Blended notes (settle strategy notes) :=
    settleWithin_keeps (fun blended stepped => blended.step spanning spaced stepped)
      (.sort notes) (settle_spec strategy notes).1
  exact ⟨blended.sounding pitch, blended.starts pitch⟩

/-- A chord that reaches into the next note, which reaches into another one, and a note that starts
where that one ends. -/
def cascade : List (Note ℚ) :=
  [⟨⟨60⟩, 4, 1, 1, 0⟩, ⟨⟨60⟩, 5 / 2, 3 / 2, 1 / 2, 0⟩, ⟨⟨60⟩, 1, 2, 1, 0⟩, ⟨⟨60⟩, 1, 1, 1, 0⟩,
    ⟨⟨60⟩, 0, 3 / 2, 1, 0⟩, ⟨⟨62⟩, 1, 1, 1, 0⟩]

/-- The cascade becomes one note, the last one is left for itself, and no time is lost. -/
theorem settle_sounding_cascade :
    let strategy : Strategy := ⟨.merge, .longer⟩
    strategy.Spanning ∧ Spaced cascade ∧
      (settle strategy cascade).map (fun note => (note.pitch.index, note.start, note.finish)) =
        [(60, 0, 4), (62, 1, 2), (60, 4, 5)] ∧
      sounding ⟨60⟩ (settle strategy cascade) = Set.Ico 0 5 := by
  intro strategy
  have spanning : strategy.Spanning := ⟨rfl, by decide⟩
  have spaced : Spaced cascade := by
    -- All starts of one pitch are farther apart than the tolerance.
    have apart : ∀ first ∈ cascade, ∀ second ∈ cascade, first.pitch = second.pitch →
        first.start ≠ second.start → Note.tolerance < |second.start - first.start| := by
      norm_num [cascade, Note.tolerance]
    rintro pitch _ ⟨first, one, here, rfl⟩ _ ⟨second, other, there, rfl⟩
    exact apart first one second other (here.trans there.symm)
  refine ⟨spanning, spaced, by cbv, ?_⟩
  rw [(settle_sounding spanning spaced ⟨60⟩).1]
  ext time
  norm_num [mem_sounding, cascade, Note.finish]
  grind

end Resolution

end Melody
