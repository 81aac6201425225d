import Melody.Proofs.Note.Settled
import Melody.Proofs.Sorting

/-! The conflicts of each pitch are settled as if there were no notes of other pitches. -/

namespace Melody

namespace Resolution

variable {strategy : Strategy} {notes others next : List (Note ℚ)} {first second : Note ℚ}

/-- Notes can be chosen before they are sorted or after. -/
theorem filter_sort (keep : Note ℚ → Bool) (notes : List (Note ℚ)) :
    (sort notes).filter keep = sort (notes.filter keep) :=
  filter_mergeSort inOrder_trans inOrder_total keep notes

section Pairing

/-- The partner of a note is found among the notes of its pitch. -/
theorem partner?_filter (note : Note ℚ) (later : List (Note ℚ)) :
    partner? note (later.filter (·.pitch == note.pitch)) =
      (partner? note later).map fun pair =>
        (pair.1, pair.2.filter (·.pitch == note.pitch)) := by
  -- The search passes notes one by one, and those of other pitches never stop it.
  induction later with
  | nil => rfl
  | cons next rest ih =>
    by_cases same : next.pitch = note.pitch
    · rw [List.filter_cons_of_pos (by simpa using same), partner?, partner?, ih]
      by_cases conflict : note.conflictsWith next = true
      · rw [if_pos conflict, if_pos conflict, Option.map_some]
      · -- The note that is passed is one of the pitch.
        rw [if_neg conflict, if_neg conflict, Option.map_map, Option.map_map]
        congr 1
        funext pair
        simp [same]
    · -- A note of another pitch is passed, and then left out.
      have apart : ¬ note.conflictsWith next = true :=
        fun conflict => same (Note.conflictsWith_iff.mp conflict).1.symm
      rw [List.filter_cons_of_neg (by simpa using same), ih, partner?, if_neg apart,
        Option.map_map]
      congr 1
      funext pair
      simp [same]

/-- The first conflict of all is also the first one among the notes of its pitch. -/
theorem firstConflict?_filter (found : firstConflict? notes = some (first, second, others)) :
    firstConflict? (notes.filter (·.pitch == first.pitch)) =
      some (first, second, others.filter (·.pitch == first.pitch)) := by
  induction notes generalizing others with
  | nil => simp [firstConflict?] at found
  | cons note later ih =>
    rw [firstConflict?] at found
    -- Whether the first note has a partner is decided among the notes of its pitch.
    have filtered := partner?_filter note later
    cases partner : partner? note later with
    | some pair =>
      -- The first note and its partner are the pair, and both have the pitch.
      rw [partner] at found filtered
      cases found
      rw [List.filter_cons_of_pos (by simp), firstConflict?, filtered]
      rfl
    | none =>
      rw [partner] at found filtered
      obtain ⟨⟨one, other, rest⟩, further, same⟩ := Option.map_eq_some_iff.mp found
      cases same
      by_cases same : note.pitch = first.pitch
      · -- The note has no partner of its pitch either.
        rw [same] at filtered
        rw [List.filter_cons_of_pos (by simpa using same), firstConflict?, filtered, ih further]
        simp [same]
      · -- A first note of another pitch is left out with the conflicts that it might have.
        rw [List.filter_cons_of_neg (by simpa using same), ih further]
        simp [same]

end Pairing

/-- What is left of a conflicting pair has its pitch. -/
theorem resolve_align_pitch (strategy : Strategy) (conflict : first.conflictsWith second = true) :
    ∀ note ∈ strategy.resolve (align first second) second, note.pitch = first.pitch := by
  intro note member
  -- Aligning moves a start, and no way of resolving makes up a pitch.
  have aligned : (align first second).pitch = first.pitch := by
    unfold align
    split <;> rfl
  rcases @Strategy.resolve_pitch ℚ ExactScalar.rational strategy _ _ note member with one | other
  · exact one.trans aligned
  · exact other.trans (Note.conflictsWith_iff.mp conflict).1.symm

/-- A step among notes in order is one among the notes of a pitch, or does not touch them. -/
theorem step?_filter (pitch : Pitch)
    (sorted : notes.Pairwise fun first second => inOrder first second = true)
    (stepped : step? strategy notes = some next) :
    step? strategy (notes.filter (·.pitch == pitch)) = some (next.filter (·.pitch == pitch)) ∨
      next.filter (·.pitch == pitch) = notes.filter (·.pitch == pitch) := by
  obtain ⟨⟨first, second, others⟩, found, rfl⟩ := Option.map_eq_some_iff.mp stepped
  obtain ⟨conflict, _⟩ := firstConflict?_spec found
  have made := resolve_align_pitch strategy conflict
  simp only [filter_sort, List.filter_append]
  by_cases here : first.pitch = pitch
  · -- The pair is the first one of the pitch too, and all that replaces it has the pitch.
    subst here
    have all : (strategy.resolve (align first second) second).filter (·.pitch == first.pitch) =
        strategy.resolve (align first second) second :=
      List.filter_eq_self.mpr fun note member => by simpa using made note member
    left
    rw [step?, firstConflict?_filter found, Option.map_some, all]
  · -- Neither the pair nor what replaces it has the pitch, and the others keep their order.
    have there : second.pitch ≠ pitch := (Note.conflictsWith_iff.mp conflict).1 ▸ here
    have none : (strategy.resolve (align first second) second).filter (·.pitch == pitch) = [] :=
      List.filter_eq_nil_iff.mpr fun note member => by simpa [made note member] using here
    obtain ⟨early, middle, late, rfl, rfl, _⟩ := firstConflict?_first found
    have left : (early ++ first :: (middle ++ second :: late)).filter (·.pitch == pitch) =
        (early ++ (middle ++ late)).filter (·.pitch == pitch) := by
      simp [here, there]
    have still := List.mergeSort_of_pairwise (sorted.filter (·.pitch == pitch))
    right
    rw [none, List.append_nil, ← left]
    exact still

/-- Rounds that settle notes settle those of a pitch, in as many rounds or fewer. -/
theorem settleWithin_filter (pitch : Pitch) {rounds : Nat} {result : List (Note ℚ)}
    (sorted : notes.Pairwise fun first second => inOrder first second = true)
    (settled : settleWithin strategy rounds notes = some result) :
    ∃ fewer, settleWithin strategy fewer (notes.filter (·.pitch == pitch)) =
      some (result.filter (·.pitch == pitch)) := by
  induction rounds generalizing notes with
  | zero => simp [settleWithin] at settled
  | succ rounds ih =>
    rw [settleWithin] at settled
    cases stepped : step? strategy notes with
    | none =>
      rw [stepped, Option.some.injEq] at settled
      -- No conflict is left among all notes, so there is none among those of the pitch.
      have free := firstConflict?_eq_none.mp (Option.map_eq_none_iff.mp stepped)
      have done : step? strategy (notes.filter (·.pitch == pitch)) = none :=
        Option.map_eq_none_iff.mpr (firstConflict?_eq_none.mpr (free.filter _))
      exact ⟨1, by rw [← settled, settleWithin, done]⟩
    | some next =>
      rw [stepped] at settled
      obtain ⟨_, _, rfl⟩ := Option.map_eq_some_iff.mp stepped
      obtain ⟨fewer, rest⟩ := ih (sort_sorted _) settled
      -- The round is one of the pitch, or it is passed over.
      rcases step?_filter pitch sorted stepped with same | same
      · exact ⟨fewer + 1, by rw [settleWithin, same]; exact rest⟩
      · exact ⟨fewer, same ▸ rest⟩

/-- It does not matter how many rounds there are, if they are enough. -/
theorem settleWithin_unique {rounds trials : Nat} {result other : List (Note ℚ)}
    (settled : settleWithin strategy rounds notes = some result)
    (resolved : settleWithin strategy trials notes = some other) : result = other := by
  -- Both go through the same steps, and both end where no step is left.
  induction rounds generalizing notes trials with
  | zero => simp [settleWithin] at settled
  | succ rounds ih =>
    cases trials with
    | zero => simp [settleWithin] at resolved
    | succ trials =>
      rw [settleWithin] at settled resolved
      cases stepped : step? strategy notes with
      | none =>
        rw [stepped] at settled resolved
        exact Option.some.inj (settled.symm.trans resolved)
      | some next =>
        rw [stepped] at settled resolved
        exact ih settled resolved

/-- Settling notes settles those of a pitch as if there were no others. -/
theorem filter_settle (strategy : Strategy) (notes : List (Note ℚ)) (pitch : Pitch) :
    (settle strategy notes).filter (·.pitch == pitch) =
      settle strategy (notes.filter (·.pitch == pitch)) := by
  obtain ⟨fewer, rest⟩ :=
    settleWithin_filter pitch (sort_sorted notes) (settle_spec strategy notes).1
  rw [filter_sort] at rest
  exact settleWithin_unique rest (settle_spec strategy (notes.filter (·.pitch == pitch))).1

/-- Settling works on each pitch by itself, so that a note that is added to a group leaves those of
other pitches as they are. -/
theorem settle_separates (strategy : Strategy) (notes : List (Note ℚ)) (pitch : Pitch) :
    (settle strategy notes).filter (·.pitch == pitch) =
        settle strategy (notes.filter (·.pitch == pitch)) ∧
      ∀ group : Group ℚ, group.Settled → ∀ note : Note ℚ, note.pitch ≠ pitch →
        (group.add note).notes.filter (·.pitch == pitch) =
          group.notes.filter (·.pitch == pitch) := by
  refine ⟨filter_settle strategy notes pitch, fun group settled note apart => ?_⟩
  -- Settling a settled group again changes nothing, whatever pitch is looked at.
  have same : group.notes.filter (·.pitch == pitch) =
      settle group.strategy (group.notes.filter (·.pitch == pitch)) := by
    rw [← filter_settle]
    exact congrArg (fun group : Group ℚ => group.notes.filter (·.pitch == pitch))
      settled.ofNotes_eq.symm
  calc
    (group.add note).notes.filter (·.pitch == pitch)
      = settle group.strategy ((group.notes ++ [note]).filter (·.pitch == pitch)) :=
        filter_settle group.strategy _ pitch
    _ = settle group.strategy (group.notes.filter (·.pitch == pitch)) := by
        rw [List.filter_append, List.filter_cons_of_neg (by simpa using apart), List.filter_nil,
          List.append_nil]
    _ = group.notes.filter (·.pitch == pitch) := same.symm

/-- Two pitches with two notes each that overlap. -/
def chords : List (Note ℚ) :=
  [⟨⟨60⟩, 0, 2, 1, 0⟩, ⟨⟨62⟩, 0, 2, 1, 0⟩, ⟨⟨60⟩, 1, 2, 1, 0⟩, ⟨⟨62⟩, 1, 2, 1, 0⟩]

/-- A note that cuts those of one pitch leaves the two of the other one as they were cut before. -/
theorem settle_separates_chords :
    (settle {} chords).filter (·.pitch == ⟨62⟩) =
        settle {} (chords.filter (·.pitch == ⟨62⟩)) ∧
      (Group.ofNotes chords).Settled ∧
      ((Group.ofNotes chords).add ⟨⟨60⟩, 1 / 2, 1, 1, 0⟩).notes.filter (·.pitch == ⟨62⟩) =
        [⟨⟨62⟩, 0, 1, 1, 0⟩, ⟨⟨62⟩, 1, 2, 1, 0⟩] := by
  have settled : (Group.ofNotes chords).Settled := by
    refine .ofNotes ?_ ?_ {}
    · simp only [chords, List.forall_mem_cons]
      refine ⟨?_, ?_, ?_, ?_, List.forall_mem_nil _⟩
      all_goals constructor <;> norm_num
    · simp only [chords, List.forall_mem_cons]
      refine ⟨?_, ?_, ?_, ?_, List.forall_mem_nil _⟩
      all_goals decide
  -- Both parts are read at one pitch, where the other pitch has gone.
  obtain ⟨separate, kept⟩ := settle_separates {} chords ⟨62⟩
  refine ⟨separate, settled, ?_⟩
  rw [kept _ settled _ (by decide)]
  cbv

end Resolution

end Melody
