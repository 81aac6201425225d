import Mathlib.Data.List.Pairwise
import Mathlib.Data.List.Sort
import Melody.Note.Group
import Melody.Proofs.Scalar.Exact

/-! On exact numbers the settling of conflicts ends with sorted notes that are free of them. -/

namespace Melody

namespace Note

section Conflicts

variable {α : Type} [Scalar α] {first second : Note α}

/-- Notes of one pitch conflict when each starts before the end of the other by more than the
tolerance. -/
theorem conflictsWith_iff : first.conflictsWith second = true ↔ first.pitch = second.pitch ∧
    first.start < second.finish - tolerance ∧ second.start < first.finish - tolerance := by
  simp [conflictsWith, and_assoc]

/-- Conflicts are mutual. -/
theorem conflictsWith_comm (first second : Note α) :
    first.conflictsWith second = second.conflictsWith first := by
  rw [Bool.eq_iff_iff, conflictsWith_iff, conflictsWith_iff]
  exact ⟨fun ⟨pitch, one, other⟩ => ⟨pitch.symm, other, one⟩,
    fun ⟨pitch, one, other⟩ => ⟨pitch.symm, other, one⟩⟩

end Conflicts

variable {first second : Note ℚ}

/-- The tolerance is above zero. -/
theorem tolerance_pos : (0 : ℚ) < tolerance := by
  norm_num [tolerance]

/-- On exact numbers a note ends just where its end was put. -/
@[simp] theorem finish_endingAt (note : Note ℚ) (finish : ℚ) :
    (note.endingAt finish).finish = finish := by
  simp [endingAt, Note.finish]

/-- A note that is trimmed to the start of another one conflicts with nothing new. -/
theorem conflictsWith_of_trimmed (conflict : first.conflictsWith second = true) {other : Note ℚ}
    (trimmed : (first.endingAt second.start).conflictsWith other = true) :
    first.conflictsWith other = true := by
  -- The trimmed note starts where the first one does and ends earlier.
  obtain ⟨_, _, reaches⟩ := conflictsWith_iff.mp conflict
  obtain ⟨pitch, starts, ends⟩ := conflictsWith_iff.mp trimmed
  rw [finish_endingAt] at ends
  have positive := tolerance_pos
  exact conflictsWith_iff.mpr ⟨pitch, starts, by linarith⟩

/-- A note that is trimmed to the start of another one does not conflict with it. -/
theorem not_conflictsWith_trimmed (first second : Note ℚ) :
    (first.endingAt second.start).conflictsWith second = false := by
  -- The second note would have to start before the end of the first, and that is its start.
  rw [Bool.eq_false_iff, ne_eq, conflictsWith_iff, finish_endingAt]
  rintro ⟨_, _, ends⟩
  have positive := tolerance_pos
  linarith

end Note

namespace Strategy

variable {α : Type} [Scalar α]

/-- Notes that start together leave one note at most. -/
theorem length_resolveCoincident (choice : Coincident) (first second : Note α) :
    (resolveCoincident choice first second).length ≤ 1 := by
  -- Each choice leaves one note or none.
  cases choice with
  | longer =>
    show (if first.duration < second.duration then [second] else [first]).length ≤ 1
    split <;> exact Nat.le_refl 1
  | shorter =>
    show (if second.duration < first.duration then [second] else [first]).length ≤ 1
    split <;> exact Nat.le_refl 1
  | sum => simp [resolveCoincident]
  | remove => simp [resolveCoincident]
  | maxProperties => simp [resolveCoincident]

/-- A pair leaves one note at most, or the first note is trimmed to the start of the second. -/
theorem resolve_cases (strategy : Strategy) (first second : Note α) :
    (strategy.resolve first second).length ≤ 1 ∨
      (strategy.overlap = .trim ∧ startTogether first second = false) ∧
        strategy.resolve first second = [first.endingAt second.start, second] := by
  unfold resolve
  -- Only the trimming of notes that start apart leaves two of them.
  by_cases together : startTogether first second = true
  · rw [if_pos together]
    exact Or.inl (length_resolveCoincident ..)
  · rw [if_neg together]
    cases strategy.overlap with
    | trim => exact Or.inr ⟨⟨rfl, by simpa using together⟩, rfl⟩
    | merge => exact Or.inl (Nat.le_refl 1)
    | remove => exact Or.inl (Nat.zero_le 1)
    | first => exact Or.inl (Nat.le_refl 1)
    | second => exact Or.inl (Nat.le_refl 1)

/-- What is left of two notes has the pitch and the start of one of them. -/
theorem resolve_from (strategy : Strategy) (first second : Note α) :
    ∀ note ∈ strategy.resolve first second,
      note.pitch = first.pitch ∧ note.start = first.start ∨
        note.pitch = second.pitch ∧ note.start = second.start := by
  -- A note that is left is the first or the second, perhaps with another end.
  have one : ∀ note ∈ [first], note.pitch = first.pitch ∧ note.start = first.start ∨
      note.pitch = second.pitch ∧ note.start = second.start :=
    List.forall_mem_singleton.mpr (Or.inl ⟨rfl, rfl⟩)
  have other : ∀ note ∈ [second], note.pitch = first.pitch ∧ note.start = first.start ∨
      note.pitch = second.pitch ∧ note.start = second.start :=
    List.forall_mem_singleton.mpr (Or.inr ⟨rfl, rfl⟩)
  unfold resolve
  split
  · cases strategy.coincident with
    | sum => exact List.forall_mem_singleton.mpr (Or.inl ⟨rfl, rfl⟩)
    | remove => exact List.forall_mem_nil _
    | longer =>
      show ∀ note ∈ if first.duration < second.duration then [second] else [first], _
      split
      · exact other
      · exact one
    | shorter =>
      show ∀ note ∈ if second.duration < first.duration then [second] else [first], _
      split
      · exact other
      · exact one
    | maxProperties => exact List.forall_mem_singleton.mpr (Or.inl ⟨rfl, rfl⟩)
  · cases strategy.overlap with
    | merge => exact List.forall_mem_singleton.mpr (Or.inl ⟨rfl, rfl⟩)
    | trim => exact List.forall_mem_cons.mpr ⟨Or.inl ⟨rfl, rfl⟩, other⟩
    | remove => exact List.forall_mem_nil _
    | first => exact one
    | second => exact other

end Strategy

namespace Resolution

section Searching

variable {α : Type} [Scalar α] {note found first second : Note α}
  {notes later others : List (Note α)}

/-- The number of conflicting pairs in a list. -/
def conflictCount : List (Note α) → Nat
  | [] => 0
  | note :: later => later.countP (note.conflictsWith ·) + conflictCount later

/-- Notes have no more conflicts than pairs. -/
theorem conflictCount_le (notes : List (Note α)) :
    conflictCount notes ≤ notes.length * notes.length := by
  induction notes with
  | nil => exact Nat.le_refl 0
  | cons note later ih =>
    -- A note conflicts at most with all that follow it.
    have few : later.countP (note.conflictsWith ·) ≤ later.length := List.countP_le_length
    rw [conflictCount, List.length_cons]
    nlinarith

/-- The order of the notes does not matter to the number of conflicts. -/
theorem conflictCount_perm (perm : notes.Perm others) :
    conflictCount notes = conflictCount others := by
  -- Each pair counts once, in whichever order its notes stand.
  induction perm with
  | nil => rfl
  | cons note rest ih => rw [conflictCount, conflictCount, rest.countP_eq, ih]
  | swap first second later =>
    simp only [conflictCount, List.countP_cons, Note.conflictsWith_comm first second]
    omega
  | trans _ _ ih later => exact ih.trans later

/-- The partner of a note is the first of the later notes that conflict with it. -/
theorem partner?_first (partner : partner? note later = some (found, others)) :
    ∃ middle late, later = middle ++ found :: late ∧ others = middle ++ late ∧
      note.conflictsWith found = true ∧ ∀ other ∈ middle, note.conflictsWith other = false := by
  induction later generalizing others with
  | nil => simp [partner?] at partner
  | cons next rest ih =>
    rw [partner?] at partner
    by_cases conflict : note.conflictsWith next = true
    · -- The search ends here.
      rw [if_pos conflict] at partner
      cases partner
      exact ⟨[], rest, rfl, rfl, conflict, List.forall_mem_nil _⟩
    · -- The note is passed and stays among the others.
      rw [if_neg conflict, Option.map_eq_some_iff] at partner
      obtain ⟨⟨hit, left⟩, further, same⟩ := partner
      cases same
      obtain ⟨middle, late, rfl, rfl, hits, passed⟩ := ih further
      exact ⟨next :: middle, late, rfl, rfl, hits,
        List.forall_mem_cons.mpr ⟨by simpa using conflict, passed⟩⟩

/-- A note has no partner when it conflicts with none of the others. -/
theorem partner?_eq_none :
    partner? note later = none ↔ ∀ other ∈ later, note.conflictsWith other = false := by
  -- The first conflict ends the search, so there is none where the search goes on to the end.
  induction later with
  | nil => simp [partner?]
  | cons next rest ih =>
    rw [partner?]
    by_cases conflict : note.conflictsWith next = true
    · simp [conflict]
    · simp [conflict, ih]

/-- No note before the pair that is found has a conflict with a later one, and its first note has
none with a note that stands between the two. -/
theorem firstConflict?_first (found : firstConflict? notes = some (first, second, others)) :
    ∃ early middle late, notes = early ++ first :: (middle ++ second :: late) ∧
      others = early ++ (middle ++ late) ∧ first.conflictsWith second = true ∧
      early.Pairwise (fun note other => note.conflictsWith other = false) ∧
      (∀ note ∈ early, ∀ other ∈ first :: (middle ++ second :: late),
        note.conflictsWith other = false) ∧
      ∀ note ∈ middle, first.conflictsWith note = false := by
  induction notes generalizing others with
  | nil => simp [firstConflict?] at found
  | cons note later ih =>
    rw [firstConflict?] at found
    -- The pair is made of the first note and a partner, or it is found among the later ones.
    cases partner : partner? note later with
    | some pair =>
      rw [partner] at found
      cases found
      obtain ⟨middle, late, rfl, left, conflict, passed⟩ := partner?_first partner
      exact ⟨[], middle, late, rfl, left, conflict, .nil, List.forall_mem_nil _, passed⟩
    | none =>
      rw [partner] at found
      obtain ⟨⟨one, other, rest⟩, further, same⟩ := Option.map_eq_some_iff.mp found
      cases same
      obtain ⟨early, middle, late, rfl, rfl, conflict, free, clear, passed⟩ := ih further
      have alone := partner?_eq_none.mp partner
      refine ⟨note :: early, middle, late, rfl, rfl, conflict, List.pairwise_cons.mpr ⟨?_, free⟩,
        List.forall_mem_cons.mpr ⟨?_, clear⟩, passed⟩
      · exact fun other member => alone other (List.mem_append_left _ member)
      · exact fun other member => alone other (List.mem_append_right _ member)

/-- The pair that is found is in conflict and stands beside the other notes. -/
theorem firstConflict?_spec (found : firstConflict? notes = some (first, second, others)) :
    first.conflictsWith second = true ∧ notes.Perm (first :: second :: others) := by
  obtain ⟨early, middle, late, rfl, rfl, conflict, _⟩ := firstConflict?_first found
  have behind : (middle ++ second :: late).Perm (second :: (middle ++ late)) := List.perm_middle
  have before : (early ++ second :: (middle ++ late)).Perm
      (second :: (early ++ (middle ++ late))) := List.perm_middle
  exact ⟨conflict, List.perm_middle.trans (((behind.append_left early).trans before).cons first)⟩

/-- No pair is found exactly when no two notes are in conflict. -/
theorem firstConflict?_eq_none :
    firstConflict? notes = none ↔
      notes.Pairwise fun first second => first.conflictsWith second = false := by
  -- A note without a partner leaves the search to the notes behind it.
  induction notes with
  | nil => simp [firstConflict?]
  | cons note later ih =>
    rw [firstConflict?, List.pairwise_cons, ← partner?_eq_none, ← ih]
    cases partner? note later with
    | some pair => simp
    | none => simp

/-- In a list without conflicts no two different notes are in conflict. -/
theorem free_of_pairwise (free : notes.Pairwise fun note other => note.conflictsWith other = false)
    (one : first ∈ notes) (other : second ∈ notes) (different : first ≠ second) :
    first.conflictsWith second = false := by
  have symmetric : Std.Symm fun note other : Note α => note.conflictsWith other = false :=
    ⟨fun note other apart => (Note.conflictsWith_comm other note).trans apart⟩
  exact free.forall one other different

end Searching

section Rounds

variable {α : Type} [Scalar α] {strategy : Strategy} {notes next : List (Note α)}

/-- Sorting keeps the notes. -/
theorem sort_perm (notes : List (Note α)) : (sort notes).Perm notes :=
  List.mergeSort_perm notes inOrder

/-- A list is eased when it gets fewer notes, or as many with fewer conflicts. -/
def Eased (next notes : List (Note α)) : Prop :=
  next.length < notes.length ∨
    next.length = notes.length ∧ conflictCount next < conflictCount notes

/-- A step eases the list if a note that it trims has less conflicts than before. -/
theorem eased_of_step? (stepped : step? strategy notes = some next)
    (released : ∀ first second others, firstConflict? notes = some (first, second, others) →
      strategy.overlap = .trim → Strategy.startTogether (align first second) second = false →
      ((align first second).endingAt second.start).conflictsWith second = false ∧
        ∀ other ∈ others, ((align first second).endingAt second.start).conflictsWith other = true →
          first.conflictsWith other = true) : Eased next notes := by
  obtain ⟨⟨first, second, others⟩, found, rfl⟩ := Option.map_eq_some_iff.mp stepped
  obtain ⟨conflict, perm⟩ := firstConflict?_spec found
  dsimp only
  have sorted := sort_perm (others ++ strategy.resolve (align first second) second)
  have length : notes.length = others.length + 2 := perm.length_eq
  have left : (sort (others ++ strategy.resolve (align first second) second)).length =
      others.length + (strategy.resolve (align first second) second).length := by
    rw [← List.length_append]
    exact sorted.length_eq
  -- The pair loses a note, or it keeps both with one conflict fewer.
  rcases strategy.resolve_cases (align first second) second with few | ⟨⟨trims, apart⟩, trimmed⟩
  · exact Or.inl (by omega)
  · obtain ⟨free, before⟩ := released first second others found trims apart
    rw [trimmed] at sorted left ⊢
    refine Or.inr ⟨by rw [left, length]; rfl, ?_⟩
    -- Every conflict of the trimmed note was one of the note before, and one of those is gone.
    have fewer : others.countP (((align first second).endingAt second.start).conflictsWith ·) ≤
        others.countP (first.conflictsWith ·) :=
      List.countP_mono_left before
    rw [conflictCount_perm (sorted.trans List.perm_append_comm), conflictCount_perm perm]
    simp only [List.cons_append, List.nil_append, conflictCount, List.countP_cons, conflict,
      free, if_true]
    simp only [Bool.false_eq_true, if_false]
    omega

/-- A bound on the steps ahead: one for each conflict, and all pairs anew for each note. -/
def weight (bound : Nat) (notes : List (Note α)) : Nat :=
  notes.length * (bound * bound + 1) + conflictCount notes

/-- What eases notes lowers their weight, on which the number of rounds rests. -/
theorem Eased.weight_lt {bound : Nat} (eased : Eased next notes)
    (bounded : notes.length ≤ bound) : weight bound next < weight bound notes := by
  have few := conflictCount_le next
  unfold weight
  rcases eased with fewer | ⟨same, fewer⟩
  · -- A note less outweighs all the conflicts that the notes left over can have.
    have square : next.length * next.length ≤ bound * bound :=
      Nat.mul_le_mul (by omega) (by omega)
    have less : (next.length + 1) * (bound * bound + 1) ≤ notes.length * (bound * bound + 1) :=
      Nat.mul_le_mul_right _ fewer
    rw [Nat.add_mul] at less
    omega
  · rw [same]
    omega

/-- Rounds that ease the list each time come to an end, with all that they keep. -/
theorem settleWithin_ends {holds : List (Note α) → Prop}
    (eases : ∀ {notes next}, holds notes → step? strategy notes = some next →
      holds next ∧ Eased next notes)
    {bound rounds : Nat} (bounded : notes.length ≤ bound) (enough : weight bound notes < rounds)
    (starts : holds notes) :
    ∃ result, settleWithin strategy rounds notes = some result ∧
      step? strategy result = none ∧ holds result := by
  -- The weight bounds the rounds that are still needed, and a step makes it less.
  induction rounds generalizing notes with
  | zero => omega
  | succ rounds ih =>
    rw [settleWithin]
    cases stepped : step? strategy notes with
    | none => exact ⟨notes, rfl, stepped, starts⟩
    | some next =>
      obtain ⟨still, eased⟩ := eases starts stepped
      have lighter := eased.weight_lt bounded
      have shorter : next.length ≤ notes.length := by
        rcases eased with fewer | ⟨same, _⟩ <;> omega
      exact ih (by omega) (by omega) still

/-- What holds at first and after each step holds when the rounds have ended. -/
theorem settleWithin_keeps {holds : List (Note α) → Prop}
    (kept : ∀ {notes next}, holds notes → step? strategy notes = some next → holds next)
    {rounds : Nat} {result : List (Note α)} (starts : holds notes)
    (settled : settleWithin strategy rounds notes = some result) : holds result := by
  -- The induction is on the rounds that are allowed, from any notes.
  induction rounds generalizing notes with
  | zero => simp [settleWithin] at settled
  | succ rounds ih =>
    rw [settleWithin] at settled
    cases stepped : step? strategy notes with
    | none =>
      rw [stepped] at settled
      exact Option.some.inj settled ▸ starts
    | some next =>
      rw [stepped] at settled
      exact ih (kept starts stepped) settled

end Rounds

/-- Notes are in order by start and then by pitch. -/
theorem inOrder_iff {first second : Note ℚ} : inOrder first second = true ↔
    first.start < second.start ∨
      first.start = second.start ∧ first.pitch.index ≤ second.pitch.index := by
  unfold inOrder
  -- Starts are compared first, and pitches only if those are equal.
  rcases lt_trichotomy first.start second.start with before | same | after
  · simp [before]
  · simp [same]
  · simp [after, after.ne']

/-- Notes are in order across one between them. -/
theorem inOrder_trans (first second third : Note ℚ) (one : inOrder first second = true)
    (other : inOrder second third = true) : inOrder first third = true := by
  -- Starts decide first, and pitches among equal starts.
  rw [inOrder_iff] at one other ⊢
  rcases one with before | ⟨same, below⟩
  · rcases other with later | ⟨equal, _⟩
    · exact Or.inl (before.trans later)
    · exact Or.inl (equal ▸ before)
  · rcases other with later | ⟨equal, above⟩
    · exact Or.inl (same ▸ later)
    · exact Or.inr ⟨same.trans equal, Int.le_trans below above⟩

/-- Of two notes one is in order before the other. -/
theorem inOrder_total (first second : Note ℚ) :
    (inOrder first second || inOrder second first) = true := by
  -- Notes are ordered by start, and by pitch where they start together.
  rw [Bool.or_eq_true, inOrder_iff, inOrder_iff]
  rcases lt_trichotomy first.start second.start with before | same | after
  · exact Or.inl (Or.inl before)
  · rcases Int.le_total first.pitch.index second.pitch.index with below | above
    · exact Or.inl (Or.inr ⟨same, below⟩)
    · exact Or.inr (Or.inr ⟨same.symm, above⟩)
  · exact Or.inr (Or.inl after)

/-- Sorted notes are in order. -/
theorem sort_sorted (notes : List (Note ℚ)) :
    (sort notes).Pairwise fun first second => inOrder first second = true :=
  List.pairwise_mergeSort inOrder_trans inOrder_total notes

/-- A note that does not start together with another one is not moved. -/
theorem align_eq {first second : Note ℚ}
    (apart : Strategy.startTogether (align first second) second = false) :
    align first second = first := by
  unfold align at apart ⊢
  by_cases together : Strategy.startTogether first second = true
  · -- A note that is moved would start just with the other one, within the tolerance.
    rw [if_pos together] at apart
    have positive := Note.tolerance_pos
    simp [Strategy.startTogether, Scalar.magnitude] at apart
    linarith
  · rw [if_neg together]

/-- On exact numbers every step eases the list. -/
theorem step?_eases {strategy : Strategy} {notes next : List (Note ℚ)}
    (stepped : step? strategy notes = some next) : Eased next notes := by
  refine eased_of_step? stepped fun first second others found _ apart => ?_
  obtain ⟨conflict, _⟩ := firstConflict?_spec found
  rw [align_eq apart]
  exact ⟨Note.not_conflictsWith_trimmed first second,
    fun other _ => Note.conflictsWith_of_trimmed conflict⟩

/-- Enough rounds settle all conflicts and keep the notes in order. -/
theorem settleWithin_spec (strategy : Strategy) {bound rounds : Nat} {notes : List (Note ℚ)}
    (bounded : notes.length ≤ bound) (enough : weight bound notes < rounds)
    (sorted : notes.Pairwise fun first second => inOrder first second = true) :
    ∃ result, settleWithin strategy rounds notes = some result ∧
      step? strategy result = none ∧
      result.Pairwise fun first second => inOrder first second = true := by
  refine settleWithin_ends (fun {notes next} _ stepped => ⟨?_, step?_eases stepped⟩)
    bounded enough sorted
  obtain ⟨_, _, rfl⟩ := Option.map_eq_some_iff.mp stepped
  exact sort_sorted _

/-- The rounds that are given are enough. -/
theorem weight_lt_roundLimit (notes : List (Note ℚ)) :
    weight notes.length notes < roundLimit notes.length := by
  have few := conflictCount_le notes
  unfold weight roundLimit
  rw [Nat.add_mul]
  omega

/-- Settled notes are what the rounds lead to, in order and without a pair to replace. -/
theorem settle_spec (strategy : Strategy) (notes : List (Note ℚ)) :
    settleWithin strategy (roundLimit (sort notes).length) (sort notes) =
        some (settle strategy notes) ∧
      step? strategy (settle strategy notes) = none ∧
      (settle strategy notes).Pairwise fun first second => inOrder first second = true := by
  obtain ⟨result, settled, done, sorted⟩ := settleWithin_spec strategy (Nat.le_refl _)
    (weight_lt_roundLimit (sort notes)) (sort_sorted notes)
  have same : settle strategy notes = result := by simp [settle, settled]
  rw [same]
  exact ⟨settled, done, sorted⟩

/-- Settling ends with sorted notes without conflicts, which are left as they are from then on. -/
theorem settle_correct (strategy : Strategy) (notes : List (Note ℚ)) :
    (∃ rounds, settleWithin strategy rounds (sort notes) = some (settle strategy notes)) ∧
      (settle strategy notes).Pairwise (fun first second => first.start < second.start ∨
        first.start = second.start ∧ first.pitch.index ≤ second.pitch.index) ∧
      (settle strategy notes).Pairwise (fun first second =>
        first.conflictsWith second = false ∧ second.conflictsWith first = false) ∧
      settle strategy (settle strategy notes) = settle strategy notes := by
  obtain ⟨settled, done, sorted⟩ := settle_spec strategy notes
  have free : firstConflict? (settle strategy notes) = none := Option.map_eq_none_iff.mp done
  refine ⟨⟨_, settled⟩, sorted.imp inOrder_iff.mp, ?_, ?_⟩
  · -- No pair is left to be found, and conflicts are mutual.
    refine (firstConflict?_eq_none.mp free).imp fun {first second} apart => ⟨apart, ?_⟩
    rw [Note.conflictsWith_comm]
    exact apart
  · -- Sorted notes are sorted already, and the first round finds nothing to replace.
    have still : sort (settle strategy notes) = settle strategy notes :=
      List.mergeSort_of_pairwise sorted
    have ended : ∀ rounds, settleWithin strategy (rounds + 1) (settle strategy notes) =
        some (settle strategy notes) := by
      intro rounds
      rw [settleWithin, done]
    obtain ⟨rounds, limit⟩ : ∃ rounds,
        roundLimit (settle strategy notes).length = rounds + 1 :=
      Nat.exists_eq_succ_of_ne_zero (by simp [roundLimit])
    rw [settle, still, limit, ended, Option.getD_some]

end Resolution

end Melody
