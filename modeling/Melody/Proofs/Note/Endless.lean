import Mathlib.Logic.Relation
import Melody.Proofs.Note.Trimming
import Melody.Proofs.Outcome

/-! On doubles the rounds end, unless a note stays in conflict with the one it was trimmed to. -/

namespace Melody

namespace Resolution

open Binary64 Note

section Steps

variable {α : Type} [Scalar α] {strategy : Strategy} {notes next : List (Note α)}

/-- Notes whose first conflict lies between starts apart and stays when its note is trimmed. -/
def Stuck (strategy : Strategy) (notes : List (Note α)) : Prop :=
  strategy.overlap = .trim ∧ ∃ first second others,
    firstConflict? notes = some (first, second, others) ∧
      Strategy.startTogether first second = false ∧
      (first.endingAt second.start).conflictsWith second = true

/-- Notes that some rounds lead to. -/
def Reaches (strategy : Strategy) : List (Note α) → List (Note α) → Prop :=
  Relation.ReflTransGen fun notes next => step? strategy notes = some next

/-- No round makes up a start. -/
theorem starts_of_step? (holds : α → Prop) (all : ∀ note ∈ notes, holds note.start)
    (stepped : step? strategy notes = some next) : ∀ note ∈ next, holds note.start := by
  obtain ⟨⟨first, second, others⟩, found, rfl⟩ := Option.map_eq_some_iff.mp stepped
  obtain ⟨_, perm⟩ := firstConflict?_spec found
  have old : ∀ note ∈ first :: second :: others, holds note.start :=
    fun note member => all note (perm.mem_iff.mpr member)
  obtain ⟨one, other, rest⟩ := by simpa only [List.forall_mem_cons] using old
  -- Aligning takes the start of the second note, which has the property, too.
  have aligned : holds (align first second).start := by
    unfold align
    split
    · exact other
    · exact one
  intro note member
  rcases List.mem_append.mp ((sort_perm _).mem_iff.mp member) with left | made
  · exact rest note left
  · rcases strategy.resolve_from _ _ note made with ⟨_, same⟩ | ⟨_, same⟩
    · exact same ▸ aligned
    · exact same ▸ other

/-- What every round keeps holds of all notes that are reached. -/
theorem Reaches.keeps {reached : List (Note α)} {holds : List (Note α) → Prop}
    (step : ∀ {notes next}, holds notes → step? strategy notes = some next → holds next)
    (here : holds notes) (reaches : Reaches strategy notes reached) : holds reached := by
  induction reaches with
  | refl => exact here
  | tail _ stepped ih => exact step ih stepped

/-- Rounds that end do so from all that they lead to. -/
theorem Reaches.settleWithin {reached result : List (Note α)}
    (reaches : Reaches strategy notes reached) {rounds : Nat}
    (settled : settleWithin strategy rounds notes = some result) :
    ∃ fewer, settleWithin strategy fewer reached = some result := by
  -- The rounds on the way are the first of those that settle the notes.
  induction reaches using Relation.ReflTransGen.head_induction_on generalizing rounds with
  | refl => exact ⟨rounds, settled⟩
  | head stepped _ ih =>
    cases rounds with
    | zero => simp [Resolution.settleWithin] at settled
    | succ rounds =>
      rw [Resolution.settleWithin, stepped] at settled
      exact ih settled

end Steps

section Doubles

variable {strategy : Strategy} {notes others next : List (Note Float)}
  {first second other : Note Float}

/-- Notes in line whose starts are numbers that are not below zero. -/
structure Timely (notes : List (Note Float)) : Prop where
  begins : ∀ note ∈ notes, Begins note.start
  sorted : notes.Pairwise fun first second => line first ≤ line second

/-- Notes that start below the least double of which half a unit exceeds the tolerance. -/
def Early (notes : List (Note Float)) : Prop :=
  ∀ note ∈ notes, value note.start < 2 ^ (24 : ℤ)

/-- A round leaves notes early. -/
theorem Early.step (early : Early notes) (stepped : step? strategy notes = some next) :
    Early next :=
  starts_of_step? (value · < 2 ^ (24 : ℤ)) early stepped

/-- Another end leaves a note at its place in line. -/
theorem line_endingAt (note : Note Float) (finish : Float) :
    line (note.endingAt finish) = line note :=
  rfl

/-- Notes in line start in line. -/
theorem line_le_start (ordered : line first ≤ line second) :
    value first.start ≤ value second.start := by
  rcases Prod.Lex.toLex_le_toLex.mp ordered with before | ⟨same, _⟩
  · exact before.le
  · exact same.le

namespace Timely

/-- Sorting puts notes in line. -/
theorem sort (begins : ∀ note ∈ notes, Begins note.start) : Timely (sort notes) where
  begins := fun note member => begins note ((sort_perm notes).mem_iff.mp member)
  sorted := sort_line fun note member => (begins note member).finite

/-- A round leaves notes timely. -/
theorem step (timely : Timely notes) (stepped : step? strategy notes = some next) :
    Timely next := by
  have begins := starts_of_step? Begins timely.begins stepped
  obtain ⟨_, _, rfl⟩ := Option.map_eq_some_iff.mp stepped
  exact .sort fun note member => begins note ((sort_perm _).mem_iff.mpr member)

/-- The notes of the first conflict are in line. -/
theorem found_line (timely : Timely notes)
    (found : firstConflict? notes = some (first, second, others)) : line first ≤ line second := by
  obtain ⟨early, middle, late, rfl, _⟩ := firstConflict?_first found
  have behind := (List.pairwise_cons.mp (List.pairwise_append.mp timely.sorted).2.1).1
  exact behind second (List.mem_append_right _ (List.mem_cons_self ..))

/-- A round eases notes that are not stuck. -/
theorem eased (timely : Timely notes) (free : ¬ Stuck strategy notes)
    (stepped : step? strategy notes = some next) : Eased next notes := by
  refine eased_of_step? stepped fun first second others found trims apart => ?_
  obtain ⟨conflict, perm⟩ := firstConflict?_spec found
  have all : ∀ note ∈ first :: second :: others, Begins note.start :=
    fun note member => timely.begins note (perm.mem_iff.mpr member)
  obtain ⟨_, two, rest⟩ := by simpa only [List.forall_mem_cons] using all
  obtain ⟨apart, still⟩ := align_eq_of_begins two apart
  rw [still]
  -- Were the two notes still in conflict, they would be stuck.
  have loose : (first.endingAt second.start).conflictsWith second = false := by
    by_contra held
    exact free ⟨trims, first, second, others, found, apart, by simpa using held⟩
  exact ⟨loose, fun other member => conflictsWith_of_trimmed_free two (rest other member)
    conflict loose⟩

/-- Rounds that never get stuck end. -/
theorem settles (timely : Timely notes)
    (free : ∀ reached, Reaches strategy notes reached → ¬ Stuck strategy reached) :
    ∃ rounds result, settleWithin strategy rounds notes = some result := by
  -- Away from stuck notes each round eases the notes, which cannot go on forever.
  have eases : ∀ {notes next : List (Note Float)},
      (Timely notes ∧ ∀ reached, Reaches strategy notes reached → ¬ Stuck strategy reached) →
      step? strategy notes = some next →
      (Timely next ∧ ∀ reached, Reaches strategy next reached → ¬ Stuck strategy reached) ∧
        Eased next notes := fun {notes next} ⟨timely, free⟩ stepped =>
    ⟨⟨timely.step stepped, fun reached further => free reached (.head stepped further)⟩,
      timely.eased (free notes .refl) stepped⟩
  obtain ⟨result, settled, _⟩ := settleWithin_ends eases (Nat.le_refl notes.length)
    (Nat.lt_succ_self (weight notes.length notes)) ⟨timely, free⟩
  exact ⟨_, result, settled⟩

/-- Early notes are not stuck. -/
theorem not_stuck_of_early (timely : Timely notes) (early : Early notes) :
    ¬ Stuck strategy notes := by
  rintro ⟨_, first, second, others, found, _, still⟩
  obtain ⟨_, perm⟩ := firstConflict?_spec found
  have one : first ∈ notes := perm.mem_iff.mpr (by simp)
  have two : second ∈ notes := perm.mem_iff.mpr (by simp)
  -- Below the least late start trimming by a double reaches beyond the tolerance.
  have free := not_conflictsWith_trimmed_of_early (timely.begins first one)
    (timely.begins second two) (line_le_start (timely.found_line found)) (early second two)
  rw [free] at still
  cases still

/-- Rounds leave notes timely. -/
theorem of_reaches (timely : Timely notes) {reached : List (Note Float)}
    (reaches : Reaches strategy notes reached) : Timely reached :=
  reaches.keeps Timely.step timely

end Timely

/-- A note that is free of another one before it is trimmed is free of it afterwards, if that does
not start beyond the new end. -/
theorem free_of_trimmed (two : Begins second.start) (three : Begins other.start)
    (reaches : second.start < first.finish - tolerance)
    (before : value other.start ≤ value second.start)
    (free : first.conflictsWith other = false) :
    (first.endingAt second.start).conflictsWith other = false := by
  rw [Bool.eq_false_iff, ne_eq, conflictsWith_iff] at free ⊢
  rintro ⟨pitch, starts, _⟩
  exact free ⟨pitch, starts, lt_of_value_le three.finite two.finite before reaches⟩

/-- The second of two notes in a list stands among all others. -/
theorem mem_of_perm {α : Type} {early middle late front back : List α} {one other : α}
    (perm : (early ++ one :: (middle ++ other :: late)).Perm (front ++ one :: back)) :
    other ∈ front ++ back := by
  have rest : (early ++ (middle ++ other :: late)).Perm (front ++ back) :=
    (List.perm_middle.symm.trans (perm.trans List.perm_middle)).cons_inv
  exact rest.mem_iff.mp (by simp)

/-- Notes of a first conflict that start apart start one after the other. -/
theorem Timely.found_lt (timely : Timely notes)
    (found : firstConflict? notes = some (first, second, others))
    (apart : Strategy.startTogether first second = false) :
    value first.start < value second.start := by
  -- The found pair is in order; notes that begin at the same number start together.
  obtain ⟨_, perm⟩ := firstConflict?_spec found
  have one := timely.begins first (perm.mem_iff.mpr (by simp))
  have two := timely.begins second (perm.mem_iff.mpr (by simp))
  refine lt_of_le_of_ne (line_le_start (timely.found_line found)) fun same => ?_
  rw [startTogether_of_value_eq one two same] at apart
  cases apart

namespace Stuck

/-- A round that is stuck leaves the same conflict. -/
theorem step?_eq (trims : strategy.overlap = .trim)
    (found : firstConflict? notes = some (first, second, others))
    (apart : Strategy.startTogether first second = false) :
    step? strategy notes = some (Resolution.sort
      (others ++ [first.endingAt second.start, second])) := by
  -- Starts that are apart are not aligned, and trimming only moves the end.
  have still : align first second = first := by
    rw [align, if_neg (by simp [apart])]
  have made : strategy.resolve first second = [first.endingAt second.start, second] := by
    rw [Strategy.resolve, if_neg (by simp [apart]), trims]
    rfl
  rw [step?, found, Option.map_some]
  dsimp only
  rw [still, made]

end Stuck

/-- The notes around a first conflict between starts apart that stays when its note is trimmed. -/
structure Caught (early middle late : List (Note Float)) (first second : Note Float) : Prop where
  timely : Timely (early ++ first :: (middle ++ second :: late))
  free : early.Pairwise fun note other => note.conflictsWith other = false
  clear : ∀ note ∈ early, ∀ other ∈ first :: (middle ++ second :: late),
    note.conflictsWith other = false
  passed : ∀ note ∈ middle, first.conflictsWith note = false
  conflict : first.conflictsWith second = true
  before : value first.start < value second.start
  still : (first.endingAt second.start).conflictsWith second = true

namespace Caught

variable {early middle late : List (Note Float)} {note : Note Float}

/-- Of the two notes that are caught the first is before the second. -/
theorem line_lt (caught : Caught early middle late first second) : line first < line second :=
  Prod.Lex.toLex_lt_toLex.mpr (Or.inl caught.before)

/-- The first note is not made into the second by its new end. -/
theorem endingAt_ne (caught : Caught early middle late first second) :
    first.endingAt second.start ≠ second := fun same =>
  caught.line_lt.ne ((line_endingAt first second.start).symm.trans (congrArg line same))

/-- The early notes are in line before the first. -/
theorem line_of_early (caught : Caught early middle late first second) (member : note ∈ early) :
    line note ≤ line first :=
  (List.pairwise_append.mp caught.timely.sorted).2.2 note member first (List.mem_cons_self ..)

/-- The notes in the middle are in line between the two. -/
theorem line_of_middle (caught : Caught early middle late first second) (member : note ∈ middle) :
    line first ≤ line note ∧ line note ≤ line second := by
  obtain ⟨behind, rest⟩ :=
    List.pairwise_cons.mp (List.pairwise_append.mp caught.timely.sorted).2.1
  exact ⟨behind note (List.mem_append_left _ member),
    (List.pairwise_append.mp rest).2.2 note member second (List.mem_cons_self ..)⟩

/-- The late notes are in line behind the second. -/
theorem line_of_late (caught : Caught early middle late first second) (member : note ∈ late) :
    line second ≤ line note := by
  obtain ⟨_, rest⟩ := List.pairwise_cons.mp (List.pairwise_append.mp caught.timely.sorted).2.1
  exact (List.pairwise_cons.mp (List.pairwise_append.mp rest).2.1).1 note member

/-- The trimmed note has no conflict with what stands before the second one. -/
theorem free_trimmed (caught : Caught early middle late first second)
    (member : note ∈ early ∨ note ∈ middle) :
    (first.endingAt second.start).conflictsWith note = false := by
  obtain ⟨_, _, reaches⟩ := conflictsWith_iff.mp caught.conflict
  have two : Begins second.start := caught.timely.begins second (by simp)
  have three : Begins note.start := caught.timely.begins note (by
    -- An early note is clear of the first one, and one in the middle was passed by it.
    rcases member with member | member <;> simp [member])
  rcases member with behind | between
  · refine free_of_trimmed two three reaches ?_ ?_
    · exact (line_le_start (caught.line_of_early behind)).trans caught.before.le
    · rw [conflictsWith_comm]
      exact caught.clear note behind first (List.mem_cons_self ..)
  · exact free_of_trimmed two three reaches (line_le_start (caught.line_of_middle between).2)
      (caught.passed note between)

/-- A note at the place of the first one that is free of it is too short for any conflict ahead. -/
theorem free_of_tie (caught : Caught early middle late first second) (member : note ∈ middle)
    (tie : line note = line first) (three : Begins other.start)
    (ahead : line note ≤ line other) : note.conflictsWith other = false := by
  obtain ⟨_, _, reaches⟩ := conflictsWith_iff.mp caught.conflict
  have one : Begins first.start := caught.timely.begins first (by simp)
  have two : Begins second.start := caught.timely.begins second (by simp)
  have here : Begins note.start := caught.timely.begins note (by simp [member])
  -- With the same start and pitch the note would have been in conflict with the second, too.
  obtain ⟨starts, index⟩ := Prod.mk.inj (toLex.injective tie)
  have passed := caught.passed note member
  rw [Bool.eq_false_iff, ne_eq, conflictsWith_iff] at passed ⊢
  rintro ⟨_, _, ends⟩
  refine passed ⟨congrArg Pitch.mk index.symm, ?_, ?_⟩
  · exact lt_of_value_le one.finite three.finite (starts.ge.trans (line_le_start ahead)) ends
  · exact lt_of_value_le here.finite two.finite
      (line_le_start (caught.line_of_middle member).2) reaches

variable {front between back : List (Note Float)} {one two : Note Float}

/-- The notes that a round leaves, with the trimmed note where the first one was. -/
theorem mem_left (perm : next.Perm
      (early ++ (middle ++ late) ++ [first.endingAt second.start, second]))
    (member : note ∈ next) : note ∈ early ∨ note ∈ middle ∨ note ∈ late ∨
      note = first.endingAt second.start ∨ note = second := by
  have left := perm.mem_iff.mp member
  simp only [List.mem_append, List.mem_cons, List.not_mem_nil, or_false] at left
  tauto

/-- An early note has no conflict with any other of the notes that a round leaves. -/
theorem free_of_early (caught : Caught early middle late first second) (member : one ∈ early)
    (perm : (front ++ one :: (between ++ two :: back)).Perm
      (early ++ (middle ++ late) ++ [first.endingAt second.start, second])) :
    one.conflictsWith two = false := by
  have clear := caught.clear one member
  have trimmed := caught.free_trimmed (Or.inl member)
  -- The note stands somewhere among the early ones, and the other one is none of its places.
  obtain ⟨before, after, rfl⟩ := List.append_of_mem member
  obtain ⟨_, rest, preceding⟩ := List.pairwise_append.mp caught.free
  have following := (List.pairwise_cons.mp rest).1
  rw [List.append_assoc, List.append_assoc, List.cons_append] at perm
  have elsewhere := mem_of_perm perm
  simp only [List.mem_append, List.mem_cons, List.not_mem_nil, or_false] at elsewhere
  rcases elsewhere with earlier | later | (among | behind) | same | same
  · rw [conflictsWith_comm]
    exact preceding two earlier one (List.mem_cons_self ..)
  · exact following two later
  · exact clear two (by simp [among])
  · exact clear two (by simp [behind])
  · rw [same, conflictsWith_comm]
    exact trimmed
  · exact clear two (by simp [same])

/-- No conflict comes before that of the trimmed note. -/
theorem eq_trimmed (caught : Caught early middle late first second)
    (timely : Timely (front ++ one :: (between ++ two :: back)))
    (perm : (front ++ one :: (between ++ two :: back)).Perm
      (early ++ (middle ++ late) ++ [first.endingAt second.start, second]))
    (conflict : one.conflictsWith two = true)
    (ahead : line one ≤ line first) : one = first.endingAt second.start := by
  have after : line one ≤ line two :=
    (List.pairwise_cons.mp (List.pairwise_append.mp timely.sorted).2.1).1 two (by simp)
  have starts : Begins two.start := timely.begins two (by simp)
  have present : one ∈ front ++ one :: (between ++ two :: back) := by simp
  rcases mem_left perm present with member | member | member | same | rfl
  · rw [caught.free_of_early member perm] at conflict
    cases conflict
  · -- A note at the same place is too short for a conflict.
    have tie := le_antisymm ahead (caught.line_of_middle member).1
    rw [caught.free_of_tie member tie starts after] at conflict
    cases conflict
  · exact absurd (caught.line_lt.trans_le (caught.line_of_late member)) ahead.not_gt
  · exact same
  · exact absurd caught.line_lt ahead.not_gt

/-- The first conflict of what a round leaves does not lie behind the trimmed note. -/
theorem line_le_of_found (caught : Caught early middle late first second)
    (timely : Timely (front ++ one :: (between ++ two :: back)))
    (perm : (front ++ one :: (between ++ two :: back)).Perm
      (early ++ (middle ++ late) ++ [first.endingAt second.start, second]))
    (free : front.Pairwise fun note other => note.conflictsWith other = false)
    (clear : ∀ note ∈ front, ∀ other ∈ one :: (between ++ two :: back),
      note.conflictsWith other = false) : line one ≤ line first := by
  have trimmed := perm.mem_iff.mpr
    (by simp : first.endingAt second.start ∈
      early ++ (middle ++ late) ++ [first.endingAt second.start, second])
  have other := perm.mem_iff.mpr
    (by simp : second ∈ early ++ (middle ++ late) ++ [first.endingAt second.start, second])
  have still := caught.still
  have rest := (List.pairwise_append.mp timely.sorted).2.1
  rcases List.mem_append.mp trimmed with member | member
  · -- In front of the first conflict the trimmed note would not be in conflict.
    rcases List.mem_append.mp other with beside | behind
    · rw [free_of_pairwise free member beside caught.endingAt_ne] at still
      cases still
    · rw [clear _ member second behind] at still
      cases still
  · rw [← line_endingAt first second.start]
    rcases List.mem_cons.mp member with same | behind
    · exact (congrArg line same).ge
    · exact (List.pairwise_cons.mp rest).1 _ behind

/-- The partner of the trimmed note does not stand behind the second note. -/
theorem line_le_of_partner (caught : Caught early middle late first second)
    (timely : Timely (front ++ first.endingAt second.start :: (between ++ two :: back)))
    (perm : (front ++ first.endingAt second.start :: (between ++ two :: back)).Perm
      (early ++ (middle ++ late) ++ [first.endingAt second.start, second]))
    (passed : ∀ note ∈ between, (first.endingAt second.start).conflictsWith note = false) :
    line two ≤ line second := by
  have member := perm.mem_iff.mpr
    (by simp : second ∈ early ++ (middle ++ late) ++ [first.endingAt second.start, second])
  obtain ⟨_, rest, preceding⟩ := List.pairwise_append.mp timely.sorted
  obtain ⟨_, rest⟩ := List.pairwise_cons.mp rest
  have still := caught.still
  simp only [List.mem_append, List.mem_cons] at member
  -- The second note stands somewhere in the new line, but not where it would be found before.
  rcases member with ahead | same | among | rfl | behind
  · exact absurd caught.line_lt (preceding second ahead _ (List.mem_cons_self ..)).not_gt
  · exact absurd (congrArg line same.symm) caught.line_lt.ne
  · rw [passed second among] at still
    cases still
  · exact le_refl _
  · exact (List.pairwise_cons.mp (List.pairwise_append.mp rest).2.1).1 second behind

/-- The partner of the trimmed note does not stand before the second note. -/
theorem line_le_partner (caught : Caught early middle late first second)
    (perm : (front ++ first.endingAt second.start :: (between ++ two :: back)).Perm
      (early ++ (middle ++ late) ++ [first.endingAt second.start, second]))
    (conflict : (first.endingAt second.start).conflictsWith two = true) :
    line second ≤ line two := by
  have elsewhere : two ∈ early ++ (middle ++ late) ++ [second] := mem_of_perm perm
  simp only [List.mem_append, List.mem_cons, List.not_mem_nil, or_false] at elsewhere
  -- Notes before the second are free of the trimmed one, so its partner is none of them.
  rcases elsewhere with (ahead | among | behind) | rfl
  · rw [caught.free_trimmed (Or.inl ahead)] at conflict
    cases conflict
  · rw [caught.free_trimmed (Or.inr among)] at conflict
    cases conflict
  · exact caught.line_of_late behind
  · exact le_refl _

/-- The trimmed note is in conflict again with one that starts when the second one does. -/
theorem again (caught : Caught early middle late first second) (timely : Timely next)
    (perm : next.Perm (early ++ (middle ++ late) ++ [first.endingAt second.start, second])) :
    ∃ partner rest, firstConflict? next = some (first.endingAt second.start, partner, rest) ∧
      partner ∈ next ∧ value second.start = value partner.start := by
  have still := caught.still
  cases found : firstConflict? next with
  | none =>
    -- The trimmed note and the second one are in conflict.
    rw [free_of_pairwise (firstConflict?_eq_none.mp found) (perm.mem_iff.mpr (by simp))
      (perm.mem_iff.mpr (by simp)) caught.endingAt_ne] at still
    cases still
  | some pair =>
    obtain ⟨one, two, rest⟩ := pair
    obtain ⟨front, between, back, rfl, _, conflict, free, clear, passed⟩ :=
      firstConflict?_first found
    -- Nothing before the trimmed note is in conflict, and it still is itself.
    obtain rfl := caught.eq_trimmed timely perm conflict
      (caught.line_le_of_found timely perm free clear)
    refine ⟨two, rest, rfl, by simp, ?_⟩
    have back := caught.line_le_of_partner timely perm passed
    have ahead := caught.line_le_partner perm conflict
    exact (Prod.mk.inj (toLex.injective (le_antisymm ahead back))).1

end Caught

namespace Stuck

/-- A round leaves stuck notes stuck. -/
theorem step (timely : Timely notes) (stuck : Stuck strategy notes) :
    ∃ next, step? strategy notes = some next ∧ Stuck strategy next := by
  obtain ⟨trims, first, second, others, found, apart, still⟩ := stuck
  have stepped := step?_eq trims found apart
  have before := timely.found_lt found apart
  have after := timely.step stepped
  obtain ⟨early, middle, late, rfl, rfl, conflict, free, clear, passed⟩ :=
    firstConflict?_first found
  have caught : Caught early middle late first second :=
    ⟨timely, free, clear, passed, conflict, before, still⟩
  obtain ⟨partner, rest, again, member, same⟩ := caught.again after (sort_perm _)
  have two : Begins second.start := timely.begins second (by simp)
  have one : Begins first.start := timely.begins first (by simp)
  -- The note would be trimmed to the length that it has already.
  have span : partner.start - first.start = second.start - first.start :=
    (sub_eq_of_value_eq two.finite (after.begins partner member).finite
      (one.nonneg.trans_lt before) same first.start).symm
  have kept : (first.endingAt second.start).endingAt partner.start =
      first.endingAt second.start := by
    simp only [endingAt, span]
  refine ⟨_, stepped, trims, _, partner, rest, again, ?_, ?_⟩
  · show decide (Scalar.magnitude (partner.start - first.start) ≤ tolerance) = false
    rw [span]
    exact apart
  · rw [kept]
    exact (firstConflict?_spec again).1

/-- No number of rounds is enough for stuck notes. -/
theorem settleWithin_eq_none (timely : Timely notes) (stuck : Stuck strategy notes)
    (rounds : Nat) : settleWithin strategy rounds notes = none := by
  -- Notes are stuck before each round, so none is the last.
  induction rounds generalizing notes with
  | zero => rfl
  | succ rounds ih =>
    obtain ⟨next, stepped, still⟩ := stuck.step timely
    rw [settleWithin, stepped]
    exact ih (timely.step stepped) still

end Stuck

/-- A note that passes all checks, as every note does that can be made. -/
def Admitted (note : Note Float) : Prop :=
  Note.ofParts note.pitch note.start note.duration note.velocity note.pan = .ok note

/-- The start of a note that is admitted is a number that is not below zero. -/
theorem Admitted.begins {note : Note Float} (admitted : Admitted note) : Begins note.start := by
  obtain ⟨_, made, _⟩ := bind_eq_ok.mp admitted
  obtain ⟨_, checked, _⟩ := bind_eq_ok.mp made
  exact checkStart_eq_ok_iff.mp checked

/-- Rounds end exactly when they never get stuck. -/
theorem settles_iff (begins : ∀ note ∈ notes, Begins note.start) :
    (∃ rounds result, settleWithin strategy rounds (sort notes) = some result) ↔
      ∀ reached, Reaches strategy (sort notes) reached → ¬ Stuck strategy reached := by
  have timely := Timely.sort begins
  refine ⟨fun ⟨rounds, result, settled⟩ reached reaches stuck => ?_, timely.settles⟩
  obtain ⟨fewer, ended⟩ := reaches.settleWithin settled
  rw [stuck.settleWithin_eq_none (timely.of_reaches reaches)] at ended
  cases ended

/-- The limit of early starts is `2 ^ 24`. -/
theorem value_limit : (16777216.0 : Float).isFinite = true ∧ value 16777216.0 = 2 ^ (24 : ℤ) := by
  refine ⟨by decide +kernel, ?_⟩
  have placed : place 16777216.0 = some (toLex (1, toLex (-28, 2 ^ 52))) := by
    decide +kernel
  rw [value, worth_eq_numberAt placed]
  norm_num [numberAt]

/-- The rounds on admitted notes end exactly when they never get stuck, so in any case without
trimming or with starts below 2 ^ 24, where a note that has been trimmed to a later one is free of
it. -/
theorem doubles_settle_iff (strategy : Strategy) (admitted : ∀ note ∈ notes, Admitted note) :
    ((∃ rounds result, settleWithin strategy rounds (sort notes) = some result) ↔
      ∀ reached, Reaches strategy (sort notes) reached → ¬ Stuck strategy reached) ∧
    (strategy.overlap ≠ .trim ∨ (∀ note ∈ notes, note.start < 16777216.0) →
      ∃ rounds result, settleWithin strategy rounds (sort notes) = some result) ∧
    ∀ first ∈ notes, ∀ second ∈ notes, first.start ≤ second.start →
      second.start < 16777216.0 →
      (first.endingAt second.start).conflictsWith second = false := by
  have begins : ∀ note ∈ notes, Begins note.start :=
    fun note member => (admitted note member).begins
  obtain ⟨finite, limit⟩ := value_limit
  have early : ∀ note ∈ notes, note.start < 16777216.0 → value note.start < 2 ^ (24 : ℤ) :=
    fun note member below =>
      limit ▸ (lt_iff_value (begins note member).finite finite).mp below
  refine ⟨settles_iff begins, ?_, ?_⟩
  · rintro (other | below)
    · exact (settles_iff begins).mpr fun _ _ stuck => other stuck.1
    · -- All starts that are ever reached are among those of the notes.
      refine (settles_iff begins).mpr fun reached reaches => ?_
      have sorted : Early (sort notes) := fun note member =>
        have present := (sort_perm notes).mem_iff.mp member
        early note present (below note present)
      have timely := (Timely.sort begins).of_reaches reaches
      exact timely.not_stuck_of_early (reaches.keeps Early.step sorted)
  · intro first one second two ordered below
    exact not_conflictsWith_trimmed_of_early (begins first one) (begins second two)
      ((le_iff_value (begins first one).finite (begins second two).finite).mp ordered)
      (early second two below)

/-- Two overlapping notes that are admitted settle, and the first one is free once it is trimmed. -/
theorem doubles_settle_overlapping :
    let earlier : Note Float := ⟨⟨48⟩, 0.1, 1.0, 1.0, 0.0⟩
    let later : Note Float := ⟨⟨48⟩, 0.3, 1.0, 1.0, 0.0⟩
    (∀ note ∈ [earlier, later], Admitted note) ∧
    earlier.conflictsWith later = true ∧
    (∃ rounds result, settleWithin {} rounds (sort [earlier, later]) = some result) ∧
    (earlier.endingAt later.start).conflictsWith later = false := by
  intro earlier later
  have admitted : ∀ note ∈ [earlier, later], Admitted note := by
    unfold Admitted
    decide +kernel
  -- Both notes start early enough for trimming to end their conflict.
  have below : ∀ note ∈ [earlier, later], note.start < 16777216.0 := by
    decide +kernel
  obtain ⟨_, settles, trimmed⟩ := doubles_settle_iff {} admitted
  refine ⟨admitted, by decide +kernel, settles (Or.inr below), ?_⟩
  exact trimmed earlier (by simp) later (by simp) (by decide +kernel) (by decide +kernel)

/-- A note that starts near zero and lasts beyond 2 ^ 24. -/
def longNote : Note Float :=
  ⟨⟨60⟩, 5.587935447692871e-9, 20000000.0, 1.0, 0.0⟩

/-- A note that starts just after 2 ^ 24. -/
def lateNote : Note Float :=
  ⟨⟨60⟩, 16777216.00000001, 1.0, 1.0, 0.0⟩

/-- The length and the end of the trimmed note are both rounded up, and it stays in conflict. -/
theorem stuck_late : Stuck {} [longNote, lateNote] := by
  have conflict : longNote.conflictsWith lateNote = true := by
    decide +kernel
  have found : firstConflict? [longNote, lateNote] = some (longNote, lateNote, []) := by
    rw [firstConflict?, partner?, if_pos conflict]
  exact ⟨rfl, longNote, lateNote, [], found, by decide +kernel, by decide +kernel⟩

/-- A little after 2 ^ 24 there are admitted notes for which no number of rounds is enough. -/
theorem doubles_settle_late : (∀ note ∈ [longNote, lateNote], Admitted note) ∧
    ∀ rounds, settleWithin {} rounds (sort [longNote, lateNote]) = none := by
  have admitted : ∀ note ∈ [longNote, lateNote], Admitted note := by
    unfold Admitted
    decide +kernel
  have sorted : sort [longNote, lateNote] = [longNote, lateNote] :=
    List.mergeSort_of_pairwise (by decide +kernel)
  -- The two notes are stuck from the beginning, and stay so in every round.
  have timely := Timely.sort fun note member => (admitted note member).begins
  refine ⟨admitted, fun rounds => ?_⟩
  rw [sorted] at timely ⊢
  exact stuck_late.settleWithin_eq_none timely rounds

end Doubles

end Resolution

end Melody
