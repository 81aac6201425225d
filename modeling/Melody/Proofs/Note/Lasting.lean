import Mathlib.Data.Prod.Lex
import Melody.Proofs.Note.Settling
import Melody.Proofs.Outcome
import Melody.Proofs.Scalar.Field

/-! Notes take some time, and they still do when they have been grouped and changed. -/

namespace Melody

variable {α : Type} [ExactScalar α]

namespace Note

variable {note : Note α}

/-- The tolerance is not below zero. -/
theorem tolerance_nonneg : (0 : α) ≤ tolerance := by
  unfold tolerance
  rw [ExactScalar.literal]
  norm_num

/-- A note that is put to an end after its start lasts until then. -/
theorem duration_endingAt_pos {finish : α} (later : note.start < finish) :
    0 < (note.endingAt finish).duration :=
  sub_pos.mpr later

/-- A note that takes some time still does when it is put to a later end. -/
theorem duration_spanning_pos (lasts : 0 < note.duration) (other : α) :
    0 < (note.endingAt (Scalar.larger note.finish other)).duration := by
  have ends : note.start < note.finish := lt_add_of_pos_right _ lasts
  refine duration_endingAt_pos (ends.trans_le ?_)
  rw [Scalar.larger_eq_max]
  exact le_max_left _ _

end Note

namespace Strategy

variable {first second : Note α}

/-- Notes that start at one time start together. -/
theorem startTogether_of_eq (same : first.start = second.start) :
    startTogether first second = true := by
  have none : second.start - first.start = 0 := sub_eq_zero.mpr same.symm
  rw [startTogether, decide_eq_true_iff, none, Scalar.magnitude, Scalar.zero_eq,
    if_neg (lt_irrefl 0)]
  exact Note.tolerance_nonneg

/-- What is left of two coincident notes takes some time. -/
theorem resolveCoincident_lasts (choice : Coincident) (one : 0 < first.duration)
    (other : 0 < second.duration) :
    ∀ note ∈ resolveCoincident choice first second, 0 < note.duration := by
  have spanning := Note.duration_spanning_pos one second.finish
  -- A note that is kept lasts already, and a joined one lasts up to the later end.
  cases choice with
  | sum => exact List.forall_mem_singleton.mpr spanning
  | remove => exact List.forall_mem_nil _
  | longer =>
    show ∀ note ∈ if first.duration < second.duration then [second] else [first], _
    split <;> simpa
  | shorter =>
    show ∀ note ∈ if second.duration < first.duration then [second] else [first], _
    split <;> simpa
  | maxProperties => exact List.forall_mem_singleton.mpr spanning

/-- What is left of two overlapping notes takes some time. -/
theorem resolveOverlap_lasts (choice : Overlap) (before : first.start < second.start)
    (one : 0 < first.duration) (other : 0 < second.duration) :
    ∀ note ∈ resolveOverlap choice first second, 0 < note.duration := by
  cases choice with
  | merge => exact List.forall_mem_singleton.mpr (Note.duration_spanning_pos one second.finish)
  | trim =>
    -- The first note ends where the second one starts, which is later.
    have trimmed := Note.duration_endingAt_pos before
    exact List.forall_mem_cons.mpr ⟨trimmed, List.forall_mem_singleton.mpr other⟩
  | remove => exact List.forall_mem_nil _
  | first => exact List.forall_mem_singleton.mpr one
  | second => exact List.forall_mem_singleton.mpr other

/-- What is left of two notes takes some time. -/
theorem resolve_lasts (strategy : Strategy) (starts : first.start ≤ second.start)
    (one : 0 < first.duration) (other : 0 < second.duration) :
    ∀ note ∈ strategy.resolve first second, 0 < note.duration := by
  unfold resolve
  by_cases together : startTogether first second = true
  · rw [if_pos together]
    exact resolveCoincident_lasts _ one other
  · rw [if_neg together]
    -- Notes that do not start together do not start at one time.
    have apart : first.start ≠ second.start := fun same => together (startTogether_of_eq same)
    exact resolveOverlap_lasts _ (lt_of_le_of_ne starts apart) one other

end Strategy

namespace Resolution

variable {first second : Note α} {notes next : List (Note α)}

/-- The order of notes is that of their starts and pitches, one after the other. -/
theorem inOrder_iff_lex : inOrder first second = true ↔
    toLex (first.start, first.pitch.index) ≤ toLex (second.start, second.pitch.index) := by
  rw [Prod.Lex.toLex_le_toLex]
  unfold inOrder
  -- Starts are compared first, and pitches only if those are equal.
  rcases lt_trichotomy first.start second.start with before | same | after
  · simp [before]
  · simp [same]
  · simp [after, after.ne', after.not_gt]

/-- Sorted notes start one after the other. -/
theorem sort_starts (notes : List (Note α)) :
    (sort notes).Pairwise fun note later => note.start ≤ later.start := by
  have sorted : (sort notes).Pairwise fun note later => inOrder note later = true := by
    refine List.pairwise_mergeSort (fun note middle last one other => ?_) (fun note later => ?_) _
    · exact inOrder_iff_lex.mpr ((inOrder_iff_lex.mp one).trans (inOrder_iff_lex.mp other))
    · rw [Bool.or_eq_true, inOrder_iff_lex, inOrder_iff_lex]
      exact le_total _ _
  -- Notes in line have starts in order.
  refine sorted.imp fun ordered => ?_
  rcases Prod.Lex.toLex_le_toLex.mp (inOrder_iff_lex.mp ordered) with before | ⟨same, _⟩
  · exact before.le
  · exact same.le

/-- The first note of a conflicting pair among sorted ones does not start after the second. -/
theorem firstConflict?_starts {others : List (Note α)}
    (sorted : notes.Pairwise fun note later => note.start ≤ later.start)
    (found : firstConflict? notes = some (first, second, others)) :
    first.start ≤ second.start := by
  -- The second note stands behind the first one, and so does not start before it.
  obtain ⟨early, middle, late, rfl, _⟩ := firstConflict?_first found
  have behind := (List.pairwise_cons.mp (List.pairwise_append.mp sorted).2.1).1
  exact behind second (List.mem_append_right _ (List.mem_cons_self ..))

/-- A note is moved within the time before a later one, if at all. -/
theorem start_align_le (starts : first.start ≤ second.start) :
    (align first second).start ≤ second.start := by
  unfold align
  split
  · exact le_refl _
  · exact starts

/-- Aligning a note leaves its duration. -/
@[simp] theorem duration_align (first second : Note α) :
    (align first second).duration = first.duration := by
  unfold align
  split <;> rfl

/-- What the replacement of a pair keeps holds of all notes when a pair has been replaced. -/
theorem step?_keeps {strategy : Strategy} {holds : Note α → Prop}
    (kept : ∀ {first second}, first.start ≤ second.start → holds first → holds second →
      ∀ note ∈ strategy.resolve (align first second) second, holds note)
    (sorted : notes.Pairwise fun note later => note.start ≤ later.start)
    (all : ∀ note ∈ notes, holds note) (stepped : step? strategy notes = some next) :
    next.Pairwise (fun note later => note.start ≤ later.start) ∧ ∀ note ∈ next, holds note := by
  obtain ⟨⟨first, second, others⟩, found, rfl⟩ := Option.map_eq_some_iff.mp stepped
  obtain ⟨_, perm⟩ := firstConflict?_spec found
  have starts := firstConflict?_starts sorted found
  have old : ∀ note ∈ first :: second :: others, holds note :=
    fun note member => all note (perm.mem_iff.mpr member)
  obtain ⟨one, other, rest⟩ := by simpa only [List.forall_mem_cons] using old
  refine ⟨sort_starts _, fun note member => ?_⟩
  -- A note of the next round was left alone, or comes from the conflict.
  rcases List.mem_append.mp ((sort_perm _).mem_iff.mp member) with left | made
  · exact rest note left
  · exact kept starts one other note made

/-- What the replacement of a pair keeps holds of all notes when their conflicts are settled. -/
theorem settle_keeps {strategy : Strategy} {holds : Note α → Prop}
    (kept : ∀ {first second}, first.start ≤ second.start → holds first → holds second →
      ∀ note ∈ strategy.resolve (align first second) second, holds note)
    (all : ∀ note ∈ notes, holds note) : ∀ note ∈ settle strategy notes, holds note := by
  -- Each round starts from sorted notes, whether or not the rounds are enough.
  have round : ∀ {notes next : List (Note α)},
      notes.Pairwise (fun note later => note.start ≤ later.start) ∧ (∀ note ∈ notes, holds note) →
      step? strategy notes = some next →
      next.Pairwise (fun note later => note.start ≤ later.start) ∧ ∀ note ∈ next, holds note :=
    fun ⟨order, all⟩ stepped => step?_keeps kept order all stepped
  have sorted : ∀ note ∈ sort notes, holds note :=
    fun note member => all note ((sort_perm _).mem_iff.mp member)
  show ∀ note ∈ (settleWithin strategy (roundLimit (sort notes).length) (sort notes)).getD _, _
  cases settled : settleWithin strategy (roundLimit (sort notes).length) (sort notes) with
  | none => exact sorted
  | some result => exact (settleWithin_keeps round ⟨sort_starts notes, sorted⟩ settled).2

/-- Settling conflicts leaves notes that take some time. -/
theorem settle_lasts (strategy : Strategy) (lasts : ∀ note ∈ notes, 0 < note.duration) :
    ∀ note ∈ settle strategy notes, 0 < note.duration := by
  refine settle_keeps (fun {first second} starts one other => ?_) lasts
  refine strategy.resolve_lasts (start_align_le starts) ?_ other
  rw [duration_align]
  exact one

end Resolution

namespace Group

/-- A group of notes that take some time, as every group does that can be made. -/
def Lasting (group : Group α) : Prop :=
  ∀ note ∈ group.notes, 0 < note.duration

namespace Lasting

variable {group next : Group α}

/-- Notes that take some time make up such a group. -/
theorem ofNotes {notes : List (Note α)} (lasts : ∀ note ∈ notes, 0 < note.duration)
    (strategy : Strategy) : (Group.ofNotes notes strategy).Lasting :=
  Resolution.settle_lasts strategy lasts

/-- Adding notes that last leaves a lasting group. -/
theorem addAll (lasting : group.Lasting) {notes : List (Note α)}
    (lasts : ∀ note ∈ notes, 0 < note.duration) : (group.addAll notes).Lasting :=
  ofNotes (List.forall_mem_append.mpr ⟨lasting, lasts⟩) _

/-- Removing a note leaves a lasting group. -/
theorem remove? (lasting : group.Lasting) {index : Nat} {note : Note α}
    (removed : group.remove? index = some (note, next)) : next.Lasting := by
  obtain ⟨_, _, same⟩ := Option.map_eq_some_iff.mp removed
  cases same
  exact ofNotes (fun other member => lasting other (List.mem_of_mem_eraseIdx member)) _

/-- Keeping some of the notes leaves a lasting group. -/
theorem retain (lasting : group.Lasting) (keep : Note α → Bool) : (group.retain keep).Lasting :=
  fun note member => lasting note (List.mem_filter.mp member).1

/-- Transposing leaves a lasting group. -/
theorem transpose (lasting : group.Lasting) (interval : Interval) :
    (group.transpose interval).Lasting := by
  rintro note member
  obtain ⟨old, present, rfl⟩ := List.mem_map.mp member
  exact lasting old present

/-- Moving notes in time does not change how long they take. -/
theorem shift (lasting : group.Lasting) (offset : α) : (group.shift offset).1.Lasting := by
  have moved : ∀ {notes : List (Note α)}, (∀ note ∈ notes, 0 < note.duration) →
      ∀ note ∈ (shiftNotes offset notes).1, 0 < note.duration := by
    intro notes lasts
    induction notes with
    | nil => exact List.forall_mem_nil _
    | cons note later ih =>
      obtain ⟨first, rest⟩ := List.forall_mem_cons.mp lasts
      rw [shiftNotes]
      -- A note that cannot be moved stays as it was, and so do the notes behind it.
      cases shifted : note.shift offset with
      | error error => exact lasts
      | ok moved =>
        obtain ⟨_, _, same⟩ := bind_eq_ok.mp shifted
        cases same
        exact List.forall_mem_cons.mpr ⟨first, ih rest⟩
  unfold Group.shift
  split
  · exact lasting
  · exact moved lasting

/-- Amplifying leaves a lasting group. -/
theorem amplify (lasting : group.Lasting) {factor : α}
    (amplified : group.amplify factor = .ok next) : next.Lasting := by
  -- Each of the notes comes from an old one, of which only the velocity has changed.
  obtain ⟨notes, scaled, same⟩ := bind_eq_ok.mp amplified
  cases same
  intro note member
  obtain ⟨old, present, louder⟩ := exists_of_mem_mapM scaled member
  obtain ⟨_, _, set⟩ := bind_eq_ok.mp louder
  obtain ⟨_, _, same⟩ := bind_eq_ok.mp set
  cases same
  exact lasting old present

end Lasting

/-- The groups that can be made from notes that take some time. -/
inductive Made : Group α → Prop
  /-- The conflicts among notes are settled. -/
  | ofNotes {notes : List (Note α)} (lasts : ∀ note ∈ notes, 0 < note.duration)
      (strategy : Strategy) : Made (Group.ofNotes notes strategy)
  /-- Notes are added. -/
  | addAll {group : Group α} (made : Made group) {notes : List (Note α)}
      (lasts : ∀ note ∈ notes, 0 < note.duration) : Made (group.addAll notes)
  /-- A note is taken out. -/
  | remove {group next : Group α} (made : Made group) {index : Nat} {note : Note α}
      (removed : group.remove? index = some (note, next)) : Made next
  /-- Only the notes that pass a test are kept. -/
  | retain {group : Group α} (made : Made group) (keep : Note α → Bool) : Made (group.retain keep)
  /-- Every note is moved in time, or none behind the first that cannot be. -/
  | shift {group : Group α} (made : Made group) (offset : α) : Made (group.shift offset).1
  /-- Every note is moved in pitch. -/
  | transpose {group : Group α} (made : Made group) (interval : Interval) :
      Made (group.transpose interval)
  /-- Every velocity is scaled. -/
  | amplify {group next : Group α} (made : Made group) {factor : α}
      (amplified : group.amplify factor = .ok next) : Made next

/-- The notes of every group that can be made take some time. -/
theorem Made.lasting {group : Group α} (made : group.Made) : group.Lasting := by
  -- There is one case for each way to make or change a group.
  induction made with
  | ofNotes lasts strategy => exact .ofNotes lasts strategy
  | addAll _ lasts lasting => exact lasting.addAll lasts
  | remove _ removed lasting => exact lasting.remove? removed
  | retain _ keep lasting => exact lasting.retain keep
  | shift _ offset lasting => exact lasting.shift offset
  | transpose _ interval lasting => exact lasting.transpose interval
  | amplify _ amplified lasting => exact lasting.amplify amplified

end Group

end Melody
