import Melody.Proofs.Note.Endless
import Melody.Proofs.Scalar.Overflow

/-! Groups are moved note by note, and on doubles as a whole unless a late start overflows. -/

namespace Melody

namespace Group

section Notes

variable {α : Type} [Scalar α] {offset factor : α} {notes after : List (Note α)}
  {error : Note.Error α}

/-- A note that can be moved is moved, and then those behind it. -/
theorem shiftNotes_cons {note moved : Note α} (shifted : note.shift offset = .ok moved)
    (later : List (Note α)) : shiftNotes offset (note :: later) =
      (moved :: (shiftNotes offset later).1, (shiftNotes offset later).2) := by
  rw [shiftNotes, shifted]

/-- All notes are moved exactly when each of them can be. -/
theorem shiftNotes_eq_ok :
    shiftNotes offset notes = (after, .ok ()) ↔ notes.mapM (·.shift offset) = .ok after := by
  induction notes generalizing after with
  | nil =>
    show ([], Except.ok ()) = (after, Except.ok ()) ↔ Except.ok [] = Except.ok after
    simp
  | cons note later ih =>
    rw [List.mapM_cons]
    -- The walk stops at the first note that fails, just as mapping does.
    cases shifted : note.shift offset with
    | error error =>
      rw [shiftNotes, shifted]
      simp [bind, Except.bind]
    | ok moved =>
      rw [shiftNotes_cons shifted, Prod.mk.injEq]
      constructor
      · rintro ⟨rfl, passed⟩
        exact bind_eq_ok.mpr ⟨moved, rfl, bind_eq_ok.mpr ⟨_, ih.mp (Prod.ext rfl passed), rfl⟩⟩
      · intro mapped
        obtain ⟨_, same, rest⟩ := bind_eq_ok.mp mapped
        cases same
        obtain ⟨others, behind, same⟩ := bind_eq_ok.mp rest
        cases same
        rw [ih.mpr behind]
        exact ⟨rfl, rfl⟩

/-- Notes that fail are moved up to the first one that cannot be, and stay from it on. -/
theorem exists_of_shiftNotes_eq_error (failed : shiftNotes offset notes = (after, .error error)) :
    ∃ front moved note back, notes = front ++ note :: back ∧
      front.mapM (·.shift offset) = .ok moved ∧ note.shift offset = .error error ∧
        after = moved ++ note :: back := by
  induction notes generalizing after with
  | nil => cases failed
  | cons note later ih =>
    -- The notes before the one that fails are moved, and those behind it are left.
    cases shifted : note.shift offset with
    | error cause =>
      rw [shiftNotes, shifted] at failed
      cases failed
      exact ⟨[], [], note, later, rfl, rfl, shifted, rfl⟩
    | ok first =>
      rw [shiftNotes_cons shifted, Prod.mk.injEq] at failed
      obtain ⟨front, moved, other, back, rfl, passed, refused, same⟩ := ih (Prod.ext rfl failed.2)
      refine ⟨note :: front, first :: moved, other, back, rfl, ?_, refused, ?_⟩
      · rw [List.mapM_cons]
        exact bind_eq_ok.mpr ⟨first, shifted, bind_eq_ok.mpr ⟨moved, passed, rfl⟩⟩
      · exact failed.1.symm.trans (congrArg (first :: ·) same)

/-- The check of the earliest start changes nothing: its note would be the first to fail. -/
theorem shift_eq (group : Group α) (offset : α) :
    group.shift offset =
      ({ group with notes := (shiftNotes offset group.notes).1 },
        (shiftNotes offset group.notes).2) := by
  obtain ⟨notes, strategy⟩ := group
  cases notes with
  | nil => rfl
  | cons first later =>
    unfold shift
    rw [show start? ⟨first :: later, strategy⟩ = some first.start from rfl, Option.map_some]
    -- The check of the first start is the one that moving the first note makes again.
    cases checked : Note.checkStart (first.start + offset) with
    | ok passed => rfl
    | error error =>
      have failed : first.shift offset = .error error := bind_eq_error.mpr (Or.inl checked)
      simp only [shiftNotes, failed]

/-- A group is moved exactly when each of its notes can be. -/
theorem shift_eq_ok_iff {group next : Group α} : group.shift offset = (next, .ok ()) ↔
    group.notes.mapM (·.shift offset) = .ok next.notes ∧ next.strategy = group.strategy := by
  -- Moving ends well exactly when it does for each note, and then gives the list of them.
  rw [shift_eq, ← shiftNotes_eq_ok, Prod.mk.injEq]
  constructor
  · rintro ⟨rfl, passed⟩
    exact ⟨Prod.ext rfl passed, rfl⟩
  · rintro ⟨moved, same⟩
    rw [moved, ← same]
    exact ⟨rfl, rfl⟩

/-- A group that cannot be moved has a first note that cannot, which stays with those behind it. -/
theorem exists_of_shift_eq_error {group next : Group α}
    (failed : group.shift offset = (next, .error error)) : ∃ front moved note back,
      group.notes = front ++ note :: back ∧ front.mapM (·.shift offset) = .ok moved ∧
        note.shift offset = .error error ∧
          next = { group with notes := moved ++ note :: back } := by
  rw [shift_eq, Prod.mk.injEq] at failed
  obtain ⟨front, moved, note, back, split, passed, refused, same⟩ :=
    exists_of_shiftNotes_eq_error (Prod.ext rfl failed.2)
  exact ⟨front, moved, note, back, split, passed, refused,
    failed.1.symm.trans (congrArg (Group.mk · group.strategy) same)⟩

/-- A group is scaled exactly when each of its notes can be. -/
theorem amplify_eq_ok_iff {group next : Group α} : group.amplify factor = .ok next ↔
    group.notes.mapM (·.amplify factor) = .ok next.notes ∧ next.strategy = group.strategy := by
  -- All notes are scaled before any of them is put back.
  refine bind_eq_ok.trans ⟨?_, ?_⟩
  · rintro ⟨notes, scaled, same⟩
    cases same
    exact ⟨scaled, rfl⟩
  · rintro ⟨scaled, same⟩
    exact ⟨next.notes, scaled, by rw [← same]; rfl⟩

/-- A group that cannot be scaled has a note that cannot. -/
theorem exists_of_amplify_eq_error {group : Group α}
    (failed : group.amplify factor = .error error) :
    ∃ note ∈ group.notes, note.amplify factor = .error error := by
  rcases bind_eq_error.mp failed with refused | ⟨_, _, returned⟩
  · exact exists_of_mapM_eq_error refused
  · cases returned

end Notes

section Doubles

open Binary64 Note Resolution

variable {group : Group Float} {offset factor : Float}

/-- A note behind one that can be moved fails only if its start overflows. -/
theorem overflows_of_shift_eq_error {first note : Note Float} (one : Begins first.start)
    (other : Begins note.start) (ordered : first.start ≤ note.start)
    (passed : Begins (first.start + offset)) {error : Note.Error Float}
    (failed : note.shift offset = .error error) :
    error = .invalidStart (note.start + offset) ∧ (note.start + offset).isFinite = false ∧
      0.0 < note.start + offset := by
  have finite := isFinite_of_add one.finite passed.finite
  have below := add_le_add_of_value_le one.finite other.finite one.nonneg
    ((le_iff_value one.finite other.finite).mp ordered) (levelOf_of_isFinite finite)
    (abs_lt.mp (abs_value_lt offset)).1
  obtain ⟨p, q, low, found, before⟩ := le_iff_levelOf.mp below
  cases low.symm.trans (levelOf_of_isFinite passed.finite)
  have nonneg := passed.nonneg.trans before
  have checked : checkStart (note.start + offset) = .error error := by
    rcases bind_eq_error.mp failed with checked | ⟨_, _, returned⟩
    · exact checked
    · cases returned
  -- The start is a number that is not below zero, so that only its size can be wrong.
  have endless : (note.start + offset).isFinite = false := by
    rw [← Bool.not_eq_true]
    intro finite
    cases found.symm.trans (levelOf_of_isFinite finite)
    have fine := checkStart_eq_ok_iff.mpr ⟨finite, nonneg⟩
    cases fine.symm.trans checked
  refine ⟨?_, endless, ?_⟩
  · unfold checkStart at checked
    split at checked
    · cases checked
    · exact (Except.error.inj checked).symm
  · have above := (neg_lt_zero.mpr limit_pos).trans_le nonneg
    rcases isFinite_or_above found above with finite | ⟨rfl, _⟩
    · rw [endless] at finite
      cases finite
    · exact lt_iff_levelOf.mpr ⟨0, limit, levelOf_zero, found, limit_pos⟩

/-- Behind a note that is moved another one fails only if its start overflows. -/
theorem overflows_of_moved (admitted : ∀ note ∈ group.notes, Admitted note)
    (sorted : group.notes.Pairwise fun first second => first.start ≤ second.start)
    {front moved back : List (Note Float)} {note : Note Float} {error : Note.Error Float}
    (split : group.notes = front ++ note :: back)
    (passed : front.mapM (·.shift offset) = .ok moved)
    (failed : note.shift offset = .error error) (some : front ≠ []) :
    error = .invalidStart (note.start + offset) ∧ (note.start + offset).isFinite = false ∧
      0.0 < note.start + offset := by
  obtain ⟨first, others, rfl⟩ := List.exists_cons_of_ne_nil some
  rw [split] at admitted sorted
  -- The first note was moved, and this one starts no earlier.
  have ordered := (List.pairwise_append.mp sorted).2.2 first (List.mem_cons_self ..) note
    (List.mem_cons_self ..)
  rw [List.mapM_cons] at passed
  obtain ⟨_, shifted, _⟩ := bind_eq_ok.mp passed
  obtain ⟨_, checked, _⟩ := bind_eq_ok.mp shifted
  exact overflows_of_shift_eq_error (admitted first (by simp)).begins
    (admitted note (by simp)).begins ordered (checkStart_eq_ok_iff.mp checked) failed

/-- Moving a group is all or nothing, except that a note whose start overflows is left behind with
those after it once the notes before it have been moved, and scaling it is all or nothing. -/
theorem shift_whole (admitted : ∀ note ∈ group.notes, Admitted note)
    (sorted : group.notes.Pairwise fun first second => first.start ≤ second.start) :
    (∀ next, group.shift offset = (next, .ok ()) ↔
      group.notes.mapM (·.shift offset) = .ok next.notes ∧ next.strategy = group.strategy) ∧
    (∀ next error, group.shift offset = (next, .error error) →
      ∃ front moved note back, group.notes = front ++ note :: back ∧
        front.mapM (·.shift offset) = .ok moved ∧ note.shift offset = .error error ∧
        next = { group with notes := moved ++ note :: back } ∧
        (front ≠ [] → error = .invalidStart (note.start + offset) ∧
          (note.start + offset).isFinite = false ∧ 0.0 < note.start + offset)) ∧
    ((∀ note ∈ group.notes, (note.start + offset).isFinite = true) →
      ∀ next error, group.shift offset = (next, .error error) → next = group) ∧
    (∀ next, group.amplify factor = .ok next ↔
      group.notes.mapM (·.amplify factor) = .ok next.notes ∧ next.strategy = group.strategy) ∧
    ∀ error, group.amplify factor = .error error →
      ∃ note ∈ group.notes, note.amplify factor = .error error := by
  have stops : ∀ next error, group.shift offset = (next, .error error) →
      ∃ front moved note back, group.notes = front ++ note :: back ∧
        front.mapM (·.shift offset) = .ok moved ∧ note.shift offset = .error error ∧
        next = { group with notes := moved ++ note :: back } ∧
        (front ≠ [] → error = .invalidStart (note.start + offset) ∧
          (note.start + offset).isFinite = false ∧ 0.0 < note.start + offset) := by
    intro next error failed
    obtain ⟨front, moved, note, back, split, passed, refused, same⟩ :=
      exists_of_shift_eq_error failed
    exact ⟨front, moved, note, back, split, passed, refused, same,
      overflows_of_moved admitted sorted split passed refused⟩
  refine ⟨fun _ => shift_eq_ok_iff, stops, ?_, fun _ => amplify_eq_ok_iff,
    fun _ => exists_of_amplify_eq_error⟩
  intro finite next error failed
  obtain ⟨front, moved, note, back, split, passed, _, rfl, overflows⟩ := stops next error failed
  -- No start overflows, so that the first note is the one that fails.
  by_cases none : front = []
  · subst none
    cases passed
    exact congrArg (Group.mk · group.strategy) split.symm
  · have endless := (overflows none).2.1
    rw [finite note (by simp [split])] at endless
    cases endless

/-- A note at the beginning and one so late that its start can be doubled only once. -/
def overflowing : Group Float :=
  ⟨[⟨⟨60⟩, 0.0, 1.0, 1.0, 0.0⟩, ⟨⟨62⟩, 1e308, 1.0, 1.0, 0.0⟩], {}⟩

/-- The same notes when the first one has been moved to where the second one is. -/
def halfMoved : Group Float :=
  ⟨[⟨⟨60⟩, 1e308, 1.0, 1.0, 0.0⟩, ⟨⟨62⟩, 1e308, 1.0, 1.0, 0.0⟩], {}⟩

/-- The second note cannot be moved as far as the first one, which is moved nevertheless. -/
theorem shift_whole_overflowing : (∀ note ∈ overflowing.notes, Admitted note) ∧
    overflowing.shift 1e308 = (halfMoved, .error (.invalidStart (1e308 + 1e308))) ∧
    ∃ front moved note back, overflowing.notes = front ++ note :: back ∧
      front.mapM (·.shift 1e308) = .ok moved ∧
      note.shift 1e308 = .error (.invalidStart (1e308 + 1e308)) ∧
      halfMoved = { overflowing with notes := moved ++ note :: back } := by
  have admitted : ∀ note ∈ overflowing.notes, Admitted note := by
    unfold Admitted
    decide +kernel
  -- The run is evaluated, and its outcome is put through the general statement.
  have failed : overflowing.shift 1e308 =
      (halfMoved, .error (.invalidStart (1e308 + 1e308))) := by
    decide +kernel
  obtain ⟨_, stops, _⟩ := @shift_whole overflowing 1e308 1.0 admitted (by decide +kernel)
  obtain ⟨front, moved, note, back, split, passed, refused, same, _⟩ := stops _ _ failed
  exact ⟨admitted, failed, front, moved, note, back, split, passed, refused, same⟩

end Doubles

end Group

end Melody
