import Mathlib.Algebra.BigOperators.Group.List.Basic
import Mathlib.Data.List.MinMax
import Melody.Proofs.Note.Settled

/-! Trimming and summing leave one note of each chord, whatever the order of the notes. -/

namespace Melody

namespace Resolution

variable {origin notes others next : List (Note ℚ)} {first second note : Note ℚ} {pitch : Pitch}
  {start : ℚ}

/-- The notes of a pitch that start at a time. -/
def chord (pitch : Pitch) (start : ℚ) (notes : List (Note ℚ)) : List (Note ℚ) :=
  notes.filter fun note => decide (note.pitch = pitch ∧ note.start = start)

/-- The sum of the velocities in a chord. -/
def loudness (pitch : Pitch) (start : ℚ) (notes : List (Note ℚ)) : ℚ :=
  ((chord pitch start notes).map Note.velocity).sum

/-- The latest end in a chord, if there are notes in it. -/
def latestEnd (pitch : Pitch) (start : ℚ) (notes : List (Note ℚ)) : WithBot ℚ :=
  ((chord pitch start notes).map Note.finish).maximum

/-- The first start of a pitch after a time, if there is one. -/
def nextStart (pitch : Pitch) (start : ℚ) (notes : List (Note ℚ)) : WithTop ℚ :=
  ((notes.filter fun note => decide (note.pitch = pitch ∧ start < note.start)).map
    Note.start).minimum

/-- Notes in order start in order. -/
theorem start_le_of_inOrder (ordered : inOrder first second = true) :
    first.start ≤ second.start := by
  rcases inOrder_iff.mp ordered with before | ⟨same, _⟩
  · exact before.le
  · exact same.le

/-- Notes start together when their starts are no farther apart than the tolerance. -/
theorem startTogether_iff : Strategy.startTogether first second = true ↔
    |second.start - first.start| ≤ Note.tolerance := by
  -- The size of a rational is its absolute value.
  rw [Strategy.startTogether, decide_eq_true_iff,
    @Scalar.magnitude_eq_abs ℚ ExactScalar.rational]

/-- Notes longer than the tolerance, whose starts at a pitch are equal or farther apart than it. -/
structure Clear (notes : List (Note ℚ)) : Prop where
  lasts : ∀ note ∈ notes, Note.tolerance < note.duration
  apart : ∀ first ∈ notes, ∀ second ∈ notes, first.pitch = second.pitch →
    first.start = second.start ∨ Note.tolerance < |second.start - first.start|

/-- Whether notes are clear does not depend on their order. -/
theorem Clear.perm (clear : Clear notes) (perm : notes.Perm others) : Clear others where
  lasts := fun note member => clear.lasts note (perm.mem_iff.mpr member)
  apart := fun first one second other =>
    clear.apart first (perm.mem_iff.mpr one) second (perm.mem_iff.mpr other)

section Chords

/-- The notes of a chord are those with its pitch and its start. -/
theorem mem_chord : note ∈ chord pitch start notes ↔
    note ∈ notes ∧ note.pitch = pitch ∧ note.start = start := by
  simp [chord]

/-- A chord is empty when no note has its pitch and its start. -/
theorem chord_eq_nil : chord pitch start notes = [] ↔
    ∀ note ∈ notes, note.pitch = pitch → note.start ≠ start := by
  simp [chord, List.filter_eq_nil_iff]

/-- The chords of two groups of notes stand one behind the other. -/
theorem chord_append (notes others : List (Note ℚ)) :
    chord pitch start (notes ++ others) = chord pitch start notes ++ chord pitch start others :=
  List.filter_append ..

/-- A note with the pitch and the start of a chord belongs to it. -/
theorem chord_cons_here (here : note.pitch = pitch ∧ note.start = start)
    (notes : List (Note ℚ)) :
    chord pitch start (note :: notes) = note :: chord pitch start notes :=
  List.filter_cons_of_pos (by simpa using here)

/-- A note with another pitch or another start does not belong to a chord. -/
theorem chord_cons_there (elsewhere : ¬ (note.pitch = pitch ∧ note.start = start))
    (notes : List (Note ℚ)) : chord pitch start (note :: notes) = chord pitch start notes :=
  List.filter_cons_of_neg (by simpa using elsewhere)

/-- The same notes in another order have the same chords in another order. -/
theorem chord_perm (perm : notes.Perm others) :
    (chord pitch start notes).Perm (chord pitch start others) :=
  perm.filter _

/-- The loudness of a chord does not depend on the order of its notes. -/
theorem loudness_of_perm (same : (chord pitch start notes).Perm (chord pitch start others)) :
    loudness pitch start notes = loudness pitch start others :=
  (same.map Note.velocity).sum_eq

/-- The latest end of a chord does not depend on the order of its notes. -/
theorem latestEnd_of_perm (same : (chord pitch start notes).Perm (chord pitch start others)) :
    latestEnd pitch start notes = latestEnd pitch start others :=
  (same.map Note.finish).maximum_eq

/-- The next start does not depend on the order of the notes. -/
theorem nextStart_of_perm (perm : notes.Perm others) (pitch : Pitch) (start : ℚ) :
    nextStart pitch start notes = nextStart pitch start others :=
  ((perm.filter _).map Note.start).minimum_eq

/-- Where notes stand at all places of some others, the next start is no later. -/
theorem nextStart_le_of_places
    (places : ∀ start, chord pitch start others ≠ [] → chord pitch start notes ≠ []) :
    nextStart pitch start notes ≤ nextStart pitch start others := by
  refine List.minimum_anti fun time member => ?_
  obtain ⟨other, passed, rfl⟩ := List.mem_map.mp member
  obtain ⟨present, later⟩ := List.mem_filter.mp passed
  obtain ⟨here, after⟩ := of_decide_eq_true later
  -- Some note stands where the other one does.
  have filled := places other.start (List.ne_nil_of_mem (mem_chord.mpr ⟨present, here, rfl⟩))
  obtain ⟨note, member⟩ := List.exists_mem_of_ne_nil _ filled
  obtain ⟨found, same, at_start⟩ := mem_chord.mp member
  refine List.mem_map.mpr ⟨note, List.mem_filter.mpr ⟨found, ?_⟩, at_start⟩
  exact decide_eq_true ⟨same, at_start ▸ after⟩

end Chords

/-- A chord stands for that of the origin: its velocities have the same sum, and it has the same
latest end or has become one note that ends at the next start. -/
structure TracedAt (origin notes : List (Note ℚ)) (pitch : Pitch) (start : ℚ) : Prop where
  filled : chord pitch start notes = [] ↔ chord pitch start origin = []
  loudness : loudness pitch start notes = loudness pitch start origin
  ends : latestEnd pitch start notes = latestEnd pitch start origin ∨
    ∃ (note : Note ℚ) (latest : ℚ), chord pitch start notes = [note] ∧
      latestEnd pitch start origin = latest ∧ nextStart pitch start origin = note.finish ∧
      note.finish < latest - Note.tolerance

/-- A chord with the same notes in another order stands for the same chord of the origin. -/
theorem TracedAt.of_perm (traced : TracedAt origin notes pitch start)
    (same : (chord pitch start next).Perm (chord pitch start notes)) :
    TracedAt origin next pitch start where
  filled := by
    -- The same notes in another order have the same loudness and the same latest end.
    rw [← traced.filled]
    exact ⟨fun none => (none ▸ same).nil_eq.symm, fun none => (none ▸ same).eq_nil⟩
  loudness := (loudness_of_perm same).trans traced.loudness
  ends := by
    rcases traced.ends with whole | ⟨note, latest, alone, rest⟩
    · exact Or.inl ((latestEnd_of_perm same).trans whole)
    · exact Or.inr ⟨note, latest, List.perm_singleton.mp (alone ▸ same), rest⟩

/-- Notes in order whose chords all stand for those of the origin. -/
structure Traced (origin notes : List (Note ℚ)) : Prop where
  sorted : notes.Pairwise fun first second => inOrder first second = true
  lasts : ∀ note ∈ notes, Note.tolerance < note.duration
  chords : ∀ pitch start, TracedAt origin notes pitch start

namespace Traced

/-- Clear notes that are sorted stand for themselves. -/
theorem ofClear (clear : Clear origin) : Traced origin (sort origin) where
  sorted := sort_sorted origin
  lasts := fun note member => clear.lasts note ((sort_perm origin).mem_iff.mp member)
  chords := fun _ _ =>
    TracedAt.of_perm ⟨Iff.rfl, rfl, Or.inl rfl⟩ (chord_perm (sort_perm origin))

/-- The next start is that of the origin. -/
theorem nextStart_eq (traced : Traced origin notes) :
    nextStart pitch start notes = nextStart pitch start origin :=
  le_antisymm
    (nextStart_le_of_places fun start => mt (traced.chords pitch start).filled.mp)
    (nextStart_le_of_places fun start => mt (traced.chords pitch start).filled.mpr)

/-- Notes of one pitch that start together start at one time. -/
theorem start_eq (traced : Traced origin notes) (clear : Clear origin) (one : first ∈ notes)
    (other : second ∈ notes) (same : first.pitch = second.pitch)
    (together : Strategy.startTogether first second = true) : first.start = second.start := by
  -- Notes of the origin stand where the two notes do.
  have at_origin : ∀ note ∈ notes, ∃ old ∈ origin, old.pitch = note.pitch ∧
      old.start = note.start := by
    intro note member
    have here : chord note.pitch note.start notes ≠ [] :=
      List.ne_nil_of_mem (mem_chord.mpr ⟨member, rfl, rfl⟩)
    obtain ⟨old, found⟩ :=
      List.exists_mem_of_ne_nil _ (mt (traced.chords _ _).filled.mpr here)
    exact ⟨old, mem_chord.mp found⟩
  obtain ⟨old, present, here, starts⟩ := at_origin first one
  obtain ⟨partner, found, there, begins⟩ := at_origin second other
  rcases clear.apart old present partner found (by rw [here, there, same]) with equal | far
  · rw [← starts, ← begins, equal]
  · -- The starts are not farther apart than the tolerance.
    rw [startTogether_iff] at together
    rw [starts, begins] at far
    exact absurd together (not_le.mpr far)

end Traced

/-- One note for two that start together, up to the later end and with both velocities. -/
def joint (first second : Note ℚ) : Note ℚ :=
  { first.endingAt (max first.finish second.finish) with
    velocity := first.velocity + second.velocity }

/-- The note for two others ends with the later of them. -/
theorem finish_joint (first second : Note ℚ) :
    (joint first second).finish = max first.finish second.finish :=
  Note.finish_endingAt first _

/-- Two notes with the same start become the one note for both. -/
theorem resolve_of_start_eq (same : first.start = second.start) :
    Strategy.resolve {} (align first second) second = [joint first second] := by
  have together : Strategy.startTogether first second = true := by
    rw [startTogether_iff, same, sub_self, abs_zero]
    exact Note.tolerance_pos.le
  -- Aligning moves a start to one that it already has.
  have aligned : align first second = first := by
    rw [align, if_pos together, ← same]
  have latest : Scalar.larger first.finish second.finish = max first.finish second.finish :=
    @Scalar.larger_eq_max ℚ ExactScalar.rational _ _
  rw [aligned, Strategy.resolve, if_pos together]
  simp only [Strategy.resolveCoincident, latest, joint]

/-- Of two notes that do not start together the first is cut at the start of the second. -/
theorem resolve_of_apart (apart : Strategy.startTogether first second = false) :
    Strategy.resolve {} (align first second) second =
      [first.endingAt second.start, second] := by
  have aligned : align first second = first := by
    rw [align, if_neg (by simp [apart])]
  rw [aligned, Strategy.resolve, if_neg (by simp [apart])]
  rfl

namespace Traced

/-- Notes of a pitch are in conflict when the later one starts well before the end of the other. -/
theorem conflictsWith_of_reaches (traced : Traced origin notes) (other : second ∈ notes)
    (pitch : first.pitch = second.pitch) (starts : first.start ≤ second.start)
    (reaches : second.start < first.finish - Note.tolerance) :
    first.conflictsWith second = true := by
  have lasting := traced.lasts second other
  refine Note.conflictsWith_iff.mpr ⟨pitch, ?_, reaches⟩
  rw [Note.finish]
  linarith

/-- Notes of one chord are in conflict. -/
theorem conflictsWith (traced : Traced origin notes) (one : first ∈ notes) (other : second ∈ notes)
    (pitch : first.pitch = second.pitch) (starts : first.start = second.start) :
    first.conflictsWith second = true := by
  have long := traced.lasts first one
  refine traced.conflictsWith_of_reaches other pitch starts.le ?_
  rw [Note.finish]
  linarith

/-- Where the first conflict starts apart, the notes of its pitch before it start earlier, and those
behind it no earlier than its second note. -/
theorem starts_of_found (traced : Traced origin notes)
    (found : firstConflict? notes = some (first, second, others))
    (before : first.start < second.start) : ∃ early late, notes = early ++ first :: late ∧
      second ∈ late ∧ (∀ note ∈ early, note.pitch = first.pitch → note.start < first.start) ∧
      ∀ note ∈ late, note.pitch = first.pitch → second.start ≤ note.start := by
  obtain ⟨early, middle, late, rfl, rfl, conflict, _, clear, passed⟩ :=
    firstConflict?_first found
  obtain ⟨_, _, reaches⟩ := Note.conflictsWith_iff.mp conflict
  obtain ⟨_, rest, preceding⟩ := List.pairwise_append.mp traced.sorted
  obtain ⟨following, rest⟩ := List.pairwise_cons.mp rest
  obtain ⟨last, _⟩ := List.pairwise_cons.mp (List.pairwise_append.mp rest).2.1
  refine ⟨early, middle ++ second :: late, rfl, by simp, ?_, ?_⟩
  · -- A note before it that starts no earlier would be in conflict with it.
    intro note member pitch
    refine lt_of_le_of_ne (start_le_of_inOrder (preceding note member first (by simp))) ?_
    intro starts
    have hit := traced.conflictsWith (List.mem_append_left _ member) (by simp) pitch starts
    exact absurd (clear note member first (by simp)) (by simp [hit])
  · intro note member pitch
    rcases List.mem_append.mp member with between | beyond
    · -- A note between the two that starts before the second would be in conflict with the first.
      by_contra sooner
      have starts := start_le_of_inOrder (following note member)
      have hit := traced.conflictsWith_of_reaches (List.mem_append_right _
        (List.mem_cons_of_mem _ member)) pitch.symm starts (by linarith)
      exact absurd (passed note between) (by simp [hit])
    · rcases List.mem_cons.mp beyond with rfl | later
      · exact le_refl _
      · exact start_le_of_inOrder (last note later)

/-- The first note of a pair that starts apart is alone in its chord, and the second starts next. -/
theorem alone (traced : Traced origin notes)
    (found : firstConflict? notes = some (first, second, others))
    (before : first.start < second.start) : chord first.pitch first.start notes = [first] ∧
      nextStart first.pitch first.start notes = second.start := by
  obtain ⟨conflict, _⟩ := firstConflict?_spec found
  obtain ⟨same, _⟩ := Note.conflictsWith_iff.mp conflict
  obtain ⟨early, late, rfl, member, behind, ahead⟩ := traced.starts_of_found found before
  constructor
  · have none_behind : chord first.pitch first.start early = [] :=
      chord_eq_nil.mpr fun note member pitch => (behind note member pitch).ne
    have none_ahead : chord first.pitch first.start late = [] :=
      chord_eq_nil.mpr fun note member pitch =>
        (before.trans_le (ahead note member pitch)).ne'
    rw [chord_append, none_behind, chord_cons_here ⟨rfl, rfl⟩, none_ahead, List.nil_append]
  · refine List.minimum_eq_coe_iff.mpr ⟨?_, fun time reached => ?_⟩
    · refine List.mem_map.mpr ⟨second, List.mem_filter.mpr ⟨by simp [member], ?_⟩, rfl⟩
      exact decide_eq_true ⟨same.symm, before⟩
    · obtain ⟨note, chosen, rfl⟩ := List.mem_map.mp reached
      obtain ⟨present, later⟩ := List.mem_filter.mp chosen
      obtain ⟨pitch, after⟩ := of_decide_eq_true later
      -- Only notes behind the first one start after it.
      rcases List.mem_append.mp present with early | beyond
      · exact absurd after (behind note early pitch).not_gt
      · rcases List.mem_cons.mp beyond with rfl | further
        · exact absurd after (lt_irrefl _)
        · exact ahead note further pitch

/-- A round sums up two notes of a chord, or cuts a single one at the next start. -/
theorem step?_cases (traced : Traced origin notes) (clear : Clear origin)
    (stepped : step? {} notes = some next) : ∃ first second others,
      notes.Perm (first :: second :: others) ∧ first.pitch = second.pitch ∧
      (first.start = second.start ∧ next.Perm (joint first second :: others) ∨
        chord first.pitch first.start notes = [first] ∧
          nextStart first.pitch first.start notes = second.start ∧
          Note.tolerance < second.start - first.start ∧
          second.start < first.finish - Note.tolerance ∧
          next.Perm (first.endingAt second.start :: second :: others)) := by
  obtain ⟨⟨first, second, others⟩, found, rfl⟩ := Option.map_eq_some_iff.mp stepped
  obtain ⟨conflict, perm⟩ := firstConflict?_spec found
  obtain ⟨same, _, reaches⟩ := Note.conflictsWith_iff.mp conflict
  have starts : first.start ≤ second.start :=
    @firstConflict?_starts ℚ ExactScalar.rational _ _ _ _ (traced.sorted.imp start_le_of_inOrder)
      found
  have one : first ∈ notes := perm.mem_iff.mpr (by simp)
  have other : second ∈ notes := perm.mem_iff.mpr (by simp)
  refine ⟨first, second, others, perm, same, ?_⟩
  dsimp only
  -- Two notes of a first conflict start at one time, or the first is cut at the second.
  by_cases together : Strategy.startTogether first second = true
  · have equal := traced.start_eq clear one other same together
    rw [resolve_of_start_eq equal]
    exact Or.inl ⟨equal, (sort_perm _).trans List.perm_append_comm⟩
  · have far : Note.tolerance < |second.start - first.start| := by
      rw [startTogether_iff] at together
      exact not_le.mp together
    rw [abs_of_nonneg (sub_nonneg.mpr starts)] at far
    have before : first.start < second.start := sub_pos.mp (Note.tolerance_pos.trans far)
    obtain ⟨single, ahead⟩ := traced.alone found before
    rw [resolve_of_apart (by simpa using together)]
    exact Or.inr ⟨single, ahead, far, reaches, (sort_perm _).trans List.perm_append_comm⟩

end Traced

namespace TracedAt

/-- A chord of which two notes are summed up stands for the same one. -/
theorem sum (traced : TracedAt origin notes first.pitch first.start)
    (before : (chord first.pitch first.start notes).Perm (first :: second :: others))
    (after : (chord first.pitch first.start next).Perm (joint first second :: others)) :
    TracedAt origin next first.pitch first.start where
  filled := by
    have full : chord first.pitch first.start notes ≠ [] := fun none => by
      simp [none] at before
    have still : chord first.pitch first.start next ≠ [] := fun none => by
      simp [none] at after
    rw [← traced.filled]
    exact ⟨fun none => absurd none still, fun none => absurd none full⟩
  loudness := by
    have total := (before.map Note.velocity).sum_eq
    have left := (after.map Note.velocity).sum_eq
    rw [← traced.loudness, Resolution.loudness, Resolution.loudness, total, left]
    simp [joint, add_assoc]
  ends := by
    rcases traced.ends with whole | ⟨note, latest, alone, _⟩
    · -- The later end of the two is the end of their sum.
      have total := (before.map Note.finish).maximum_eq
      have left := (after.map Note.finish).maximum_eq
      left
      rw [← whole, latestEnd, latestEnd, total, left]
      simp [List.maximum_cons, finish_joint, max_assoc]
    · -- A note that has been cut is the only one.
      have length := before.length_eq
      rw [alone] at length
      simp at length

/-- A single note that is cut at the next start still stands for its chord. -/
theorem trim (traced : TracedAt origin notes first.pitch first.start)
    (before : chord first.pitch first.start notes = [first])
    (ahead : nextStart first.pitch first.start origin = second.start)
    (reaches : second.start < first.finish - Note.tolerance)
    (after : chord first.pitch first.start next = [first.endingAt second.start]) :
    TracedAt origin next first.pitch first.start where
  filled := by
    rw [← traced.filled, before, after]
    simp
  loudness := by
    rw [← traced.loudness, Resolution.loudness, Resolution.loudness, before, after]
    rfl
  ends := by
    rcases traced.ends with whole | ⟨note, latest, alone, _, next, _⟩
    · rw [latestEnd, before] at whole
      refine Or.inr ⟨_, first.finish, after, whole.symm, ?_, ?_⟩
      · rw [ahead, Note.finish_endingAt]
      · rwa [Note.finish_endingAt]
    · -- A note that has been cut does not reach beyond the next start.
      obtain rfl : first = note := by simpa [before] using alone
      have cut : second.start = first.finish := WithTop.coe_injective (ahead.symm.trans next)
      have positive := Note.tolerance_pos
      linarith

end TracedAt

namespace Traced

/-- Two notes of a chord that are summed up leave the other chords as they are. -/
theorem sum (traced : Traced origin notes) (perm : notes.Perm (first :: second :: others))
    (pitch : first.pitch = second.pitch) (starts : first.start = second.start)
    (sorted : next.Pairwise fun first second => inOrder first second = true)
    (made : next.Perm (joint first second :: others)) : Traced origin next where
  sorted := sorted
  lasts := by
    have lasts : ∀ note ∈ first :: second :: others, Note.tolerance < note.duration :=
      fun note member => traced.lasts note (perm.mem_iff.mpr member)
    obtain ⟨one, _, rest⟩ := by simpa only [List.forall_mem_cons] using lasts
    -- The joint note ends no earlier than the first one, where it starts too.
    have later : first.finish ≤ (joint first second).finish := by
      rw [finish_joint]
      exact le_max_left _ _
    have longer : first.duration ≤ (joint first second).duration :=
      le_of_add_le_add_left (a := first.start) later
    have all : ∀ note ∈ joint first second :: others, Note.tolerance < note.duration :=
      List.forall_mem_cons.mpr ⟨one.trans_le longer, rest⟩
    exact fun note member => all note (made.mem_iff.mp member)
  chords := by
    intro place time
    have before : (chord place time notes).Perm _ := chord_perm perm
    have after : (chord place time next).Perm _ := chord_perm made
    by_cases here : first.pitch = place ∧ first.start = time
    · have other : second.pitch = place ∧ second.start = time := ⟨pitch ▸ here.1, starts ▸ here.2⟩
      have still : (joint first second).pitch = place ∧ (joint first second).start = time := here
      rw [chord_cons_here here, chord_cons_here other] at before
      rw [chord_cons_here still] at after
      obtain ⟨rfl, rfl⟩ := here
      exact (traced.chords _ _).sum before after
    · have other : ¬ (second.pitch = place ∧ second.start = time) := fun ⟨one, other⟩ =>
        here ⟨pitch ▸ one, starts ▸ other⟩
      have still : ¬ ((joint first second).pitch = place ∧ (joint first second).start = time) :=
        here
      rw [chord_cons_there here, chord_cons_there other] at before
      rw [chord_cons_there still] at after
      exact (traced.chords place time).of_perm (after.trans before.symm)

/-- A note that is cut at the next start leaves the other chords as they are. -/
theorem trim (traced : Traced origin notes) (perm : notes.Perm (first :: second :: others))
    (alone : chord first.pitch first.start notes = [first])
    (ahead : nextStart first.pitch first.start notes = second.start)
    (far : Note.tolerance < second.start - first.start)
    (reaches : second.start < first.finish - Note.tolerance)
    (sorted : next.Pairwise fun first second => inOrder first second = true)
    (made : next.Perm (first.endingAt second.start :: second :: others)) : Traced origin next where
  sorted := sorted
  lasts := by
    have lasts : ∀ note ∈ first :: second :: others, Note.tolerance < note.duration :=
      fun note member => traced.lasts note (perm.mem_iff.mpr member)
    have all : ∀ note ∈ first.endingAt second.start :: second :: others,
        Note.tolerance < note.duration :=
      List.forall_mem_cons.mpr ⟨far, (List.forall_mem_cons.mp lasts).2⟩
    exact fun note member => all note (made.mem_iff.mp member)
  chords := by
    intro place time
    have before : (chord place time notes).Perm _ := chord_perm perm
    have after : (chord place time next).Perm _ := chord_perm made
    by_cases here : first.pitch = place ∧ first.start = time
    · have still : (first.endingAt second.start).pitch = place ∧
          (first.endingAt second.start).start = time := here
      rw [chord_cons_here here] at before
      rw [chord_cons_here still] at after
      obtain ⟨rfl, rfl⟩ := here
      -- There was no other note in the chord before.
      rw [alone] at before
      have none : chord first.pitch first.start (second :: others) = [] := by
        have length := before.length_eq
        simpa using length.symm
      rw [none] at after
      rw [traced.nextStart_eq] at ahead
      exact (traced.chords _ _).trim alone ahead reaches (List.perm_singleton.mp after)
    · have still : ¬ ((first.endingAt second.start).pitch = place ∧
          (first.endingAt second.start).start = time) := here
      rw [chord_cons_there here] at before
      rw [chord_cons_there still] at after
      exact (traced.chords place time).of_perm (after.trans before.symm)

/-- Each round leaves chords that stand for those of the origin. -/
theorem step (traced : Traced origin notes) (clear : Clear origin)
    (stepped : step? {} notes = some next) : Traced origin next := by
  have sorted : next.Pairwise fun first second => inOrder first second = true := by
    obtain ⟨_, _, rfl⟩ := Option.map_eq_some_iff.mp stepped
    exact sort_sorted _
  -- Whichever way the conflict is resolved, only chords at its two starts change.
  obtain ⟨first, second, others, perm, pitch, summed | cut⟩ := traced.step?_cases clear stepped
  · obtain ⟨starts, made⟩ := summed
    exact traced.sum perm pitch starts sorted made
  · obtain ⟨alone, ahead, far, reaches, made⟩ := cut
    exact traced.trim perm alone ahead far reaches sorted made

/-- What is left of clear notes when their conflicts are settled stands for them. -/
theorem settle (clear : Clear notes) : Traced notes (settle {} notes) :=
  settleWithin_keeps (fun traced stepped => traced.step clear stepped) (ofClear clear)
    (settle_spec {} notes).1

end Traced

/-- No two of the settled notes are in conflict. -/
theorem settle_free (notes : List (Note ℚ)) (one : first ∈ settle {} notes)
    (other : second ∈ settle {} notes) (different : first ≠ second) :
    first.conflictsWith second = false := by
  have free := firstConflict?_eq_none.mp (Option.map_eq_none_iff.mp (settle_spec {} notes).2.1)
  exact free_of_pairwise free one other different

/-- The place of a note in the order of notes. -/
def place (note : Note ℚ) : ℚ ×ₗ Int :=
  toLex (note.start, note.pitch.index)

/-- Settled notes that were clear stand at places one behind the other. -/
theorem settle_places (clear : Clear notes) :
    (settle {} notes).Pairwise fun first second => place first < place second := by
  have traced := Traced.settle clear
  have free := firstConflict?_eq_none.mp (Option.map_eq_none_iff.mp (settle_spec {} notes).2.1)
  refine (traced.sorted.and free).imp_of_mem ?_
  intro first second one other ⟨ordered, apart⟩
  refine lt_of_le_of_ne ((@inOrder_iff_lex ℚ ExactScalar.rational _ _).mp ordered) fun same => ?_
  -- Two notes at one place would be in conflict.
  obtain ⟨starts, index⟩ := Prod.mk.inj (toLex.injective same)
  have hit := traced.conflictsWith one other (congrArg Pitch.mk index) starts
  exact absurd apart (by simp [hit])

/-- In settled notes each chord is a single note. -/
theorem chord_settle (clear : Clear notes) (filled : chord pitch start notes ≠ []) :
    ∃ kept, chord pitch start (settle {} notes) = [kept] := by
  cases left : chord pitch start (settle {} notes) with
  | nil => exact absurd ((Traced.settle clear).chords pitch start |>.filled.mp left) filled
  | cons first later =>
    cases later with
    | nil => exact ⟨first, rfl⟩
    | cons second rest =>
      -- Two notes of the chord would stand at one place.
      have apart : (chord pitch start (settle {} notes)).Pairwise fun first second =>
        place first < place second := (settle_places clear).filter _
      obtain ⟨_, pitch_first, start_first⟩ := mem_chord.mp (left ▸ List.mem_cons_self ..)
      obtain ⟨_, pitch_second, start_second⟩ :=
        mem_chord.mp (left ▸ List.mem_cons_of_mem _ (List.mem_cons_self ..))
      rw [left] at apart
      have before := (List.pairwise_cons.mp apart).1 second (List.mem_cons_self ..)
      rw [place, place, pitch_first, start_first, pitch_second, start_second] at before
      exact absurd before (lt_irrefl _)

/-- The note that a chord leaves has all its velocities, and its latest end or the next start. -/
theorem settle_kept (clear : Clear notes) (filled : chord pitch start notes ≠ []) :
    ∃ (kept : Note ℚ) (latest : ℚ), chord pitch start (settle {} notes) = [kept] ∧
      kept.velocity = loudness pitch start notes ∧ latestEnd pitch start notes = latest ∧
      (nextStart pitch start notes = ⊤ → kept.finish = latest) ∧
      ∀ next : ℚ, nextStart pitch start notes = next →
        kept.finish = if next < latest - Note.tolerance then next else latest := by
  have traced := Traced.settle clear
  have here := traced.chords pitch start
  obtain ⟨kept, alone⟩ := chord_settle clear filled
  have velocity : kept.velocity = loudness pitch start notes := by
    rw [← here.loudness, loudness, alone]
    simp
  rcases here.ends with whole | ⟨note, latest, left, ends, ahead, before⟩
  · -- The note has the latest end of its chord, and no note starts well before that.
    rw [latestEnd, alone] at whole
    refine ⟨kept, kept.finish, alone, velocity, whole.symm, fun _ => rfl, fun next ahead => ?_⟩
    refine (if_neg fun reaches => ?_).symm
    rw [← traced.nextStart_eq] at ahead
    obtain ⟨note, chosen, rfl⟩ := List.mem_map.mp (List.minimum_eq_coe_iff.mp ahead).1
    obtain ⟨other, later⟩ := List.mem_filter.mp chosen
    obtain ⟨same, after⟩ := of_decide_eq_true later
    obtain ⟨one, here, starts⟩ := mem_chord.mp (alone ▸ List.mem_cons_self .. :
      kept ∈ chord pitch start (settle {} notes))
    have before : kept.start < note.start := starts ▸ after
    have hit := traced.conflictsWith_of_reaches other (here.trans same.symm) before.le reaches
    exact absurd (settle_free notes one other fun equal => before.ne (congrArg _ equal))
      (by simp [hit])
  · -- The note has been cut at the next start.
    obtain rfl : kept = note := by simpa [alone] using left
    refine ⟨kept, latest, alone, velocity, ends, fun none => ?_, fun next first => ?_⟩
    · rw [ahead] at none
      exact absurd none (WithTop.coe_ne_top)
    · obtain rfl : kept.finish = next := WithTop.coe_injective (ahead.symm.trans first)
      rw [if_pos before]

/-- The note in the middle between left and right. -/
def centred (note : Note ℚ) : Note ℚ :=
  { note with pan := 0 }

/-- What is left of notes in another order differs in stereo positions at most. -/
theorem centred_settle_subset (clear : Clear notes) (perm : notes.Perm others) :
    (settle {} notes).map centred ⊆ (settle {} others).map centred := by
  intro note member
  obtain ⟨old, present, rfl⟩ := List.mem_map.mp member
  have here : old ∈ chord old.pitch old.start (settle {} notes) := mem_chord.mpr ⟨present, rfl, rfl⟩
  have filled : chord old.pitch old.start notes ≠ [] :=
    mt ((Traced.settle clear).chords _ _).filled.mpr (List.ne_nil_of_mem here)
  have still : chord old.pitch old.start others ≠ [] := fun none =>
    filled (none ▸ chord_perm perm : (chord old.pitch old.start notes).Perm []).eq_nil
  -- Each result has one note for the chord, which is known from the chord alone.
  obtain ⟨kept, latest, alone, loud, ends, whole, cut⟩ := settle_kept clear filled
  obtain ⟨twin, limit, single, louder, limits, entire, trimmed⟩ :=
    settle_kept (clear.perm perm) still
  obtain rfl : old = kept := by simpa [alone] using here
  obtain ⟨found, pitch, starts⟩ := mem_chord.mp (single ▸ List.mem_cons_self .. :
    twin ∈ chord old.pitch old.start (settle {} others))
  have velocity : twin.velocity = old.velocity := by
    rw [loud, louder, loudness_of_perm (chord_perm perm)]
  obtain rfl : latest = limit :=
    WithBot.coe_injective (ends.symm.trans ((latestEnd_of_perm (chord_perm perm)).trans limits))
  have ahead := nextStart_of_perm perm old.pitch old.start
  have finish : twin.finish = old.finish := by
    cases first : nextStart old.pitch old.start notes using WithTop.recTopCoe with
    | top => rw [whole first, entire (ahead.symm.trans first)]
    | coe next => rw [cut next first, trimmed next (ahead.symm.trans first)]
  have duration : twin.duration = old.duration := by
    rw [Note.finish, Note.finish, starts] at finish
    exact add_left_cancel finish
  exact List.mem_map.mpr ⟨twin, found, by simp only [centred, pitch, starts, duration, velocity]⟩

/-- Trimming and summing turn clear notes into one note for each chord, with all the velocities of
the chord and its latest end, or the next start of its pitch where that comes well before this end,
so that the order of the notes only matters to stereo positions. -/
theorem settle_chords (clear : Clear notes) :
    (∀ pitch start, chord pitch start notes = [] → chord pitch start (settle {} notes) = []) ∧
    (∀ pitch start, chord pitch start notes ≠ [] → ∃ (kept : Note ℚ) (latest : ℚ),
      chord pitch start (settle {} notes) = [kept] ∧
      kept.velocity = ((chord pitch start notes).map Note.velocity).sum ∧
      ((chord pitch start notes).map Note.finish).maximum = latest ∧
      (nextStart pitch start notes = ⊤ → kept.finish = latest) ∧
      ∀ next : ℚ, nextStart pitch start notes = next →
        kept.finish = if next < latest - Note.tolerance then next else latest) ∧
    ∀ others, notes.Perm others →
      (settle {} others).map centred = (settle {} notes).map centred := by
  refine ⟨fun pitch start none => ?_, fun pitch start filled => ?_, fun others perm => ?_⟩
  · exact ((Traced.settle clear).chords pitch start).filled.mpr none
  · exact settle_kept clear filled
  · have ordered : ∀ {notes}, Clear notes → ((settle {} notes).map centred).Pairwise
        fun first second => place first < place second :=
      fun clear => List.pairwise_map.mpr (settle_places clear)
    -- Both results are strictly ordered by place, so that they are equal when each contains the
    -- other.
    have strict : Std.Irrefl fun first second : Note ℚ => place first < place second :=
      ⟨fun _ => lt_irrefl _⟩
    have apart : Std.Antisymm fun first second : Note ℚ => place first < place second :=
      ⟨fun _ _ one other => absurd one other.not_gt⟩
    exact List.Subset.antisymm_of_pairwise (ordered (clear.perm perm)) (ordered clear)
      (centred_settle_subset (clear.perm perm) perm.symm) (centred_settle_subset clear perm)

/-- A chord of two notes, the longer of which reaches beyond the next start of their pitch. -/
def struck : List (Note ℚ) :=
  [⟨⟨60⟩, 1, 1, 1 / 2, 0⟩, ⟨⟨60⟩, 0, 3 / 4, 1 / 4, 1⟩, ⟨⟨60⟩, 0, 2, 1 / 8, -1⟩]

/-- The chord has become one note that ends at the next start. -/
theorem settle_chords_struck : Clear struck ∧
    (∃ kept, chord ⟨60⟩ 0 (settle {} struck) = [kept] ∧ kept.velocity = 3 / 8 ∧ kept.finish = 1) ∧
      chord ⟨60⟩ (1 / 2) (settle {} struck) = [] ∧
      (settle {} struck.reverse).map centred = (settle {} struck).map centred := by
  have clear : Clear struck := by
    constructor
    · norm_num [struck, Note.tolerance]
    · norm_num [struck, Note.tolerance]
  obtain ⟨none, kept, same⟩ := settle_chords clear
  -- The lower pitch has two notes at the start, and the next one cuts them.
  have two : chord ⟨60⟩ 0 struck = [⟨⟨60⟩, 0, 3 / 4, 1 / 4, 1⟩, ⟨⟨60⟩, 0, 2, 1 / 8, -1⟩] := by
    simp [chord, struck]
  have ahead : nextStart ⟨60⟩ 0 struck = (1 : ℚ) := by
    simp [nextStart, struck]
  obtain ⟨note, latest, alone, velocity, ends, _, cut⟩ := kept ⟨60⟩ 0 (by simp [two])
  rw [two] at velocity ends
  obtain rfl : 2 = latest := by
    refine WithBot.coe_injective (Eq.trans (Eq.symm ?_) ends)
    exact List.maximum_eq_coe_iff.mpr ⟨by norm_num [Note.finish], by norm_num [Note.finish]⟩
  refine ⟨clear, ⟨note, alone, ?_, ?_⟩, none _ _ (by simp [chord, struck]),
    same _ struck.reverse_perm.symm⟩
  · rw [velocity]
    norm_num
  · rw [cut 1 ahead]
    norm_num [Note.tolerance]

end Resolution

end Melody
