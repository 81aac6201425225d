import Melody.Proofs.Playback.Trace
import Melody.Proofs.Playback.Window
import Melody.Proofs.Scalar.Overflow
import Melody.Voice.Recorder

/-! A note is handed over each time that the limits of a playback pass its start. -/

namespace Melody.Playback

section Limits

variable {α : Type} [Scalar α] {place limit : α} {low : Option α} {limits : List α}

/-- How often limits in their order pass a place, the first of them coming from a cursor. -/
def passes (place : α) : Option α → List α → Nat
  | _, [] => 0
  | low, limit :: later =>
    (if (⟨low, some limit⟩ : Window α).contains place then 1 else 0) +
      passes place (some limit) later

/-- A limit and a place can be compared: the limit is at or below the place, or beyond it. -/
def Comparable (place limit : α) : Prop :=
  limit ≤ place ↔ ¬ place < limit

/-- A limit passes a place that lies between the cursor and itself. -/
theorem passes_cons_of_lt (below : ∀ time ∈ low, time ≤ place) (beyond : place < limit) :
    passes place low (limit :: limits) = passes place (some limit) limits + 1 := by
  have inside : (⟨low, some limit⟩ : Window α).contains place = true :=
    Window.contains_iff.mpr ⟨below, by simpa using beyond⟩
  rw [passes, if_pos inside, Nat.add_comm]

/-- A limit that does not come beyond a place does not pass it. -/
theorem passes_cons_of_not_lt (behind : ¬ place < limit) :
    passes place low (limit :: limits) = passes place (some limit) limits := by
  have outside : ¬ (⟨low, some limit⟩ : Window α).contains place = true := by
    intro inside
    exact behind ((Window.contains_iff.mp inside).2 limit rfl)
  rw [passes, if_neg outside, Nat.zero_add]

/-- A place that the cursor has passed is not passed again by the next limit. -/
theorem passes_cons_of_passed {time : α} (passed : ¬ time ≤ place) :
    passes place (some time) (limit :: limits) = passes place (some limit) limits := by
  have outside : ¬ (⟨some time, some limit⟩ : Window α).contains place = true := by
    intro inside
    exact passed ((Window.contains_iff.mp inside).1 time rfl)
  rw [passes, if_neg outside, Nat.zero_add]

/-- A place that no limit comes beyond is never passed. -/
theorem passes_eq_zero (behind : ∀ high ∈ limits, ¬ place < high) :
    passes place low limits = 0 := by
  induction limits generalizing low with
  | nil => rfl
  | cons limit later ih =>
    obtain ⟨first, rest⟩ := List.forall_mem_cons.mp behind
    rw [passes_cons_of_not_lt first, ih rest]

/-- A place that lies ahead is never passed when no limit comes beyond it. -/
theorem passes_eq_zero_iff (below : ∀ time ∈ low, time ≤ place)
    (comparable : ∀ high ∈ limits, Comparable place high) :
    passes place low limits = 0 ↔ ∀ high ∈ limits, high ≤ place := by
  -- A limit beyond the place passes it, whatever comes after.
  induction limits generalizing low with
  | nil => simp [passes]
  | cons limit later ih =>
    obtain ⟨first, rest⟩ := List.forall_mem_cons.mp comparable
    rw [List.forall_mem_cons]
    by_cases beyond : place < limit
    · rw [passes_cons_of_lt below beyond]
      have apart : ¬ limit ≤ place := fun behind => first.mp behind beyond
      simp [apart]
    · have behind := first.mpr beyond
      have next : ∀ time ∈ some limit, time ≤ place := by simpa using behind
      rw [passes_cons_of_not_lt beyond, ih next rest]
      simp [behind]

/-- A place that lies behind is never passed again when no limit comes beyond it after one that
falls back to it. -/
theorem passes_eq_zero_iff_of_passed {time : α} (passed : ¬ time ≤ place)
    (comparable : ∀ high ∈ limits, Comparable place high) :
    passes place (some time) limits = 0 ↔
      ∀ back high, [back, high].Sublist limits → back ≤ place → high ≤ place := by
  induction limits generalizing time with
  | nil => simp [passes]
  | cons limit later ih =>
    obtain ⟨first, rest⟩ := List.forall_mem_cons.mp comparable
    rw [passes_cons_of_passed passed]
    by_cases behind : limit ≤ place
    · have next : ∀ time ∈ some limit, time ≤ place := by simpa using behind
      rw [passes_eq_zero_iff next rest]
      constructor
      · intro still back high within _
        rcases List.cons_sublist_cons'.mp within with inside | ⟨_, inside⟩
        · exact still high (inside.subset (by simp))
        · exact still high (inside.subset (by simp))
      · intro still high member
        exact still limit high ((List.singleton_sublist.mpr member).cons_cons limit) behind
    · -- The limit stays beyond the place, and so does not fall back itself.
      rw [ih behind rest]
      constructor
      · intro still back high within fallen
        rcases List.cons_sublist_cons'.mp within with later | ⟨rfl, _⟩
        · exact still back high later fallen
        · exact absurd fallen behind
      · intro still back high within
        exact still back high (within.cons limit)

/-- A place that lies ahead is passed once at most when no limit comes beyond it after one that
falls back behind one beyond it. -/
theorem passes_le_one_iff (below : ∀ time ∈ low, time ≤ place)
    (comparable : ∀ high ∈ limits, Comparable place high) :
    passes place low limits ≤ 1 ↔ ∀ first back high, [first, back, high].Sublist limits →
      place < first → back ≤ place → high ≤ place := by
  induction limits generalizing low with
  | nil => simp [passes]
  | cons limit later ih =>
    obtain ⟨here, rest⟩ := List.forall_mem_cons.mp comparable
    by_cases beyond : place < limit
    · -- This is the one time, after which it is not to be passed again.
      have once : ∀ count : Nat, count + 1 ≤ 1 ↔ count = 0 := by omega
      have passed : ¬ limit ≤ place := fun behind => here.mp behind beyond
      rw [passes_cons_of_lt below beyond, once, passes_eq_zero_iff_of_passed passed rest]
      constructor
      · intro still first back high within _
        rcases List.cons_sublist_cons'.mp within with inside | ⟨_, inside⟩
        · exact still back high ((List.sublist_cons_self ..).trans inside)
        · exact still back high inside
      · intro still back high within
        exact still limit back high (within.cons_cons limit) beyond
    · have next : ∀ time ∈ some limit, time ≤ place := by simpa using here.mpr beyond
      rw [passes_cons_of_not_lt beyond, ih next rest]
      constructor
      · intro still first back high within ahead
        rcases List.cons_sublist_cons'.mp within with inside | ⟨rfl, _⟩
        · exact still first back high inside ahead
        · exact absurd ahead beyond
      · intro still first back high within
        exact still first back high (within.cons limit)

end Limits

section Repeating

variable {β : Type} {often : β → Nat}

/-- Values that are repeated occur as often as they are repeated, each time they are there. -/
theorem count_flatMap_replicate [DecidableEq β] (often : β → Nat) (value : β) (values : List β) :
    (values.flatMap fun x => List.replicate (often x) x).count value =
      often value * values.count value := by
  induction values with
  | nil => simp
  | cons x later ih =>
    rw [List.flatMap_cons, List.count_append, ih, List.count_replicate, List.count_cons]
    -- Only the repeats of the value itself are counted.
    by_cases same : x = value
    · subst same
      simp [Nat.mul_add, Nat.add_comm]
    · simp [same]

/-- Repeated values are among those that were there when each is repeated once at most. -/
theorem subperm_flatMap_replicate {values : List β} :
    (values.flatMap fun x => List.replicate (often x) x).Subperm values ↔
      ∀ x ∈ values, often x ≤ 1 := by
  -- A value that is repeated twice is counted twice as often as it was there.
  classical
  simp only [List.subperm_ext_iff, count_flatMap_replicate]
  constructor
  · intro covered x member
    by_contra many
    have there := List.count_pos_iff.mpr member
    have again : x ∈ values.flatMap fun x => List.replicate (often x) x := by
      refine List.mem_flatMap.mpr ⟨x, member, List.mem_replicate.mpr ⟨by omega, rfl⟩⟩
    have bound := covered x again
    have more : 2 * values.count x ≤ often x * values.count x := Nat.mul_le_mul_right _ (by omega)
    omega
  · intro few x repeated
    obtain ⟨source, member, within⟩ := List.mem_flatMap.mp repeated
    obtain ⟨_, rfl⟩ := List.mem_replicate.mp within
    have bound := Nat.mul_le_mul_right (values.count x) (few x member)
    omega

/-- What is kept of some values is each of them once or not at all. -/
theorem filter_eq_flatMap_replicate (keep : β → Bool) (values : List β) :
    values.filter keep =
      values.flatMap fun x => List.replicate (if keep x then 1 else 0) x := by
  induction values with
  | nil => rfl
  | cons x later ih =>
    rw [List.filter_cons, List.flatMap_cons, ih]
    cases keep x <;> rfl

end Repeating

section Handing

variable {γ α : Type} [Analytic α] {playback : Playback γ α} {tick : Tick α}

/-- The notes of the group, in beats, that start between the cursor and a time. -/
def covered (playback : Playback γ α) (limit : α) : List (Note α) :=
  let window : Window α := ⟨playback.cursor, some limit⟩
  playback.group.notes.filter fun note => (window.toBeats playback.tempo).contains note.start

/-- The notes that are covered are handed over in seconds. -/
theorem chosen_eq_map (playback : Playback γ α) (limit : α) :
    playback.chosen limit = (playback.covered limit).map playback.tempo.noteToAbsolute :=
  rfl

/-- The limits of steps in the beats of a tempo. -/
def beats (tempo : Tempo α) (ticks : List (Tick α)) : List α :=
  ticks.map fun tick => tempo.toBeat tick.limit

variable [ToneGenerator γ α]

/-- None of the steps in their order fails. -/
def Succeeds (playback : Playback γ α) : List (Tick α) → Prop
  | [] => True
  | tick :: later => (playback.step tick).2 = .ok () ∧ (playback.step tick).1.Succeeds later

/-- The notes that the scheduler is asked for by steps in their order, in seconds. -/
def asked (playback : Playback γ α) : List (Tick α) → List (Note α)
  | [] => []
  | tick :: later => playback.chosen tick.limit ++ (playback.step tick).1.asked later

/-- The notes of the group that steps in their order hand over. -/
def handed (playback : Playback γ α) : List (Tick α) → List (Note α)
  | [] => []
  | tick :: later => playback.covered tick.limit ++ (playback.step tick).1.handed later

/-- A step that succeeds moves the cursor to its limit, whatever becomes of the scheduler. -/
theorem exists_of_step_ok (ok : (playback.step tick).2 = .ok ()) : ∃ next,
    (playback.step tick).1 = { playback with scheduler := next, cursor := some tick.limit } := by
  -- The cursor is set without a look at where it was.
  unfold step scheduleUntil at ok ⊢
  cases handed : (playback.setClock tick.now).handOver tick.limit with
  | mk next outcome =>
    rw [handed] at ok
    cases outcome with
    | error cause => contradiction
    | ok _ => exact ⟨next, rfl⟩

/-- The scheduler is asked for the notes that are handed over, in seconds. -/
theorem asked_eq_map {ticks : List (Tick α)} (ok : playback.Succeeds ticks) :
    playback.asked ticks = (playback.handed ticks).map playback.tempo.noteToAbsolute := by
  -- Each step asks for what it chooses, and the later ones go on from where it ends.
  induction ticks generalizing playback with
  | nil => rfl
  | cons tick later ih =>
    obtain ⟨succeeded, rest⟩ := ok
    obtain ⟨next, stepped⟩ := exists_of_step_ok succeeded
    rw [asked, handed, List.map_append, ih rest, chosen_eq_map, stepped]

/-- Each note is handed over as often as the limits pass its start. -/
theorem handed_perm {ticks : List (Tick α)} (ok : playback.Succeeds ticks) :
    (playback.handed ticks).Perm (playback.group.notes.flatMap fun note => List.replicate
      (passes note.start (playback.cursor.map playback.tempo.toBeat) (beats playback.tempo ticks))
      note) := by
  -- A step hands over what its limit passes, and the steps behind it start from there.
  induction ticks generalizing playback with
  | nil => simp [handed, passes, beats]
  | cons tick later ih =>
    obtain ⟨succeeded, rest⟩ := ok
    obtain ⟨next, stepped⟩ := exists_of_step_ok succeeded
    have behind := ih rest
    rw [stepped] at behind
    rw [handed, stepped, covered, filter_eq_flatMap_replicate]
    refine (behind.append_left _).trans ?_
    refine (List.flatMap_append_perm _ _ _).trans ?_
    simp only [List.replicate_append_replicate]
    exact List.Perm.refl _

end Handing

section Doubles

open Binary64

/-- Two doubles can be compared if both are numbers. -/
theorem comparable_of_numbers {place limit : Float} (here : place ≤ place)
    (there : limit ≤ limit) : Comparable place limit := by
  obtain ⟨p, _, first, _⟩ := le_iff_levelOf.mp here
  obtain ⟨q, _, second, _⟩ := le_iff_levelOf.mp there
  simp [Comparable, le_iff_levelOf, lt_iff_levelOf, first, second]

variable {γ : Type} [ToneGenerator γ Float] {playback : Playback γ Float}

/-- Unless a limit in beats is no number, notes are handed over once at most exactly when no limit
comes beyond the start of a note after one that falls back behind one beyond it. -/
theorem subperm_handed_iff (fresh : playback.cursor = none) {ticks : List (Tick Float)}
    (ok : playback.Succeeds ticks) (numbers : ∀ limit ∈ beats playback.tempo ticks, limit ≤ limit) :
    (playback.handed ticks).Subperm playback.group.notes ↔
      ∀ note ∈ playback.group.notes, ∀ first back high,
        [first, back, high].Sublist (beats playback.tempo ticks) →
          note.start < first → back ≤ note.start → high ≤ note.start := by
  have often := handed_perm ok
  rw [fresh, Option.map_none] at often
  -- How often a note is handed over is how often its start is passed.
  rw [often.subperm_right, subperm_flatMap_replicate]
  refine forall_congr' fun note => forall_congr' fun _ => ?_
  by_cases number : note.start ≤ note.start
  · exact passes_le_one_iff nofun fun limit member =>
      comparable_of_numbers number (numbers limit member)
  · -- No limit comes beyond a start that is no number.
    have never : ∀ limit, ¬ note.start < limit := fun limit less => number (numbers_of_lt less).1
    rw [passes_eq_zero fun limit _ => never limit]
    exact iff_of_true (Nat.zero_le 1) fun first _ _ _ beyond => absurd beyond (never first)

/-- Limits that never fall back in beats hand each note of a group over once at most. -/
theorem handed_once_of_onward (fresh : playback.cursor = none) {ticks : List (Tick Float)}
    (ok : playback.Succeeds ticks)
    (numbers : ∀ limit ∈ beats playback.tempo ticks, limit ≤ limit)
    (onward : (beats playback.tempo ticks).Pairwise (· ≤ ·)) :
    (playback.handed ticks).Subperm playback.group.notes := by
  refine (subperm_handed_iff fresh ok numbers).mpr fun note _ first back high within beyond
    fallen => ?_
  -- A later limit that is not beyond the start would have fallen back.
  have ordered : first ≤ back := by
    have three := onward.sublist within
    simp only [List.pairwise_cons, List.mem_cons] at three
    exact three.1 back (.inl rfl)
  have number := numbers first (within.subset (by simp))
  have reached : first ≤ note.start := OrderedScalar.le_trans ordered fallen
  exact absurd beyond ((comparable_of_numbers (numbers_of_lt beyond).1 number).mp reached)

/-- Steps ask the scheduler for each note of a group as often as their limits in beats pass its
start. If these limits are numbers, that is once at most exactly when no limit comes beyond the
start of a note after one that falls back behind one beyond it. -/
theorem handed_once_iff (fresh : playback.cursor = none) {ticks : List (Tick Float)}
    (ok : playback.Succeeds ticks) :
    playback.asked ticks = (playback.handed ticks).map playback.tempo.noteToAbsolute ∧
    (playback.handed ticks).Perm (playback.group.notes.flatMap fun note =>
      List.replicate (passes note.start none (beats playback.tempo ticks)) note) ∧
    ((∀ limit ∈ beats playback.tempo ticks, limit ≤ limit) →
      ((playback.handed ticks).Subperm playback.group.notes ↔
        ∀ note ∈ playback.group.notes, ∀ first back high,
          [first, back, high].Sublist (beats playback.tempo ticks) →
            note.start < first → back ≤ note.start → high ≤ note.start)) := by
  have often := handed_perm ok
  rw [fresh, Option.map_none] at often
  exact ⟨asked_eq_map ok, often, subperm_handed_iff fresh ok⟩

/-- A playback of one note at zero. -/
def single : Playback (Recorder Float) Float :=
  ⟨.new {} 0.0 .standard, ⟨[⟨⟨60⟩, 0.0, 0.25, 1.0, 0.0⟩], {}⟩, .standard, none⟩

/-- Steps of which the second falls back to the start of the note, and the third passes it again. -/
def fallback : List (Tick Float) :=
  [⟨0.0, 0.05⟩, ⟨0.0, 0.0⟩, ⟨0.0, 0.05⟩]

/-- None of the steps fails, and still the note is handed over more than once. -/
theorem handed_once_iff_fallback :
    single.cursor = none ∧ single.Succeeds fallback ∧
      (∀ limit ∈ beats single.tempo fallback, limit ≤ limit) ∧
      ¬ (single.handed fallback).Subperm single.group.notes := by
  have ok : single.Succeeds fallback :=
    ⟨by decide +kernel, by decide +kernel, by decide +kernel, trivial⟩
  have numbers : ∀ limit ∈ beats single.tempo fallback, limit ≤ limit := by decide +kernel
  obtain ⟨_, _, once⟩ := handed_once_iff rfl ok
  refine ⟨rfl, ok, numbers, fun within => ?_⟩
  -- The first limit and the last lie beyond the start of the note, the one between them does not.
  have bound := (once numbers).mp within ⟨⟨60⟩, 0.0, 0.25, 1.0, 0.0⟩ (List.mem_singleton_self _)
    _ _ _ (List.Sublist.refl _) (by decide +kernel) (by decide +kernel)
  exact absurd bound (by decide +kernel)

end Doubles

end Melody.Playback
