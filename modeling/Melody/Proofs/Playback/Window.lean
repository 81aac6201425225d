import Mathlib.Data.List.Perm.Basic
import Melody.Proofs.Tempo
import Melody.Scheduler.Window

/-! Windows in beats and in seconds hold the same notes, and may be cut without loss. -/

namespace Melody

namespace Window

/-- A place lies in a window from its lower bound on and below its upper one. -/
theorem contains_iff {α : Type} [Scalar α] {window : Window α} {place : α} :
    window.contains place = true ↔
      (∀ low ∈ window.low, low ≤ place) ∧ ∀ high ∈ window.high, place < high := by
  obtain ⟨low, high⟩ := window
  cases low <;> cases high <;> simp [contains]

variable {α : Type} [ExactScalar α]

/-- A window in beats has the beats that fall within it in seconds. -/
theorem contains_toBeats {tempo : Tempo α} (positive : tempo.Positive) (window : Window α)
    (beat : α) :
    (window.toBeats tempo).contains beat = window.contains (tempo.toAbsolute beat) := by
  have lower : ∀ time, tempo.toBeat time ≤ beat ↔ time ≤ tempo.toAbsolute beat := fun time => by
    rw [← not_lt, ← not_lt, positive.lt_toBeat_iff]
  rw [Bool.eq_iff_iff, contains_iff, contains_iff]
  simp [toBeats, lower, positive.lt_toBeat_iff]

/-- What falls within a window falls within one of the two windows that it is cut into. -/
theorem filter_append_perm {β : Type} (place : β → α) {low : Option α} {middle high : α}
    (lower : ∀ time ∈ low, time ≤ middle) (upper : middle ≤ high) (found : List β) :
    (found.filter (fun x => (⟨low, some middle⟩ : Window α).contains (place x)) ++
      found.filter (fun x => (⟨some middle, some high⟩ : Window α).contains (place x))).Perm
      (found.filter fun x => (⟨low, some high⟩ : Window α).contains (place x)) := by
  have parts := List.filter_append_perm (fun x => decide (place x < middle))
    (found.filter fun x => (⟨low, some high⟩ : Window α).contains (place x))
  rw [List.filter_filter, List.filter_filter] at parts
  -- The bounds of the smaller windows imply those of the whole.
  have first : ∀ x, (decide (place x < middle) &&
      (⟨low, some high⟩ : Window α).contains (place x)) =
        (⟨low, some middle⟩ : Window α).contains (place x) := by
    intro x
    rw [Bool.eq_iff_iff, Bool.and_eq_true, contains_iff, contains_iff, decide_eq_true_iff]
    constructor
    · rintro ⟨below, above, _⟩
      exact ⟨above, by simpa using below⟩
    · rintro ⟨above, below⟩
      have below : place x < middle := by simpa using below
      exact ⟨below, above, by simpa using below.trans_le upper⟩
  have second : ∀ x, (!decide (place x < middle) &&
      (⟨low, some high⟩ : Window α).contains (place x)) =
        (⟨some middle, some high⟩ : Window α).contains (place x) := by
    intro x
    rw [Bool.eq_iff_iff, Bool.and_eq_true, contains_iff, contains_iff, Bool.not_eq_true',
      decide_eq_false_iff_not, not_lt]
    constructor
    · rintro ⟨above, _, below⟩
      exact ⟨by simpa using above, below⟩
    · rintro ⟨above, below⟩
      have above : middle ≤ place x := by simpa using above
      exact ⟨above, fun time member => (lower time member).trans above, below⟩
  simpa only [first, second] using parts

end Window

namespace Group

variable {α : Type} [ExactScalar α]

/-- Only a group without notes has no end. -/
theorem finish?_eq_none {group : Group α} : group.finish? = none ↔ group.notes = [] := by
  unfold finish?
  cases group.notes with
  | nil => simp
  | cons note later => simp

/-- No note of a group ends after the group does. -/
theorem finish_le {group : Group α} {finish : α} (ends : group.finish? = some finish) :
    ∀ note ∈ group.notes, note.finish ≤ finish := by
  -- The latest end so far is among those that are still to be compared.
  suffices general : ∀ (later : List (Note α)) (latest : α),
      latest ≤ later.foldl (fun latest next => Scalar.larger latest next.finish) latest ∧
      ∀ note ∈ later, note.finish ≤
        later.foldl (fun latest next => Scalar.larger latest next.finish) latest by
    unfold finish? at ends
    cases notes : group.notes with
    | nil => simp
    | cons note later =>
      rw [notes] at ends
      obtain rfl := Option.some.inj ends
      obtain ⟨first, others⟩ := general later note.finish
      intro other member
      rcases List.mem_cons.mp member with rfl | inside
      · exact first
      · exact others other inside
  intro later
  induction later with
  | nil => exact fun latest => ⟨le_refl _, by simp⟩
  | cons note later ih =>
    intro latest
    obtain ⟨first, others⟩ := ih (Scalar.larger latest note.finish)
    rw [Scalar.larger_eq_max, max_le_iff, ← Scalar.larger_eq_max] at first
    refine ⟨first.1, fun other member => ?_⟩
    rcases List.mem_cons.mp member with rfl | inside
    · exact first.2
    · exact others other inside

end Group

end Melody
