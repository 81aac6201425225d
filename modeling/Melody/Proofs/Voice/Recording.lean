import Melody.Voice.Recorder

/-! What the entries of a record say of each voice. -/

namespace Melody

namespace Record

variable {α : Type}

/-- The voice that an entry is about. -/
def voice : Record α → Nat
  | created voice _ | commanded voice _ => voice

/-- An entry destroys a voice. -/
def destroys (voice : Nat) : Record α → Bool
  | commanded other .destroy => other == voice
  | _ => false

/-- The time from which an entry releases a voice. -/
def release? (voice : Nat) : Record α → Option α
  | commanded other (.release time _) => if other = voice then some time else none
  | _ => none

/-- A record about another voice does not destroy a voice. -/
theorem destroys_eq_false {record : Record α} {voice : Nat} (other : record.voice ≠ voice) :
    record.destroys voice = false := by
  cases record with
  | created _ _ => rfl
  | commanded _ command => cases command <;> simp_all [destroys, Record.voice]

/-- A record about another voice does not release a voice. -/
theorem release?_eq_none {record : Record α} {voice : Nat} (other : record.voice ≠ voice) :
    record.release? voice = none := by
  cases record with
  | created _ _ => rfl
  | commanded _ command => cases command <;> simp_all [release?, Record.voice]

/-- Entries about other voices destroy none of this one. -/
theorem countP_destroys {records : List (Record α)} {voice : Nat}
    (others : ∀ record ∈ records, record.voice ≠ voice) :
    records.countP (·.destroys voice) = 0 :=
  List.countP_eq_zero.mpr fun record member => by
    simp [destroys_eq_false (others record member)]

end Record

namespace Recorder

variable {α : Type}

/-- How often a voice has been destroyed. -/
def destroyCount (recorder : Recorder α) (voice : Nat) : Nat :=
  recorder.records.countP (·.destroys voice)

/-- The time of the last release of a voice. -/
def lastRelease? (recorder : Recorder α) (voice : Nat) : Option α :=
  (recorder.records.filterMap (·.release? voice)).getLast?

/-- The recorder with more entries in its record. -/
def add (recorder : Recorder α) (records : List (Record α)) : Recorder α :=
  { recorder with records := recorder.records ++ records }

/-- Further records add to how often a voice was destroyed. -/
theorem destroyCount_add (recorder : Recorder α) (records : List (Record α)) (voice : Nat) :
    (recorder.add records).destroyCount voice =
      recorder.destroyCount voice + records.countP (·.destroys voice) :=
  List.countP_append

/-- The last release is among the further records, or else the one before. -/
theorem lastRelease?_add (recorder : Recorder α) (records : List (Record α)) (voice : Nat) :
    (recorder.add records).lastRelease? voice =
      (records.filterMap (·.release? voice)).getLast?.or (recorder.lastRelease? voice) := by
  -- The entries that were added come last, so the old ones count only if they release nothing.
  rw [lastRelease?, add, List.filterMap_append, List.getLast?_append]
  rfl

/-- Entries about other voices do not destroy a voice. -/
theorem destroyCount_add_other (recorder : Recorder α) {records : List (Record α)} {voice : Nat}
    (others : ∀ record ∈ records, record.voice ≠ voice) :
    (recorder.add records).destroyCount voice = recorder.destroyCount voice := by
  rw [destroyCount_add, Record.countP_destroys others, Nat.add_zero]

/-- Entries about other voices do not release a voice. -/
theorem lastRelease?_add_other (recorder : Recorder α) {records : List (Record α)} {voice : Nat}
    (others : ∀ record ∈ records, record.voice ≠ voice) :
    (recorder.add records).lastRelease? voice = recorder.lastRelease? voice := by
  have none : records.filterMap (·.release? voice) = [] :=
    List.filterMap_eq_nil_iff.mpr fun record member =>
      Record.release?_eq_none (others record member)
  rw [lastRelease?_add, none]
  rfl

/-- A voice that is created gets the next number, and the record an entry about it. -/
theorem create_ok {recorder : Recorder α} {tone : Tone α} {voice : Nat}
    (created : (recorder.create tone).2 = .ok voice) :
    voice = recorder.created ∧ (recorder.create tone).1 =
      { recorder.add [.created voice tone] with
        attempts := recorder.attempts + 1, created := recorder.created + 1 } := by
  unfold create at created ⊢
  -- The recorder admits the attempt, for otherwise there would be no voice.
  by_cases admitted : recorder.admits recorder.attempts = true
  · simp only [if_pos admitted, Except.ok.injEq] at created ⊢
    exact ⟨created.symm, created ▸ rfl⟩
  · simp [if_neg admitted] at created

/-- A voice that is refused leaves the record as it was. -/
theorem create_error {recorder : Recorder α} {tone : Tone α} {cause : CreationFault}
    (refused : (recorder.create tone).2 = .error cause) :
    (recorder.create tone).1 = { recorder with attempts := recorder.attempts + 1 } := by
  unfold create at refused ⊢
  by_cases admitted : recorder.admits recorder.attempts = true
  · simp [if_pos admitted] at refused
  · simp only [if_neg admitted]

end Recorder

end Melody
