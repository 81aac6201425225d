import Melody.Proofs.Scheduler.Voices

/-! The voices of entries are their own, and are not destroyed as long as they are held. -/

namespace Melody

namespace Scheduler

variable {α : Type} {recorder : Recorder α} {entries : List (Entry α)}

/-- Entries have voices of their own, which were created, not destroyed and no others recorded. -/
structure Owned (recorder : Recorder α) (entries : List (Entry α)) : Prop where
  single : (entries.map Entry.voice).Nodup
  known : ∀ entry ∈ entries, entry.voice < recorder.created
  alive : ∀ entry ∈ entries, recorder.destroyCount entry.voice = 0
  recorded : ∀ record ∈ recorder.records, record.voice < recorder.created

namespace Owned

/-- The voice of an entry is not that of another one. -/
theorem voice_ne {entry : Entry α} (owned : Owned recorder (entry :: entries)) {other : Entry α}
    (member : other ∈ entries) : entry.voice ≠ other.voice := by
  have apart := (List.nodup_cons.mp owned.single).1
  exact fun same => apart (same ▸ List.mem_map_of_mem member)

/-- The others keep their voices when an entry leaves, whatever its own voice is told. -/
theorem leave {entry : Entry α} (owned : Owned recorder (entry :: entries))
    {records : List (Record α)} (about : ∀ record ∈ records, record.voice = entry.voice) :
    Owned (recorder.add records) entries where
  single := (List.nodup_cons.mp owned.single).2
  known other member := owned.known other (List.mem_cons_of_mem _ member)
  alive other member := by
    -- What is added is about the voice of the entry, which none of the others has.
    rw [Recorder.destroyCount_add_other _ fun record inside => ?_]
    · exact owned.alive other (List.mem_cons_of_mem _ member)
    · exact about record inside ▸ owned.voice_ne member
  recorded record member := by
    rcases List.mem_append.mp member with old | new
    · exact owned.recorded record old
    · exact about record new ▸ owned.known entry (List.mem_cons_self ..)

/-- An entry joins others with its own voice, if that is not destroyed. -/
theorem join {entry : Entry α} (owned : Owned recorder entries)
    (known : entry.voice < recorder.created) (alive : recorder.destroyCount entry.voice = 0)
    (apart : ∀ other ∈ entries, entry.voice ≠ other.voice) :
    Owned recorder (entry :: entries) where
  single := by
    -- The new voice is known, alive and not owned by any other entry.
    rw [List.map_cons, List.nodup_cons]
    refine ⟨fun member => ?_, owned.single⟩
    obtain ⟨other, inside, same⟩ := List.mem_map.mp member
    exact apart other inside same.symm
  known other member := by
    rcases List.mem_cons.mp member with rfl | inside
    · exact known
    · exact owned.known other inside
  alive other member := by
    rcases List.mem_cons.mp member with rfl | inside
    · exact alive
    · exact owned.alive other inside
  recorded := owned.recorded

/-- Nothing has been written down of a voice that has not been created. -/
theorem voice_ne_created (owned : Owned recorder entries) {record : Record α}
    (member : record ∈ recorder.records) : record.voice ≠ recorder.created :=
  Nat.ne_of_lt (owned.recorded record member)

/-- A voice that has just been created is the entry's own. -/
theorem enter {entry : Entry α} (owned : Owned recorder entries)
    (numbered : entry.voice = recorder.created) {records : List (Record α)}
    (about : ∀ record ∈ records, record.voice = entry.voice)
    (alive : ∀ record ∈ records, record.destroys entry.voice = false) :
    Owned { recorder.add records with
      attempts := recorder.attempts + 1, created := recorder.created + 1 } (entry :: entries) := by
  -- The number is the next one, and all voices that are held lie below it.
  have apart : ∀ other ∈ entries, entry.voice ≠ other.voice := fun other member =>
    numbered ▸ Nat.ne_of_gt (owned.known other member)
  have others : Owned { recorder.add records with
      attempts := recorder.attempts + 1, created := recorder.created + 1 } entries :=
    { single := owned.single
      known := fun other member => Nat.lt_succ_of_lt (owned.known other member)
      alive := by
        intro other member
        refine (Recorder.destroyCount_add_other _ fun record inside => ?_).trans
          (owned.alive other member)
        exact about record inside ▸ apart other member
      recorded := by
        intro record member
        show record.voice < recorder.created + 1
        rcases List.mem_append.mp member with old | new
        · exact Nat.lt_succ_of_lt (owned.recorded record old)
        · rw [about record new, numbered]
          exact Nat.lt_succ_self _ }
  refine others.join (numbered ▸ Nat.lt_succ_self _) ?_ apart
  -- The old lines do not know the voice, and the new ones do not destroy it.
  refine (Recorder.destroyCount_add ..).trans ?_
  have unknown : ∀ record ∈ recorder.records, record.voice ≠ entry.voice :=
    fun record inside => numbered ▸ owned.voice_ne_created inside
  have spared : records.countP (·.destroys entry.voice) = 0 :=
    List.countP_eq_zero.mpr fun record inside => by simp [alive record inside]
  rw [Recorder.destroyCount, Record.countP_destroys unknown, spared]

/-- A recorder that has not been asked for anything has no voices to mind. -/
theorem initial (admits : Nat → Bool) (now : α) (settings : Settings α) :
    Owned (new ({ admits } : Recorder α) now settings).generator
      (new ({ admits } : Recorder α) now settings).entries where
  single := List.nodup_nil
  known := by simp [entries, new, slots, Lanes.slots]
  alive := by simp [entries, new, slots, Lanes.slots]
  recorded := by simp [new]

variable [Analytic α] {rules : Rules α} {settings : Settings α} {now : α}

/-- Every hand-over leaves each entry a voice of its own. -/
theorem handover {before after : Recorder α × List (Entry α)} (owned : Owned before.1 before.2)
    (step : Handover rules settings now before after) : Owned after.1 after.2 := by
  cases step with
  | swap perm =>
    exact { owned with
      single := (perm.map Entry.voice).nodup_iff.mp owned.single
      known := fun entry member => owned.known entry (perm.mem_iff.mpr member)
      alive := fun entry member => owned.alive entry (perm.mem_iff.mpr member) }
  | refuse => exact { owned with }
  | enter fit finish =>
    exact owned.enter rfl (voice_of_mem_opening _ _ _) (destroys_of_mem_opening _ _ _)
  | destroy => exact owned.leave (by simp [Record.voice])
  | displace sounds => exact owned.leave (by simp [Record.voice])
  | @fade recorder entries entry sounds =>
    -- The entry leaves and joins again, for its voice hears of a release only.
    have about : ∀ record ∈ [Record.commanded entry.voice (.release now (fading settings entry))],
        record.voice = entry.voice := by simp [Record.voice]
    refine (owned.leave about).join (owned.known entry (List.mem_cons_self ..)) ?_
      fun other => owned.voice_ne
    rw [Recorder.destroyCount_add]
    exact owned.alive entry (List.mem_cons_self ..)
  | @forget recorder entries entry ended =>
    -- A voice that is forgotten is told nothing, as if no lines were added.
    have about : ∀ record ∈ ([] : List (Record α)), record.voice = entry.voice := by simp
    simpa [Recorder.add] using owned.leave about

/-- Handing over voices leaves each voice with one owner. -/
theorem handovers {before after : Recorder α × List (Entry α)} (owned : Owned before.1 before.2)
    (steps : Handovers rules settings now before after) : Owned after.1 after.2 := by
  induction steps with
  | refl => exact owned
  | tail _ step ih => exact ih.handover step

/-- Entries have voices of their own after every sequence of moves. -/
theorem moves {scheduler next : Scheduler (Recorder α) α}
    {effects : List (Effect α)} (moves : Moves rules scheduler effects next)
    (owned : Owned scheduler.generator scheduler.entries) :
    Owned next.generator next.entries := by
  -- A move of the clock leaves voices alone, and all others hand them over.
  induction moves with
  | done => exact owned
  | step move _ ih =>
    rcases move.handovers with ⟨generator, entries, _⟩ | ⟨_, handovers⟩
    · rw [← generator, ← entries] at owned
      exact ih owned
    · exact ih (owned.handovers handovers)

end Owned

end Scheduler

end Melody
