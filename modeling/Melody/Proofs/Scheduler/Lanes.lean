import Mathlib.Data.List.Perm.Basic
import Melody.Scheduler.Lane

/-! The entries of the lanes, each with its pitch and its seat, under every change of the lanes. -/

namespace Melody

/-- An entry with the pitch of its lane, and whether it is the one that sounds there. -/
structure Slot (α : Type) where
  pitch : Pitch
  sounding : Bool
  entry : Entry α

namespace Lane

variable {α : Type}

/-- The slots of a lane, the one that sounds first. -/
def slots (lane : Lane α) : List (Slot α) :=
  lane.active.toList.map (⟨lane.pitch, true, ·⟩) ++ lane.future.map (⟨lane.pitch, false, ·⟩)

/-- A lane without slots is one without notes. -/
theorem slots_eq_nil {lane : Lane α} : lane.slots = [] ↔ lane.isEmpty = true := by
  cases lane with
  | mk pitch active future => cases active <;> simp [slots, isEmpty]

/-- The entries of a lane are those of its slots, in the same order. -/
theorem slots_entries (lane : Lane α) : lane.slots.map Slot.entry = lane.entries := by
  simp [slots, entries, Function.comp_def]

/-- A lane has a note exactly when one of its slots does. -/
theorem has_iff {lane : Lane α} {id : NoteId} :
    lane.has id = true ↔ ∃ slot ∈ lane.slots, slot.entry.id = id := by
  cases lane with
  | mk pitch active future => cases active <;> simp [has, isActive, isFuture, slots]

/-- Taking out a future note finds an entry under its number and leaves the rest as it was. -/
theorem takeFuture?_spec {lane rest : Lane α} {id : NoteId} {entry : Entry α}
    (taken : lane.takeFuture? id = some (entry, rest)) :
    entry.id = id ∧ rest.pitch = lane.pitch ∧ rest.active = lane.active ∧
      lane.future.Perm (entry :: rest.future) := by
  -- The entry found and the entry erased are both the first under that number.
  unfold takeFuture? at taken
  cases found : lane.future.find? (·.id == id) with
  | none => simp [found] at taken
  | some first =>
    simp only [found, Option.map_some, Option.some.injEq, Prod.mk.injEq] at taken
    obtain ⟨rfl, rfl⟩ := taken
    have named : first.id = id := by simpa using List.find?_some found
    refine ⟨named, rfl, rfl, ?_⟩
    obtain ⟨_, before, after, split, earlier⟩ := List.find?_eq_some_iff_append.mp found
    have erased : lane.future.eraseP (·.id == id) = before ++ after := by
      rw [split, List.eraseP_append_right _ (by simpa using earlier)]
      simp [named]
    simp only [erased]
    rw [split]
    exact List.perm_middle

/-- A future note can be taken out exactly when the lane has it among those to come. -/
theorem takeFuture?_eq_none {lane : Lane α} {id : NoteId} :
    lane.takeFuture? id = none ↔ ∀ entry ∈ lane.future, entry.id ≠ id := by
  simp [takeFuture?]

/-- Taking out a note takes one slot with its number. -/
theorem take?_spec {lane rest : Lane α} {id : NoteId} {entry : Entry α}
    (taken : lane.take? id = some (entry, rest)) :
    entry.id = id ∧ rest.pitch = lane.pitch ∧
      ∃ sounding, lane.slots.Perm (⟨lane.pitch, sounding, entry⟩ :: rest.slots) := by
  -- The future list is searched first, and the seat of the sounding note after it.
  unfold take? at taken
  cases waiting : lane.takeFuture? id with
  | some pair =>
    simp only [waiting, Option.some.injEq] at taken
    subst taken
    obtain ⟨named, pitch, active, future⟩ := takeFuture?_spec waiting
    refine ⟨named, pitch, false, ?_⟩
    simp only [slots, pitch, active]
    -- The slot of a future note is taken from behind the one that sounds.
    exact ((future.map _).append_left _).trans List.perm_middle
  | none =>
    simp only [waiting] at taken
    cases seated : lane.active with
    | none => simp [seated] at taken
    | some first =>
      -- Only the note that sounds can still go by the number.
      by_cases named : first.id = id
      · simp only [seated, if_pos named, Option.some.injEq, Prod.mk.injEq] at taken
        obtain ⟨rfl, rfl⟩ := taken
        exact ⟨named, rfl, true, by simp [slots, seated]⟩
      · simp [seated, if_neg named] at taken

/-- Nothing can be taken out for a note that the lane does not have. -/
theorem take?_eq_none {lane : Lane α} {id : NoteId} :
    lane.take? id = none ↔ ∀ slot ∈ lane.slots, slot.entry.id ≠ id := by
  unfold take?
  cases waiting : lane.takeFuture? id with
  | some pair =>
    -- What has been taken out is a slot of the lane under that number.
    obtain ⟨named, _, _, future⟩ := takeFuture?_spec waiting
    have member : pair.1 ∈ lane.future := future.mem_iff.mpr (List.mem_cons_self ..)
    simp only [reduceCtorEq, false_iff, not_forall]
    exact ⟨⟨lane.pitch, false, pair.1⟩, by simp [slots, member], by simpa using named⟩
  | none =>
    -- Without a future note of that number the sounding seat decides.
    have absent := takeFuture?_eq_none.mp waiting
    cases seated : lane.active with
    | none => simpa [slots, seated] using absent
    | some first =>
      by_cases named : first.id = id
      · simp [slots, seated, named]
      · simpa [slots, seated, named] using absent

/-- Forgetting the note that has ended touches the sounding seat only. -/
theorem expire_eq [Scalar α] (lane : Lane α) (now : α) :
    lane.expire now = { lane with active := lane.active.filter (!·.finish.isReached now) } := by
  -- Only the active entry is looked at.
  unfold expire
  obtain ⟨pitch, active, future⟩ := lane
  cases active with
  | none => rfl
  | some entry =>
    by_cases ended : entry.finish.isReached now = true <;> simp [ended, Option.filter_some]

/-- A lane keeps its pitch when the note that has ended is forgotten. -/
@[simp] theorem expire_pitch [Scalar α] (lane : Lane α) (now : α) :
    (lane.expire now).pitch = lane.pitch := by rw [expire_eq]

end Lane

namespace Lanes

variable {α : Type}

/-- Lanes in strict order of pitch. -/
def Ordered (lanes : Lanes α) : Prop :=
  lanes.Pairwise fun lane next => lane.pitch < next.pitch

/-- The slots of all lanes, in order of pitch. -/
def slots (lanes : Lanes α) : List (Slot α) :=
  lanes.flatMap Lane.slots

/-- The slots of a lane come before those of the lanes behind it. -/
theorem slots_cons (lane : Lane α) (later : Lanes α) :
    slots (lane :: later) = lane.slots ++ slots later := by
  simp [slots]

/-- The lane of a pitch, which is empty if it is not there. -/
def laneOf (lanes : Lanes α) (pitch : Pitch) : Lane α :=
  (lanes.find? pitch).getD ⟨pitch, none, []⟩

/-- The lanes of the other pitches. -/
def others (lanes : Lanes α) (pitch : Pitch) : Lanes α :=
  List.filter (·.pitch != pitch) lanes

/-- The entries of all lanes are those of their slots, in the same order. -/
theorem slots_entries (lanes : Lanes α) :
    lanes.slots.map Slot.entry = lanes.flatMap Lane.entries := by
  simp [slots, List.map_flatMap, Lane.slots_entries]

/-- Some lane has a note exactly when some slot does. -/
theorem has_iff {lanes : Lanes α} {id : NoteId} :
    lanes.has id = true ↔ ∃ slot ∈ lanes.slots, slot.entry.id = id := by
  -- A slot of the lanes is one of some lane.
  simp only [has, List.any_eq_true, Lane.has_iff, slots, List.mem_flatMap]
  constructor
  · rintro ⟨lane, inside, slot, member, named⟩
    exact ⟨slot, ⟨lane, inside, member⟩, named⟩
  · rintro ⟨slot, ⟨lane, inside, member⟩, named⟩
    exact ⟨lane, inside, slot, member, named⟩

/-- Behind a lane of lower pitch, no lane has that pitch. -/
theorem ne_of_ordered {lane : Lane α} {later : Lanes α}
    (ordered : Ordered (lane :: later)) {next : Lane α} (member : next ∈ later) {pitch : Pitch}
    (bound : pitch = lane.pitch ∨ pitch < lane.pitch) : next.pitch ≠ pitch := by
  have above : lane.pitch.index < next.pitch.index := (List.pairwise_cons.mp ordered).1 next member
  -- A lane of that pitch would lie above the first one and not above it.
  rintro rfl
  rcases bound with same | below
  · rw [same] at above
    omega
  · have below : next.pitch.index < lane.pitch.index := below
    omega

/-- The lane that is found for a pitch has that pitch. -/
theorem laneOf_pitch (lanes : Lanes α) (pitch : Pitch) : (lanes.laneOf pitch).pitch = pitch := by
  unfold laneOf
  cases found : lanes.find? pitch with
  | none => rfl
  | some lane => simpa using List.find?_some found

/-- A lane of ordered lanes is the one found for its pitch. -/
theorem find?_of_mem {lanes : Lanes α} (ordered : Ordered lanes) {lane : Lane α}
    (member : lane ∈ lanes) : lanes.find? lane.pitch = some lane := by
  induction lanes with
  | nil => simp at member
  | cons first later ih =>
    rcases List.mem_cons.mp member with rfl | inside
    · simp [find?]
    · -- The search passes the first lane, whose pitch is another one.
      have apart := ne_of_ordered ordered inside (Or.inl rfl)
      have found := ih (List.Pairwise.of_cons ordered) inside
      simpa [find?, Ne.symm apart] using found

/-- A lane of ordered lanes is the lane of its pitch. -/
theorem laneOf_of_mem {lanes : Lanes α} (ordered : Ordered lanes) {lane : Lane α}
    (member : lane ∈ lanes) : lanes.laneOf lane.pitch = lane := by
  rw [laneOf, find?_of_mem ordered member, Option.getD_some]

/-- Lanes of which none has a pitch are those of the other pitches. -/
theorem others_of_forall_ne {lanes : Lanes α} {pitch : Pitch}
    (apart : ∀ lane ∈ lanes, lane.pitch ≠ pitch) : lanes.others pitch = lanes :=
  List.filter_eq_self.mpr fun lane member => by simpa using apart lane member

/-- The lane of a pitch that no lane has is empty. -/
theorem laneOf_of_forall_ne {lanes : Lanes α} {pitch : Pitch}
    (apart : ∀ lane ∈ lanes, lane.pitch ≠ pitch) : lanes.laneOf pitch = ⟨pitch, none, []⟩ := by
  have absent : lanes.find? pitch = none :=
    List.find?_eq_none.mpr fun lane member => by simpa using apart lane member
  simp [laneOf, absent]

/-- Changing the lane of a pitch leaves the other lanes alone. -/
theorem update_perm {lanes : Lanes α} (ordered : Ordered lanes) (pitch : Pitch)
    (change : Lane α → Lane α) :
    (lanes.update pitch change).Perm (change (lanes.laneOf pitch) :: lanes.others pitch) := by
  -- The walk stops at the lane itself, at the first lane above it, or at the end.
  induction lanes with
  | nil => exact List.Perm.refl _
  | cons lane later ih =>
    by_cases here : lane.pitch = pitch
    · -- The lane is here, and the order keeps its pitch from every later lane.
      have apart : ∀ next ∈ later, next.pitch ≠ pitch := fun next member =>
        ne_of_ordered ordered member (Or.inl here.symm)
      have alone : others (lane :: later) pitch = later := by
        simpa [others, here] using apart
      have found : laneOf (lane :: later) pitch = lane := by simp [laneOf, find?, here]
      simp [update, here, alone, found]
    · by_cases below : pitch < lane.pitch
      · -- The place of the pitch is passed, so no lane has it and an empty one is changed.
        have apart : ∀ next ∈ lane :: later, next.pitch ≠ pitch := fun next member => by
          rcases List.mem_cons.mp member with rfl | inside
          · exact here
          · exact ne_of_ordered ordered inside (Or.inr below)
        simp [update, here, below, others_of_forall_ne apart, laneOf_of_forall_ne apart]
      · -- The lane stays, and the change happens behind it.
        have found : laneOf (lane :: later) pitch = laneOf later pitch := by
          simp [laneOf, find?, here]
        have rest : others (lane :: later) pitch = lane :: others later pitch := by
          simp [others, here]
        simp only [update, if_neg here, if_neg below, found, rest]
        exact ((ih (List.Pairwise.of_cons ordered)).cons lane).trans (List.Perm.swap ..)

/-- A slot belongs to the lane of its pitch, on the sounding seat or among the notes to come. -/
theorem mem_slots {lanes : Lanes α} {slot : Slot α} :
    slot ∈ lanes.slots ↔ ∃ lane ∈ lanes, lane.pitch = slot.pitch ∧
      if slot.sounding then lane.active = some slot.entry else slot.entry ∈ lane.future := by
  obtain ⟨pitch, sounding, entry⟩ := slot
  cases sounding <;> simp [slots, Lane.slots, and_comm]

/-- The note that sounds for a pitch is read off the lane that is found, if there is one. -/
theorem laneOf_active (lanes : Lanes α) (pitch : Pitch) :
    (lanes.laneOf pitch).active = (lanes.find? pitch).bind Lane.active := by
  unfold laneOf
  cases lanes.find? pitch <;> rfl

/-- Changing the lane of a pitch keeps the lanes in order, if the change keeps the pitch. -/
theorem update_ordered {lanes : Lanes α} (ordered : Ordered lanes) (pitch : Pitch)
    {change : Lane α → Lane α} (kept : ∀ lane, lane.pitch = pitch → (change lane).pitch = pitch) :
    Ordered (lanes.update pitch change) := by
  induction lanes with
  | nil => exact List.pairwise_singleton _ _
  | cons lane later ih =>
    obtain ⟨above, rest⟩ := List.pairwise_cons.mp ordered
    by_cases here : lane.pitch = pitch
    · -- The changed lane keeps its pitch and with it its place.
      simp only [update, if_pos here]
      refine List.pairwise_cons.mpr ⟨fun next member => ?_, rest⟩
      rw [kept lane here, ← here]
      exact above next member
    · by_cases below : pitch < lane.pitch
      · -- A lane that was missing is put before the first one above its pitch.
        simp only [update, if_neg here, if_pos below]
        refine List.pairwise_cons.mpr ⟨fun next member => ?_, ordered⟩
        rw [kept _ rfl]
        rcases List.mem_cons.mp member with rfl | inside
        · exact below
        · exact Int.lt_trans below (above next inside)
      · -- Behind the lane stand old ones and the changed one, which was not passed.
        simp only [update, if_neg here, if_neg below]
        refine List.pairwise_cons.mpr ⟨fun next member => ?_, ih rest⟩
        rcases List.mem_cons.mp ((update_perm rest pitch change).mem_iff.mp member)
          with same | inside
        · subst same
          rw [kept _ (laneOf_pitch later pitch)]
          have apart : lane.pitch.index ≠ pitch.index := fun same => here (by
            cases equal : lane.pitch
            simp_all)
          have reached : ¬ pitch.index < lane.pitch.index := below
          show lane.pitch.index < pitch.index
          omega
        · exact above next (List.mem_of_mem_filter inside)

/-- After a change the lane of a pitch is the changed one. -/
theorem laneOf_update {lanes : Lanes α} (ordered : Ordered lanes) (pitch : Pitch)
    {change : Lane α → Lane α} (kept : ∀ lane, lane.pitch = pitch → (change lane).pitch = pitch) :
    (lanes.update pitch change).laneOf pitch = change (lanes.laneOf pitch) := by
  -- The changed lane is one of the new lanes, where the search for its pitch ends.
  have member : change (lanes.laneOf pitch) ∈ lanes.update pitch change :=
    (update_perm ordered pitch change).mem_iff.mpr (List.mem_cons_self ..)
  have found := laneOf_of_mem (update_ordered ordered pitch kept) member
  rw [kept _ (laneOf_pitch lanes pitch)] at found
  exact found

/-- The slots of ordered lanes are those of one pitch and those of the others. -/
theorem slots_perm_laneOf {lanes : Lanes α} (ordered : Ordered lanes) (pitch : Pitch) :
    lanes.slots.Perm ((lanes.laneOf pitch).slots ++ (lanes.others pitch).slots) := by
  induction lanes with
  | nil => exact List.Perm.refl _
  | cons lane later ih =>
    by_cases here : lane.pitch = pitch
    · -- The lane is here, and all that is left are lanes of other pitches.
      have apart : ∀ next ∈ later, next.pitch ≠ pitch := fun next member =>
        ne_of_ordered ordered member (Or.inl here.symm)
      have alone : others (lane :: later) pitch = later := by
        simpa [others, here] using apart
      have found : laneOf (lane :: later) pitch = lane := by simp [laneOf, find?, here]
      rw [alone, found]
      exact List.Perm.refl _
    · -- The slots of the lane further back are moved past those of this one.
      have found : laneOf (lane :: later) pitch = laneOf later pitch := by
        simp [laneOf, find?, here]
      have rest : others (lane :: later) pitch = lane :: others later pitch := by
        simp [others, here]
      rw [found, rest]
      calc
        slots (lane :: later) = lane.slots ++ slots later := slots_cons lane later
        _ |>.Perm (lane.slots ++ ((laneOf later pitch).slots ++ (others later pitch).slots)) :=
          (ih (List.Pairwise.of_cons ordered)).append_left _
        _ |>.Perm ((laneOf later pitch).slots ++ slots (lane :: others later pitch)) := by
          simpa [slots] using List.perm_append_comm_assoc ..

/-- The slots after a change are those of the changed lane and those of the others. -/
theorem update_slots {lanes : Lanes α} (ordered : Ordered lanes) (pitch : Pitch)
    (change : Lane α → Lane α) :
    (lanes.update pitch change).slots.Perm
      ((change (lanes.laneOf pitch)).slots ++ (lanes.others pitch).slots) :=
  (update_perm ordered pitch change).flatMap_right Lane.slots

/-- Entering a note among those to come adds its slot. -/
theorem enter_slots {lanes : Lanes α} (ordered : Ordered lanes) (pitch : Pitch) (entry : Entry α) :
    (lanes.update pitch fun lane => { lane with future := lane.future ++ [entry] }).slots.Perm
      (⟨pitch, false, entry⟩ :: lanes.slots) := by
  have pitched := laneOf_pitch lanes pitch
  have added : ({ lanes.laneOf pitch with future := (lanes.laneOf pitch).future ++ [entry] } :
      Lane α).slots = (lanes.laneOf pitch).slots ++ [⟨pitch, false, entry⟩] := by
    simp [Lane.slots, pitched]
  -- The new slot stands between those of its lane and those of the others.
  refine (update_slots ordered pitch _).trans ?_
  rw [added, List.append_assoc]
  exact List.perm_middle.trans ((slots_perm_laneOf ordered pitch).symm.cons _)

/-- A future note that takes the sounding seat moves its slot there and displaces the one before. -/
theorem promote_slots {lanes : Lanes α} (ordered : Ordered lanes) {pitch : Pitch} {id : NoteId}
    {entry : Entry α} {lane : Lane α}
    (taken : (lanes.find? pitch).bind (·.takeFuture? id) = some (entry, lane)) :
    ∃ rest, lanes.slots.Perm
        (⟨pitch, false, entry⟩ :: (lane.active.toList.map (⟨pitch, true, ·⟩) ++ rest)) ∧
      (lanes.update pitch fun _ => { lane with active := some entry }).slots.Perm
        (⟨pitch, true, entry⟩ :: rest) := by
  -- Both lists share the other notes to come and the slots of the other lanes.
  obtain ⟨before, found, took⟩ := Option.bind_eq_some_iff.mp taken
  obtain ⟨_, samePitch, sameActive, future⟩ := Lane.takeFuture?_spec took
  have here : lanes.laneOf pitch = before := by simp [laneOf, found]
  have pitched : before.pitch = pitch := here ▸ laneOf_pitch lanes pitch
  refine ⟨lane.future.map (⟨pitch, false, ·⟩) ++ (lanes.others pitch).slots, ?_, ?_⟩
  · -- Before, the note is one of those to come, behind the one that sounds.
    refine (slots_perm_laneOf ordered pitch).trans ?_
    rw [here]
    have slots : before.slots.Perm (⟨pitch, false, entry⟩ ::
        (lane.active.toList.map (⟨pitch, true, ·⟩) ++ lane.future.map (⟨pitch, false, ·⟩))) := by
      simp only [Lane.slots, pitched, sameActive]
      exact ((future.map _).append_left _).trans List.perm_middle
    simpa [List.append_assoc] using slots.append_right (lanes.others pitch).slots
  · -- After, it has the seat, and the one before it is gone.
    refine (update_slots ordered pitch _).trans ?_
    simp [Lane.slots, samePitch.trans pitched]

/-- A note to come is found under its number in the lane of its pitch. -/
theorem takeFuture?_of_mem {lanes : Lanes α} (ordered : Ordered lanes) {pitch : Pitch}
    {entry : Entry α} (member : ⟨pitch, false, entry⟩ ∈ lanes.slots) :
    ∃ first lane, first.id = entry.id ∧
      (lanes.find? pitch).bind (·.takeFuture? entry.id) = some (first, lane) := by
  -- Lanes in order have one lane for the pitch, and that one holds the entry.
  obtain ⟨before, present, samePitch, future⟩ := mem_slots.mp member
  have samePitch : before.pitch = pitch := samePitch
  have found : lanes.find? pitch = some before := samePitch ▸ find?_of_mem ordered present
  rw [found, Option.bind_some]
  cases took : before.takeFuture? entry.id with
  | none => exact absurd rfl (Lane.takeFuture?_eq_none.mp took entry (by simpa using future))
  | some pair => exact ⟨pair.1, pair.2, (Lane.takeFuture?_spec took).1, rfl⟩

/-- Changing the sounding entry of a lane changes its slot alone. -/
theorem seat_slots {lanes : Lanes α} (ordered : Ordered lanes) {lane : Lane α}
    (member : lane ∈ lanes) {entry : Entry α} (seated : lane.active = some entry)
    (changed : Entry α) :
    ∃ rest, lanes.slots.Perm (⟨lane.pitch, true, entry⟩ :: rest) ∧
      (lanes.update lane.pitch fun lane => { lane with active := some changed }).slots.Perm
        (⟨lane.pitch, true, changed⟩ :: rest) := by
  have here := laneOf_of_mem ordered member
  -- Nothing changes around the seat: the notes to come and the other lanes.
  refine ⟨lane.future.map (⟨lane.pitch, false, ·⟩) ++ (lanes.others lane.pitch).slots, ?_, ?_⟩
  · refine (slots_perm_laneOf ordered lane.pitch).trans ?_
    simp [here, Lane.slots, seated]
  · refine (update_slots ordered lane.pitch _).trans ?_
    simp [here, Lane.slots]

/-- Lanes in order of which none is empty. -/
structure Regular (lanes : Lanes α) : Prop where
  ordered : Ordered lanes
  occupied : ∀ lane ∈ lanes, lane.isEmpty = false

/-- Regular lanes without slots are none at all. -/
theorem Regular.eq_nil {lanes : Lanes α} (regular : Regular lanes) (bare : lanes.slots = []) :
    lanes = [] := by
  refine List.eq_nil_iff_forall_not_mem.mpr fun lane member => ?_
  -- A lane has a note, and so a slot.
  have vacant : lane.slots = [] := List.flatMap_eq_nil_iff.mp bare lane member
  rw [Lane.slots_eq_nil, regular.occupied lane member] at vacant
  contradiction

/-- A change that keeps the pitch and leaves a note in the lane keeps lanes regular. -/
theorem Regular.update {lanes : Lanes α} (regular : Regular lanes) (pitch : Pitch)
    {change : Lane α → Lane α} (kept : ∀ lane, lane.pitch = pitch → (change lane).pitch = pitch)
    (filled : ∀ lane, (change lane).isEmpty = false) : Regular (lanes.update pitch change) where
  ordered := update_ordered regular.ordered pitch kept
  occupied := by
    intro lane member
    -- A lane is the changed one, or one of the others as it was.
    rcases List.mem_cons.mp ((update_perm regular.ordered pitch change).mem_iff.mp member)
      with same | inside
    · subst same
      exact filled _
    · exact regular.occupied lane (List.mem_of_mem_filter inside)

/-- Taking out a note takes one slot with its number and keeps lanes regular. -/
theorem take?_spec {lanes rest : Lanes α} (regular : Regular lanes) {id : NoteId} {entry : Entry α}
    (taken : lanes.take? id = some (entry, rest)) :
    entry.id = id ∧ Regular rest ∧
      ∃ pitch sounding, lanes.slots.Perm (⟨pitch, sounding, entry⟩ :: rest.slots) := by
  -- The walk takes from the first lane that has the note and drops that lane if it becomes empty.
  have general : entry.id = id ∧ (∀ lane ∈ rest, lane.isEmpty = false) ∧
      (∀ lane ∈ rest, ∃ source ∈ lanes, source.pitch = lane.pitch) ∧ Ordered rest ∧
      ∃ pitch sounding, lanes.slots.Perm (⟨pitch, sounding, entry⟩ :: rest.slots) := by
    obtain ⟨ordered, occupied⟩ := regular
    induction lanes generalizing rest with
    | nil => simp [take?] at taken
    | cons lane later ih =>
      obtain ⟨above, orderedLater⟩ := List.pairwise_cons.mp ordered
      have occupiedLater : ∀ next ∈ later, next.isEmpty = false :=
        fun next member => occupied next (List.mem_cons_of_mem _ member)
      rw [take?] at taken
      cases here : lane.take? id with
      | some pair =>
        obtain ⟨first, reduced⟩ := pair
        simp only [here, Option.some.injEq, Prod.mk.injEq] at taken
        obtain ⟨rfl, rfl⟩ := taken
        obtain ⟨named, samePitch, sounding, slots⟩ := Lane.take?_spec here
        by_cases bare : reduced.isEmpty = true
        · -- Nothing else was in the lane, so the lane goes with the note.
          simp only [if_pos bare]
          refine ⟨named, occupiedLater, fun next member =>
            ⟨next, List.mem_cons_of_mem _ member, rfl⟩, orderedLater, lane.pitch, sounding, ?_⟩
          rw [Lane.slots_eq_nil.mpr bare] at slots
          exact slots.append_right _
        · -- The lane stays with its other notes, under the same pitch.
          simp only [if_neg bare]
          refine ⟨named, ?_, ?_, ?_, lane.pitch, sounding, slots.append_right _⟩
          · intro next member
            rcases List.mem_cons.mp member with rfl | inside
            · simpa using bare
            · exact occupiedLater next inside
          · intro next member
            rcases List.mem_cons.mp member with rfl | inside
            · exact ⟨lane, List.mem_cons_self .., samePitch.symm⟩
            · exact ⟨next, List.mem_cons_of_mem _ inside, rfl⟩
          · exact List.pairwise_cons.mpr
              ⟨fun next member => samePitch ▸ above next member, orderedLater⟩
      | none =>
        simp only [here, Option.map_eq_some_iff, Prod.mk.injEq] at taken
        -- The note is in a later lane, and this one stays as it is.
        obtain ⟨⟨first, others⟩, found, rfl, rfl⟩ := taken
        obtain ⟨named, filled, sources, orderedRest, pitch, sounding, slots⟩ :=
          ih found orderedLater occupiedLater
        refine ⟨named, ?_, ?_, ?_, pitch, sounding, (slots.append_left _).trans List.perm_middle⟩
        · intro next member
          rcases List.mem_cons.mp member with rfl | inside
          · exact occupied _ (List.mem_cons_self ..)
          · exact filled next inside
        · intro next member
          rcases List.mem_cons.mp member with rfl | inside
          · exact ⟨_, List.mem_cons_self .., rfl⟩
          · obtain ⟨source, present, same⟩ := sources next inside
            exact ⟨source, List.mem_cons_of_mem _ present, same⟩
        · -- A lane that is left has the pitch of an old one, which lies above this lane.
          refine List.pairwise_cons.mpr ⟨fun next member => ?_, orderedRest⟩
          obtain ⟨source, present, same⟩ := sources next member
          exact same ▸ above source present
  obtain ⟨named, filled, _, ordered, slots⟩ := general
  exact ⟨named, ⟨ordered, filled⟩, slots⟩

/-- Nothing can be taken out for a note that no slot has. -/
theorem take?_eq_none {lanes : Lanes α} {id : NoteId} :
    lanes.take? id = none ↔ ∀ slot ∈ lanes.slots, slot.entry.id ≠ id := by
  induction lanes with
  | nil => simp [take?, slots]
  | cons lane later ih =>
    rw [take?, slots_cons]
    cases here : lane.take? id with
    | some pair =>
      -- A hit in the first lane is a slot under that number.
      have present : ¬ ∀ slot ∈ lane.slots, slot.entry.id ≠ id := fun absent => by
        simp [Lane.take?_eq_none.mpr absent] at here
      simp only [reduceCtorEq, false_iff]
      exact fun absent => present fun slot member => absent slot (List.mem_append_left _ member)
    | none =>
      -- The first lane has no such slot, so the later lanes decide.
      have absent := Lane.take?_eq_none.mp here
      simp only [Option.map_eq_none_iff, ih, List.mem_append]
      constructor
      · rintro rest slot (member | member)
        · exact absent slot member
        · exact rest slot member
      · exact fun whole slot member => whole slot (Or.inr member)

/-- A slot whose note sounds and has ended. -/
def isOver [Scalar α] (now : α) (slot : Slot α) : Bool :=
  slot.sounding && slot.entry.finish.isReached now

/-- A lane that becomes empty when a note is forgotten goes with it. -/
theorem expire_cons [Scalar α] (lane : Lane α) (later : Lanes α) (now : α) :
    expire (lane :: later) now = if (lane.expire now).isEmpty then later.expire now
      else lane.expire now :: later.expire now := by
  by_cases bare : (lane.expire now).isEmpty <;> simp [expire, bare]

/-- Forgetting the notes that have ended takes away their slots. -/
theorem expire_slots [Scalar α] (lanes : Lanes α) (now : α) :
    (lanes.expire now).slots = lanes.slots.filter (!isOver now ·) := by
  -- A lane that becomes empty has no slot left, so dropping it changes nothing.
  have single : ∀ lane : Lane α, (lane.expire now).slots = lane.slots.filter (!isOver now ·) := by
    intro lane
    -- Notes to come are not over, so they pass the filter.
    have waiting : ∀ future : List (Entry α), (future.map (⟨lane.pitch, false, ·⟩)).filter
        (!isOver now ·) = future.map (⟨lane.pitch, false, ·⟩) := fun future =>
      List.filter_eq_self.mpr fun slot member => by
        obtain ⟨entry, _, rfl⟩ := List.mem_map.mp member
        simp [isOver]
    unfold Lane.expire Lane.slots
    rw [List.filter_append, waiting]
    cases seated : lane.active with
    | none => simp [seated]
    | some entry => by_cases ended : entry.finish.isReached now <;> simp [seated, ended, isOver]
  induction lanes with
  | nil => rfl
  | cons lane later ih =>
    -- The lanes are looked at one after the other.
    rw [expire_cons, slots_cons, List.filter_append, ← ih, ← single lane]
    by_cases bare : (lane.expire now).isEmpty
    · simp [bare, Lane.slots_eq_nil.mpr bare]
    · simp [bare, slots]

/-- Forgetting the notes that have ended keeps lanes regular. -/
theorem Regular.expire [Scalar α] {lanes : Lanes α} (regular : Regular lanes) (now : α) :
    Regular (lanes.expire now) where
  ordered := by
    -- A lane keeps its pitch, and the lanes that are left keep their order.
    refine List.Pairwise.filter _ (List.pairwise_map.mpr ?_)
    simp only [Lane.expire_pitch]
    exact regular.ordered
  occupied := by
    intro lane member
    simpa using (List.mem_filter.mp member).2

end Lanes

end Melody
