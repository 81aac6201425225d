import Mathlib.Data.List.Nodup
import Melody.Proofs.Scalar.Field
import Melody.Proofs.Scheduler.Lanes

/-! Lanes read pitch by pitch, and what stays the same when notes that have ended are forgotten. -/

namespace Melody

namespace Ending

variable {α : Type} [ExactScalar α]

/-- An end lies ahead until it is reached. -/
theorem isAfter_eq (ending : Ending α) (now : α) : ending.isAfter now = !ending.isReached now := by
  cases ending with
  | «at» time => simp [isAfter, isReached, ← decide_not]
  | never => simp [isAfter, isReached, ExactScalar.finite]

/-- An end that has been reached stays so. -/
theorem isReached_mono {ending : Ending α} {now later : α} (passes : now ≤ later)
    (reached : ending.isReached now = true) : ending.isReached later = true := by
  cases ending with
  | «at» time =>
    have reached : time ≤ now := by simpa [isReached] using reached
    simpa [isReached] using reached.trans passes
  | never => simp [isReached, ExactScalar.finite] at reached

end Ending

/-- There is an entry that sounds on if there is one that has not ended. -/
theorem Entry.any_isAfter {α : Type} [ExactScalar α] (seated : Option (Entry α)) (now : α) :
    seated.any (·.finish.isAfter now) = (seated.filter (!·.finish.isReached now)).isSome := by
  cases seated with
  | none => rfl
  | some entry =>
    by_cases ended : entry.finish.isReached now = true <;>
      simp [Ending.isAfter_eq, Option.filter_some, ended]

namespace Lane

variable {α : Type}

/-- The lane without the note that sounds. -/
def vacated (lane : Lane α) : Lane α :=
  { lane with active := none }

/-- The lane without a note. -/
def without (lane : Lane α) (id : NoteId) : Lane α :=
  ((lane.take? id).map Prod.snd).getD lane

/-- A note leaves the notes to come, or else the sounding seat if it has that. -/
theorem without_eq (lane : Lane α) (id : NoteId) :
    lane.without id = if lane.isFuture id
      then { lane with future := lane.future.eraseP (·.id == id) }
      else { lane with active := lane.active.filter (·.id != id) } := by
  unfold without take?
  cases found : lane.takeFuture? id with
  | some pair =>
    unfold takeFuture? at found
    obtain ⟨entry, here, rfl⟩ := Option.map_eq_some_iff.mp found
    have named := List.find?_some here
    have waits : lane.isFuture id = true :=
      List.any_eq_true.mpr ⟨entry, List.mem_of_find?_eq_some here, named⟩
    simp [waits]
  | none =>
    have absent : lane.isFuture id = false := by
      simpa [isFuture] using takeFuture?_eq_none.mp found
    obtain ⟨pitch, active, future⟩ := lane
    -- Without a note to come of that number the sounding seat decides.
    cases active with
    | none => simp [absent]
    | some entry => by_cases named : entry.id = id <;> simp [absent, named, Option.filter_some]

/-- A lane without notes is told by its pitch. -/
theorem eq_of_isEmpty {lane : Lane α} (bare : lane.isEmpty = true) :
    lane = ⟨lane.pitch, none, []⟩ := by
  obtain ⟨pitch, active, future⟩ := lane
  simpa [isEmpty] using bare

/-- A lane that does not have a note stays as it is without it. -/
theorem without_eq_self {lane : Lane α} {id : NoteId} (absent : lane.take? id = none) :
    lane.without id = lane := by
  simp [without, absent]

/-- The lane as far as its sounding note counts. -/
def seen (counts : Entry α → Bool) (lane : Lane α) : Lane α :=
  { lane with active := lane.active.filter counts }

/-- Forgetting a note that has ended passes it over. -/
theorem expire_eq_seen [Scalar α] (lane : Lane α) (now : α) :
    lane.expire now = lane.seen (!·.finish.isReached now) :=
  lane.expire_eq now

variable {counts fewer : Entry α → Bool}

/-- Lanes are seen alike if pitch, notes to come and a seat that counts agree. -/
theorem seen_eq_seen {lane other : Lane α} :
    lane.seen counts = other.seen counts ↔ lane.pitch = other.pitch ∧
      lane.active.filter counts = other.active.filter counts ∧ lane.future = other.future := by
  rw [seen, seen, Lane.mk.injEq]

/-- It does not matter whether a note is taken out before or after others are passed over. -/
theorem seen_without (lane : Lane α) (id : NoteId) :
    (lane.without id).seen counts = (lane.seen counts).without id := by
  have same : (lane.seen counts).isFuture id = lane.isFuture id := rfl
  rw [without_eq, without_eq, same]
  by_cases waits : lane.isFuture id = true
  · simp [seen, waits]
  · simp [seen, waits, Option.filter_filter, Bool.and_comm]

/-- What has been passed over need not be passed over again. -/
theorem seen_seen (lane : Lane α) (weaker : ∀ entry, fewer entry = true → counts entry = true) :
    (lane.seen counts).seen fewer = lane.seen fewer := by
  obtain ⟨pitch, active, future⟩ := lane
  cases active with
  | none => rfl
  | some entry =>
    -- An active entry that does not count for many does not for fewer.
    by_cases counted : counts entry = true
    · simp [seen, Option.filter_some, counted]
    · have passed : fewer entry = false := by
        simpa using fun less => counted (weaker entry less)
      simp [seen, Option.filter_some, counted, passed]

end Lane

namespace Lanes

variable {α : Type}

/-- A note is taken out of the notes to come of its pitch, if it is among them. -/
theorem find?_takeFuture? (lanes : Lanes α) (pitch : Pitch) (id : NoteId) :
    (lanes.find? pitch).bind (·.takeFuture? id) =
      ((lanes.laneOf pitch).future.find? (·.id == id)).map fun entry =>
        (entry, { lanes.laneOf pitch with
          future := (lanes.laneOf pitch).future.eraseP (·.id == id) }) := by
  unfold laneOf
  cases lanes.find? pitch <;> rfl

/-- The first lane is the one of its pitch, and the others are looked for behind it. -/
theorem laneOf_cons (lane : Lane α) (later : Lanes α) (pitch : Pitch) :
    laneOf (lane :: later) pitch = if lane.pitch = pitch then lane else laneOf later pitch := by
  by_cases here : lane.pitch = pitch <;> simp [laneOf, find?, here]

/-- Changing the lane of a pitch leaves the lane of every other pitch as it was. -/
theorem laneOf_update_of_ne (lanes : Lanes α) {pitch other : Pitch} (apart : other ≠ pitch)
    {change : Lane α → Lane α} (kept : ∀ lane, lane.pitch = pitch → (change lane).pitch = pitch) :
    (lanes.update pitch change).laneOf other = lanes.laneOf other := by
  have apart : pitch ≠ other := Ne.symm apart
  -- The lanes are walked to the one that is changed, which is not the one looked up.
  induction lanes with
  | nil => simp [update, laneOf, find?, kept ⟨pitch, none, []⟩ rfl, apart]
  | cons lane later ih =>
    by_cases here : lane.pitch = pitch
    · have there : (change lane).pitch ≠ other := kept lane here ▸ apart
      simp [update, here, laneOf_cons, there, apart]
    · by_cases below : pitch < lane.pitch
      · simp [update, here, below, laneOf_cons, kept ⟨pitch, none, []⟩ rfl, apart]
      · simp [update, here, below, laneOf_cons, ih]

/-- A lane is among regular lanes exactly when it holds a note and is the one of its pitch. -/
theorem Regular.mem_iff {lanes : Lanes α} (regular : Regular lanes) {lane : Lane α} :
    lane ∈ lanes ↔ lane.isEmpty = false ∧ lanes.laneOf lane.pitch = lane := by
  constructor
  · intro member
    exact ⟨regular.occupied lane member, laneOf_of_mem regular.ordered member⟩
  · rintro ⟨occupied, here⟩
    unfold laneOf at here
    cases found : lanes.find? lane.pitch with
    | none =>
      -- A lane that is made up for its pitch would hold no note.
      rw [found, Option.getD_none] at here
      rw [← here] at occupied
      simp [Lane.isEmpty] at occupied
    | some first =>
      rw [found, Option.getD_some] at here
      exact here ▸ List.mem_of_find?_eq_some found

/-- Regular lanes are given by the lane of each pitch. -/
theorem Regular.ext {lanes others : Lanes α} (one : Regular lanes) (other : Regular others)
    (same : ∀ pitch, lanes.laneOf pitch = others.laneOf pitch) : lanes = others := by
  have distinct : ∀ {lanes : Lanes α}, Ordered lanes → lanes.Nodup := fun ordered =>
    ordered.imp fun {lane next} below same => by
      have below : lane.pitch.index < next.pitch.index := below
      rw [same] at below
      omega
  have perm : lanes.Perm others := (List.perm_ext_iff_of_nodup (distinct one.ordered)
    (distinct other.ordered)).mpr fun lane => by rw [one.mem_iff, other.mem_iff, same]
  -- The same lanes in the order of their pitches stand at the same places.
  refine perm.eq_of_pairwise (fun lane next _ _ below above => ?_) one.ordered other.ordered
  have below : lane.pitch.index < next.pitch.index := below
  have above : next.pitch.index < lane.pitch.index := above
  omega

/-- Taking out a note leaves the lane of each pitch without it. -/
theorem laneOf_take? {lanes rest : Lanes α} (ordered : Ordered lanes)
    (distinct : (lanes.slots.map (·.entry.id)).Nodup) {id : NoteId} {entry : Entry α}
    (taken : lanes.take? id = some (entry, rest)) (pitch : Pitch) :
    rest.laneOf pitch = (lanes.laneOf pitch).without id := by
  induction lanes generalizing rest with
  | nil => simp [take?] at taken
  | cons lane later ih =>
    rw [slots_cons, List.map_append, List.nodup_append] at distinct
    obtain ⟨_, distinctLater, apart⟩ := distinct
    rw [take?] at taken
    rw [laneOf_cons]
    cases here : lane.take? id with
    | some pair =>
      obtain ⟨first, reduced⟩ := pair
      simp only [here, Option.some.injEq, Prod.mk.injEq] at taken
      obtain ⟨rfl, rfl⟩ := taken
      obtain ⟨named, samePitch, sounding, slots⟩ := Lane.take?_spec here
      have reduces : lane.without id = reduced := by simp [Lane.without, here]
      by_cases same : lane.pitch = pitch
      · rw [if_pos same, reduces]
        by_cases bare : reduced.isEmpty = true
        · -- The lane goes with its last note, and none of that pitch stands behind it.
          have alone := laneOf_of_forall_ne fun next member =>
            ne_of_ordered ordered member (Or.inl same.symm)
          rw [if_pos bare, alone, Lane.eq_of_isEmpty bare, samePitch, same]
        · rw [if_neg bare, laneOf_cons, if_pos (samePitch.trans same)]
      · -- The note is in the first lane, so it is in no other one.
        have absent : ((laneOf later pitch).take? id) = none := by
          refine Lane.take?_eq_none.mpr fun slot member same => ?_
          have inside := (slots_perm_laneOf (List.Pairwise.of_cons ordered) pitch).mem_iff.mpr
            (List.mem_append_left _ member)
          have first := slots.mem_iff.mpr (List.mem_cons_self ..)
          exact apart _ (List.mem_map_of_mem first) _ (List.mem_map_of_mem inside)
            (named.trans same.symm)
        rw [if_neg same, Lane.without_eq_self absent]
        by_cases bare : reduced.isEmpty = true
        · rw [if_pos bare]
        · rw [if_neg bare, laneOf_cons, if_neg (samePitch ▸ same)]
    | none =>
      simp only [here, Option.map_eq_some_iff, Prod.mk.injEq] at taken
      obtain ⟨⟨first, others⟩, found, rfl, rfl⟩ := taken
      rw [laneOf_cons]
      by_cases same : lane.pitch = pitch
      · simp [same, Lane.without_eq_self here]
      · simp [same, ih (List.Pairwise.of_cons ordered) distinctLater found]

section Expiring

variable [Scalar α]

/-- Forgetting the notes that have ended does so in the lane of each pitch. -/
theorem laneOf_expire {lanes : Lanes α} (ordered : Ordered lanes) (now : α) (pitch : Pitch) :
    (lanes.expire now).laneOf pitch = (lanes.laneOf pitch).expire now := by
  induction lanes with
  | nil => rfl
  | cons lane later ih =>
    have rest := ih (List.Pairwise.of_cons ordered)
    have kept := lane.expire_pitch now
    rw [expire_cons, laneOf_cons]
    by_cases same : lane.pitch = pitch
    · rw [if_pos same]
      by_cases bare : (lane.expire now).isEmpty = true
      · -- Nothing is left in the lane, and none of that pitch stands behind it.
        have alone := laneOf_of_forall_ne fun next member =>
          ne_of_ordered ordered member (Or.inl same.symm)
        rw [if_pos bare, rest, alone, Lane.eq_of_isEmpty bare, kept, same]
        rfl
      · rw [if_neg bare, laneOf_cons, if_pos (kept.trans same)]
    · rw [if_neg same, ← rest]
      by_cases bare : (lane.expire now).isEmpty = true
      · rw [if_pos bare]
      · rw [if_neg bare, laneOf_cons, if_neg (kept ▸ same)]

end Expiring

/-- Lanes that hold the same notes for each pitch, but for sounding ones that do not count. -/
def Agree (counts : Entry α → Bool) (lanes others : Lanes α) : Prop :=
  ∀ pitch, (lanes.laneOf pitch).seen counts = (others.laneOf pitch).seen counts

namespace Agree

variable {counts fewer : Entry α → Bool} {lanes others : Lanes α}

/-- Lanes agree in both directions. -/
theorem symm (agree : Agree counts lanes others) : Agree counts others lanes :=
  fun pitch => (agree pitch).symm

/-- The note that sounds for a pitch is the same if it counts. -/
theorem active (agree : Agree counts lanes others) (pitch : Pitch) :
    (lanes.laneOf pitch).active.filter counts = (others.laneOf pitch).active.filter counts :=
  (Lane.seen_eq_seen.mp (agree pitch)).2.1

/-- The notes to come of a pitch are the same. -/
theorem future (agree : Agree counts lanes others) (pitch : Pitch) :
    (lanes.laneOf pitch).future = (others.laneOf pitch).future :=
  (Lane.seen_eq_seen.mp (agree pitch)).2.2

/-- The lane of a pitch is the same without the note that sounds. -/
theorem vacated (agree : Agree counts lanes others) (pitch : Pitch) :
    (lanes.laneOf pitch).vacated = (others.laneOf pitch).vacated := by
  obtain ⟨pitched, _, future⟩ := Lane.seen_eq_seen.mp (agree pitch)
  rw [Lane.vacated, Lane.vacated, pitched, future]

/-- Lanes agree on a pitch after changes with the same result, and on the others as before. -/
theorem update (agree : Agree counts lanes others) (one : Ordered lanes) (other : Ordered others)
    (pitch : Pitch) {change exchange : Lane α → Lane α}
    (kept : ∀ lane, lane.pitch = pitch → (change lane).pitch = pitch)
    (held : ∀ lane, lane.pitch = pitch → (exchange lane).pitch = pitch)
    (same : (change (lanes.laneOf pitch)).seen counts =
      (exchange (others.laneOf pitch)).seen counts) :
    Agree counts (lanes.update pitch change) (others.update pitch exchange) := by
  intro place
  by_cases here : place = pitch
  · rw [here, laneOf_update one pitch kept, laneOf_update other pitch held, same]
  · rw [laneOf_update_of_ne lanes here kept, laneOf_update_of_ne others here held, agree place]

/-- Lanes agree when a note is taken out of the lane of every pitch. -/
theorem without (agree : Agree counts lanes others) {rest left : Lanes α} (id : NoteId)
    (one : ∀ pitch, rest.laneOf pitch = (lanes.laneOf pitch).without id)
    (other : ∀ pitch, left.laneOf pitch = (others.laneOf pitch).without id) :
    Agree counts rest left := by
  intro pitch
  rw [one, other, Lane.seen_without, Lane.seen_without, agree pitch]

/-- Lanes that agree do so when fewer notes count. -/
theorem weaken (agree : Agree counts lanes others)
    (weaker : ∀ entry, fewer entry = true → counts entry = true) : Agree fewer lanes others := by
  intro pitch
  rw [← Lane.seen_seen _ weaker, agree pitch, Lane.seen_seen _ weaker]

/-- Lanes agree when notes that have ended and do not count are forgotten on one side. -/
theorem expire_left [Scalar α] (agree : Agree counts lanes others) (ordered : Ordered lanes)
    {now : α} (lasting : ∀ entry, counts entry = true → (!entry.finish.isReached now) = true) :
    Agree counts (lanes.expire now) others := by
  intro pitch
  rw [laneOf_expire ordered, Lane.expire_eq_seen, Lane.seen_seen _ lasting, agree pitch]

/-- Lanes that agree on all that has not ended are the same when the rest is forgotten. -/
theorem expire_eq [Scalar α] {now : α}
    (agree : Agree (fun entry => !entry.finish.isReached now) lanes others)
    (one : Regular lanes) (other : Regular others) : lanes.expire now = others.expire now :=
  (one.expire now).ext (other.expire now) fun pitch => by
    rw [laneOf_expire one.ordered, laneOf_expire other.ordered, Lane.expire_eq_seen,
      Lane.expire_eq_seen, agree pitch]

end Agree

end Lanes

end Melody
