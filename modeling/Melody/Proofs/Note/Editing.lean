import Melody.Proofs.Note.Reloading

/-! Groups are settled all along a run of edits, texts that are read among them. -/

namespace Melody.Group

open Json

/-- What can be done to a group. -/
inductive Edit where
  /-- Makes a new group of some notes. -/
  | renew (notes : List (Note ℚ)) (strategy : Strategy)
  | add (note : Note ℚ)
  | addAll (notes : List (Note ℚ))
  | remove (index : Nat)
  | retain (keep : Note ℚ → Bool)
  | shift (offset : ℚ)
  | transpose (interval : Interval)
  | amplify (factor : ℚ)
  /-- Reads a new group from a text. -/
  | reload (text : String)

namespace Edit

/-- The notes that an edit brings in are valid, and no pitch leaves the range of 32 bits. -/
def Fit (group : Group ℚ) : Edit → Prop
  | renew notes _ => ∀ note ∈ notes, note.Valid ∧ IsWord note.pitch.index
  | add note => note.Valid ∧ IsWord note.pitch.index
  | addAll notes => ∀ note ∈ notes, note.Valid ∧ IsWord note.pitch.index
  | transpose interval => ∀ note ∈ group.notes, IsWord (note.pitch + interval).index
  | remove _ | retain _ | shift _ | amplify _ | reload _ => True

variable [Readout ℚ] [Numeric ℚ]

/-- The group after an edit, which is as it was if the edit is refused. -/
def perform (group : Group ℚ) : Edit → Group ℚ
  | renew notes strategy => .ofNotes notes strategy
  | add note => group.add note
  | addAll notes => group.addAll notes
  | remove index => ((group.remove? index).map Prod.snd).getD group
  | retain keep => group.retain keep
  | shift offset => (group.shift offset).1
  | transpose interval => group.transpose interval
  | amplify factor => (group.amplify factor).toOption.getD group
  | reload text => (Group.ofJson text).toOption.getD group

/-- Edits fit one after the other. -/
def Fitting : Group ℚ → List Edit → Prop
  | _, [] => True
  | group, edit :: later => edit.Fit group ∧ Fitting (perform group edit) later

end Edit

section Runs

variable [Readout ℚ] [Numeric ℚ]

/-- An edit leaves a settled group settled. -/
theorem Settled.perform {group : Group ℚ} (settled : group.Settled) {edit : Edit}
    (fit : edit.Fit group) : (edit.perform group).Settled := by
  -- An edit that fails leaves the group as it was; all others have a lemma of their own.
  cases edit with
  | renew notes strategy =>
    exact .ofNotes (fun note member => (fit note member).1)
      (fun note member => (fit note member).2) _
  | add note => exact settled.addAll (List.forall_mem_singleton.mpr fit)
  | addAll notes => exact settled.addAll fit
  | remove index =>
    show (((group.remove? index).map Prod.snd).getD group).Settled
    rw [settled.remove?_eq]
    cases group.notes[index]? with
    | none => exact settled
    | some note => exact settled.sublist (List.eraseIdx_sublist ..)
  | retain keep => exact settled.sublist List.filter_sublist
  | shift offset => exact settled.shift offset
  | transpose interval => exact settled.transpose fit
  | amplify factor =>
    show ((group.amplify factor).toOption.getD group).Settled
    cases amplified : group.amplify factor with
    | error error => exact settled
    | ok next => exact settled.amplify amplified
  | reload text =>
    show ((Group.ofJson text).toOption.getD group).Settled
    cases read : (Group.ofJson text : Except Fault (Group ℚ)) with
    | error fault => exact settled
    | ok next => exact settled_of_ofJson read

/-- A settled group is settled all along the edits that follow. -/
theorem Settled.scanl {group next : Group ℚ} (settled : group.Settled) {edits : List Edit}
    (fit : Edit.Fitting group edits) (reached : next ∈ edits.scanl Edit.perform group) :
    next.Settled := by
  -- The induction is on the edits, from whichever group they start.
  induction edits generalizing group with
  | nil =>
    cases List.mem_singleton.mp reached
    exact settled
  | cons edit later ih =>
    obtain ⟨first, others⟩ := fit
    rw [List.scanl_cons] at reached
    rcases List.mem_cons.mp reached with rfl | behind
    · exact settled
    · exact ih (settled.perform first) others behind

/-- At all times of a run of edits a group is in order, free of conflicts and valid, notes that are
taken out leave the others as they were, and the group is read back from the text written for it. -/
theorem edits_settled (holds : HoldsWhole ℚ) {edits : List Edit} (fit : Edit.Fitting {} edits)
    {group : Group ℚ} (reached : group ∈ edits.scanl Edit.perform {}) :
    group.Settled ∧
      (∀ index, group.remove? index = group.notes[index]?.map fun note =>
        (note, { group with notes := group.notes.eraseIdx index })) ∧
      (∀ keep, group.retain keep = { group with notes := group.notes.filter keep }) ∧
      ((∀ note ∈ group.notes, note.ReadsBack) → Group.ofJson group.toJson = .ok group) := by
  have settled := Settled.empty.scanl fit reached
  exact ⟨settled, settled.remove?_eq, fun _ => rfl, settled.ofJson_toJson holds⟩

end Runs

/-- Rational numbers that are written with one digit behind the point, and read exactly. -/
abbrev tenths : Numeric ℚ where
  ofNumeral? number :=
    let power : ℚ := 10 ^ number.exponent.natAbs
    let size := if number.exponent < 0 then number.significand / power
      else number.significand * power
    some (if number.negative then -size else size)
  write x :=
    let count := x.num.natAbs * 10 / x.den
    (if x < 0 then "-" else "") ++ toString (count / 10) ++ "." ++ toString (count % 10)

/-- Rational numbers that are spelled in messages as they are written in texts. -/
abbrev spelled : Readout ℚ :=
  ⟨tenths.write, tenths.write⟩

/-- Two notes that overlap are put together, and the group is moved, raised and made quieter. -/
def rehearsal : List Edit :=
  [.renew [⟨⟨60⟩, 0, 1, 1, 0⟩, ⟨⟨60⟩, 1 / 2, 1, 1, -1 / 2⟩] {}, .shift 1, .transpose ⟨12⟩,
    .amplify (1 / 2)]

/-- The group at the end of the rehearsal. -/
def rehearsed : Group ℚ :=
  { notes := [⟨⟨72⟩, 1, 1 / 2, 1 / 2, 0⟩, ⟨⟨72⟩, 3 / 2, 1, 1 / 2, -1 / 2⟩] }

/-- The rehearsed group is settled, and is read back from the text that is written for it. -/
theorem edits_settled_rehearsed :
    letI := tenths
    letI := spelled
    HoldsWhole ℚ ∧ Edit.Fitting {} rehearsal ∧ rehearsed ∈ rehearsal.scanl Edit.perform {} ∧
      (∀ note ∈ rehearsed.notes, note.ReadsBack) ∧ rehearsed.Settled ∧
      Group.ofJson rehearsed.toJson = .ok rehearsed := by
  let := tenths
  let := spelled
  have holds : HoldsWhole ℚ := fun _ _ => rfl
  have fit : Edit.Fitting {} rehearsal := by
    refine ⟨?_, trivial, ?_, trivial, trivial⟩
    · refine List.forall_mem_cons.mpr
        ⟨⟨?_, by decide⟩, List.forall_mem_singleton.mpr ⟨?_, by decide⟩⟩
      all_goals constructor <;> norm_num
    · have raised : ((Edit.perform (Edit.perform {} rehearsal[0]) rehearsal[1]).notes.all
          fun note => decide (IsWord (note.transpose ⟨12⟩).pitch.index)) = true := by cbv
      intro note member
      exact of_decide_eq_true (List.all_eq_true.mp raised note member)
  -- The edits are run once, and the group they end with is compared.
  have reached : rehearsed ∈ rehearsal.scanl Edit.perform {} := by
    have last : (rehearsal.scanl Edit.perform {})[4]? = some rehearsed := by cbv
    exact List.mem_of_getElem? last
  have back : ∀ note ∈ rehearsed.notes, note.ReadsBack := by
    simp only [rehearsed, List.forall_mem_cons]
    refine ⟨⟨?_, ?_, ?_, ?_⟩, ⟨?_, ?_, ?_, ?_⟩, List.forall_mem_nil _⟩
    all_goals
      unfold Json.ReadsBack
      cbv
  obtain ⟨settled, _, _, reloaded⟩ := edits_settled holds fit reached
  exact ⟨holds, fit, reached, back, settled, reloaded back⟩

end Melody.Group
