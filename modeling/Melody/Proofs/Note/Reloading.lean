import Melody.Json.Note
import Melody.Proofs.Json.Writing
import Melody.Proofs.Note.Settled

/-! Groups that are read from a text are settled, and settled groups are read back as they were. -/

namespace Melody

open Json

section Reading

variable [Numeric ℚ]

/-- The pitch that has been read has 32 bits. -/
def Note.Fields.Word (fields : Note.Fields ℚ) : Prop :=
  ∀ index, fields.pitch = some index → IsWord index

/-- Every field of a note keeps the pitch within 32 bits. -/
theorem Note.slots_keep :
    ∀ slot ∈ (slots : List (Json.Slot (Fields ℚ))), slot.Keeps Fields.Word := by
  -- Only the pitch is read as a whole number, which fits a word.
  have pitched : Reader.Gives (readInteger ℚ) IsWord := fun _ _ _ => word_of_readInteger
  have valued : Reader.Gives (readNumber ℚ) fun _ => True := fun _ _ _ _ => trivial
  simp only [slots, List.forall_mem_cons]
  refine ⟨Slot.keeps_of pitched fun _ _ _ word => ?_, Slot.keeps_of valued fun _ _ word _ => word,
    Slot.keeps_of valued fun _ _ word _ => word, Slot.keeps_of valued fun _ _ word _ => word,
    Slot.keeps_of valued fun _ _ word _ => word, List.forall_mem_nil _⟩
  rintro index ⟨⟩
  exact word

variable [Readout ℚ]

/-- A note that is read is valid, and its pitch has 32 bits. -/
theorem Note.read_gives : Reader.Gives (Note.read : Reader (Note ℚ)) fun note =>
    note.Valid ∧ IsWord note.pitch.index := by
  have unread : (Fields.Word {} : Prop) := fun _ none => nomatch none
  refine readRecord_gives slots_keep unread fun fields note word built => ?_
  obtain ⟨index, pitched, built⟩ := bind_eq_ok.mp built
  obtain ⟨start, _, built⟩ := bind_eq_ok.mp built
  obtain ⟨duration, _, built⟩ := bind_eq_ok.mp built
  obtain ⟨velocity, _, built⟩ := bind_eq_ok.mp built
  obtain ⟨pan, _, built⟩ := bind_eq_ok.mp built
  -- The pitch was checked when it was read, and the other values are when the note is made.
  obtain ⟨same, valid⟩ :=
    (@ofParts_eq_ok_iff ℚ ExactScalar.rational _ _ _ _ _ _).mp (accept_eq_ok.mp built)
  refine ⟨valid, ?_⟩
  rw [same]
  exact word index (need_eq_ok.mp pitched)

/-- The notes that have been read are valid, and their pitches have 32 bits. -/
def Group.Fields.Valid (fields : Group.Fields ℚ) : Prop :=
  ∀ notes, fields.notes = some notes → ∀ note ∈ notes, note.Valid ∧ IsWord note.pitch.index

/-- Every field of a group keeps its notes valid. -/
theorem Group.slots_keep :
    ∀ slot ∈ (slots : List (Json.Slot (Fields ℚ))), slot.Keeps Fields.Valid := by
  -- The list of notes is checked note by note, and every strategy is valid.
  have chosen : Reader.Gives (Strategy.read ℚ) fun _ => True := fun _ _ _ _ => trivial
  simp only [slots, List.forall_mem_cons]
  refine ⟨Slot.keeps_of (readList_gives Note.read_gives) fun _ _ _ valid => ?_,
    Slot.keeps_of chosen fun _ _ valid _ => valid, List.forall_mem_nil _⟩
  rintro notes ⟨⟩
  exact valid

/-- A text is read as a settled group, if it is read at all. -/
theorem Group.settled_of_ofJson {text : String} {group : Group ℚ}
    (read : Group.ofJson text = .ok group) : group.Settled := by
  have unread : (Fields.Valid {} : Prop) := fun _ none => nomatch none
  refine readWhole_gives
    (readRecord_gives slots_keep unread fun fields group valid built => ?_) read
  obtain ⟨notes, found, same⟩ := bind_eq_ok.mp built
  cases same
  -- Each note of the list was checked when it was read.
  have each := valid notes (need_eq_ok.mp found)
  exact .ofNotes (fun note member => (each note member).1)
    (fun note member => (each note member).2) _

end Reading

section Writing

variable {α : Type} [Numeric α]

namespace Strategy

/-- A way to resolve overlaps is chosen by its name. -/
theorem choose_overlap (choice : Overlap) :
    choose Overlap.names choice.name.toList = .ok choice := by
  cases choice <;> rfl

/-- A way to resolve coincident notes is chosen by its name. -/
theorem choose_coincident (choice : Coincident) :
    choose Coincident.names choice.name.toList = .ok choice := by
  cases choice <;> rfl

/-- A strategy is read back from its text. -/
theorem reads (strategy : Strategy) : Reads (Strategy.read α) strategy.toJson.toList strategy := by
  have overlap : Plain strategy.overlap.name.toList := by
    cases strategy.overlap <;> decide
  have coincident : Plain strategy.coincident.name.toList := by
    cases strategy.coincident <;> decide
  have names : (slots α).map (·.name) = ["overlap", "coincident"] := rfl
  -- The two fields are read into their slots in the order they are written.
  have fills : Fills (slots α) {} [
      ("overlap", writeString strategy.overlap.name),
      ("coincident", writeString strategy.coincident.name)]
      ⟨some strategy.overlap, some strategy.coincident⟩ := by
    refine .cons rfl (by decide) rfl (Slot.reads_of (reads_choice overlap (choose_overlap _)) _) ?_
    refine .cons rfl (by decide) rfl
      (Slot.reads_of (reads_choice coincident (choose_coincident _)) _) ?_
    exact .nil
  exact reads_record (named_of_nodup names (by decide)) fills rfl

end Strategy

variable [Readout ℚ] [Numeric ℚ]

/-- A number is read back from the text that is written for it. -/
def Json.ReadsBack (x : ℚ) : Prop :=
  readNumber ℚ (Numeric.write x).toList = .ok (x, [])

/-- The numbers of a note are read back from the texts that are written for them. -/
structure Note.ReadsBack (note : Note ℚ) : Prop where
  start : Json.ReadsBack note.start
  duration : Json.ReadsBack note.duration
  velocity : Json.ReadsBack note.velocity
  pan : Json.ReadsBack note.pan

/-- A valid note is read back from its text if its numbers are. -/
theorem Note.reads (holds : HoldsWhole ℚ) {note : Note ℚ} (valid : note.Valid)
    (word : IsWord note.pitch.index) (back : note.ReadsBack) :
    Reads Note.read note.toJson.toList note := by
  have names : (slots : List (Json.Slot (Fields ℚ))).map (·.name) =
      ["pitch", "start", "duration", "vel", "pan"] := rfl
  -- The five fields are read into their slots in the order they are written.
  have fills : Fills (slots : List (Json.Slot (Fields ℚ))) {} [
      ("pitch", toString note.pitch.index),
      ("start", Numeric.write note.start),
      ("duration", Numeric.write note.duration),
      ("vel", Numeric.write note.velocity),
      ("pan", Numeric.write note.pan)]
      ⟨some note.pitch.index, some note.start, some note.duration, some note.velocity,
        some note.pan⟩ := by
    refine .cons rfl (by decide) rfl (Slot.reads_of (reads_integer holds word) _) ?_
    refine .cons rfl (by decide) rfl (Slot.reads_of (reads_number back.start) _) ?_
    refine .cons rfl (by decide) rfl (Slot.reads_of (reads_number back.duration) _) ?_
    refine .cons rfl (by decide) rfl (Slot.reads_of (reads_number back.velocity) _) ?_
    refine .cons rfl (by decide) rfl (Slot.reads_of (reads_number back.pan) _) ?_
    exact .nil
  refine reads_record (named_of_nodup names (by decide)) fills ?_
  have made := (@ofParts_eq_ok_iff ℚ ExactScalar.rational _ _ _ _ _ _).mpr ⟨rfl, valid⟩
  show accept Error.message (ofParts note.pitch note.start note.duration note.velocity note.pan) = _
  rw [made]
  rfl

/-- A settled group is read back from its text if the numbers of its notes are. -/
theorem Group.Settled.ofJson_toJson (holds : HoldsWhole ℚ) {group : Group ℚ}
    (settled : group.Settled) (back : ∀ note ∈ group.notes, note.ReadsBack) :
    Group.ofJson group.toJson = .ok group := by
  have notes : Reads (readList ℚ Note.read) (writeArray (group.notes.map Note.toJson)).toList
      group.notes :=
    reads_list (fun note _ => opens_writeRecord _) fun note member =>
      Note.reads holds (settled.valid note member) (settled.words note member) (back note member)
  have names : (slots : List (Json.Slot (Fields ℚ))).map (·.name) = ["notes", "strategy"] := rfl
  -- The notes and the strategy are read into their slots as they are written.
  have fills : Fills (slots : List (Json.Slot (Fields ℚ))) {} [
      ("notes", writeArray (group.notes.map Note.toJson)),
      ("strategy", group.strategy.toJson)]
      ⟨some group.notes, some group.strategy⟩ := by
    refine .cons rfl (by decide) rfl (Slot.reads_of notes _) ?_
    refine .cons rfl (by decide) rfl (Slot.reads_of group.strategy.reads _) ?_
    exact .nil
  refine readWhole_of_reads (reads_record (named_of_nodup names (by decide)) fills ?_)
  show Except.ok (Group.ofNotes group.notes group.strategy) = _
  rw [settled.ofNotes_eq]

end Writing

end Melody
