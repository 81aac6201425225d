import Melody.Json.Record
import Melody.Proofs.Outcome

/-! What holds of the values that are read from any text, however the text orders them. -/

namespace Melody.Json

variable {α : Type} [Numeric α] {β σ : Type}

/-- A property holds of every value that is read. -/
def Reader.Gives (read : Reader β) (holds : β → Prop) : Prop :=
  ∀ text value rest, read text = .ok (value, rest) → holds value

/-- A field keeps a property of a record when it is read into it. -/
def Slot.Keeps (slot : Slot σ) (holds : σ → Prop) : Prop :=
  ∀ record text next rest, holds record → slot.read record text = .ok (next, rest) → holds next

/-- A field keeps what the values of its reader allow to keep. -/
theorem Slot.keeps_of {name : String} {get : σ → Option β} {put : σ → β → σ} {read : Reader β}
    {optional : Bool} {holds : σ → Prop} {given : β → Prop} (gives : Reader.Gives read given)
    (kept : ∀ record value, holds record → given value → holds (put record value)) :
    (Slot.of name get put read optional).Keeps holds := by
  intro record text next rest held filled
  -- The only change to the record is the value that was read.
  obtain ⟨⟨value, behind⟩, found, same⟩ := bind_eq_ok.mp filled
  cases same
  exact kept record value held (gives _ _ _ found)

section Lists

variable {item : Reader β} {holds : β → Prop}

/-- Reads an item of a list, which must be there, and the items behind it. -/
def readListItem (item : Reader β) (steps : Nat) : Reader (List β) := fun text =>
  match skipSpace text with
  | ']' :: _ => .error .malformed
  | rest => do
    let (value, rest) ← item rest
    let (later, rest) ← readListFrom item steps false rest
    return (value :: later, rest)

/-- A round of reading a list: it ends, or an item is read where one may stand. -/
theorem readListFrom_succ (item : Reader β) (steps : Nat) (first : Bool) (text : List Char) :
    readListFrom item (steps + 1) first text =
      match first, skipSpace text with
      | _, [] => .error .endOfText
      | _, ']' :: rest => .ok ([], rest)
      | true, rest => readListItem item steps rest
      | false, ',' :: rest => readListItem item steps rest
      | false, _ => .error .malformed := by
  unfold readListFrom
  rfl

/-- Items that are read one after the other have the property that each of them has. -/
theorem readListFrom_gives (gives : Reader.Gives item holds) (steps : Nat) (first : Bool) :
    Reader.Gives (readListFrom item steps first) fun values => ∀ value ∈ values, holds value := by
  -- The induction is on the rounds, as an item and those behind it share them.
  induction steps generalizing first with
  | zero =>
    intro text values rest read
    contradiction
  | succ steps ih =>
    -- Where an item is read, it has the property, and so have those of the rounds that are left.
    have further : Reader.Gives (readListItem item steps)
        fun values => ∀ value ∈ values, holds value := by
      intro text values rest read
      unfold readListItem at read
      split at read
      · contradiction
      · obtain ⟨⟨value, behind⟩, found, read⟩ := bind_eq_ok.mp read
        obtain ⟨⟨later, after⟩, others, same⟩ := bind_eq_ok.mp read
        cases same
        exact List.forall_mem_cons.mpr ⟨gives _ _ _ found, ih false _ _ _ others⟩
    intro text values rest read
    -- Otherwise the list ends or is at fault, whichever mark comes first.
    rw [readListFrom_succ] at read
    split at read
    · contradiction
    · cases read
      exact List.forall_mem_nil _
    · exact further _ _ _ read
    · exact further _ _ _ read
    · contradiction

/-- Items that are read as a list have the property that each of them has. -/
theorem readList_gives (gives : Reader.Gives item holds) :
    Reader.Gives (readList α item) fun values => ∀ value ∈ values, holds value := by
  intro text values rest read
  unfold readList at read
  -- Without an opening bracket nothing is read.
  split at read
  · exact readListFrom_gives gives _ true _ _ _ read
  · contradiction

end Lists

section Records

variable {slots : List (Slot σ)} {holds : σ → Prop}

/-- A field that is read by name keeps what its slot keeps, and one that is passed over anything. -/
theorem readField_gives (keeps : ∀ slot ∈ slots, slot.Keeps holds) {record : σ}
    (held : holds record) (name : List Char) :
    Reader.Gives (readField α slots record name) holds := by
  intro text next rest read
  unfold readField at read
  -- A name that no slot has is passed over, and leaves the record as it was.
  split at read
  · rename_i slot found
    split at read
    · contradiction
    · obtain ⟨_, _, read⟩ := bind_eq_ok.mp read
      -- The slot found is one of those that keep the property.
      exact keeps slot (List.mem_of_find?_eq_some found) _ _ _ _ held read
  · obtain ⟨_, _, read⟩ := bind_eq_ok.mp read
    obtain ⟨_, _, same⟩ := bind_eq_ok.mp read
    cases same
    exact held

variable (α) in
/-- Reads a field with its name, and the fields behind it. -/
def readNamedField (slots : List (Slot σ)) (steps : Nat) (record : σ) : Reader σ := fun text => do
  let (_, rest) ← expect '"' (skipSpace text)
  let (name, rest) ← scanString true rest
  let (record, rest) ← readField α slots record name rest
  readNamed α slots steps false record rest

/-- A round of reading named fields: they end, or one is read where one may stand. -/
theorem readNamed_succ (slots : List (Slot σ)) (steps : Nat) (first : Bool) (record : σ)
    (text : List Char) :
    readNamed α slots (steps + 1) first record text =
      match skipSpace text with
      | [] => .error .endOfText
      | c :: rest =>
        if c = Char.ofNat 0x7d then .ok (record, rest)
        else if first then readNamedField α slots steps record (c :: rest)
        else if c = ',' then readNamedField α slots steps record rest
        else .error .malformed := by
  unfold readNamed
  rfl

/-- Fields that are read by their names keep what each of their slots keeps. -/
theorem readNamed_gives (keeps : ∀ slot ∈ slots, slot.Keeps holds) {record : σ}
    (held : holds record) (steps : Nat) (first : Bool) :
    Reader.Gives (readNamed α slots steps first record) holds := by
  -- The record that a round starts from keeps the property, whichever fields it has by then.
  induction steps generalizing first record with
  | zero =>
    intro text last rest read
    contradiction
  | succ steps ih =>
    -- A field that is read keeps it, and the rounds that are left go on from there.
    have further : Reader.Gives (readNamedField α slots steps record) holds := by
      intro text last rest read
      obtain ⟨_, _, read⟩ := bind_eq_ok.mp read
      obtain ⟨⟨name, _⟩, _, read⟩ := bind_eq_ok.mp read
      obtain ⟨_, filled, read⟩ := bind_eq_ok.mp read
      exact ih (readField_gives keeps held name _ _ _ filled) false _ _ _ read
    intro text last rest read
    -- The text ends here, goes on with a field, or is at fault.
    rw [readNamed_succ] at read
    split at read
    · contradiction
    · split at read
      · cases read
        exact held
      · split at read
        · exact further _ _ _ read
        · split at read
          · exact further _ _ _ read
          · contradiction

/-- Reads a field that stands in its place, and the fields behind it. -/
def readPlacedField (slot : Slot σ) (later : List (Slot σ)) (record : σ) : Reader σ := fun text =>
  match skipSpace text with
  | ']' :: _ => .error .malformed
  | rest => do
    let (record, rest) ← slot.read record rest
    readOrdered later false record rest

/-- A round of reading fields in their order: the list ends before an optional field, or the field
is read. -/
theorem readOrdered_cons (slot : Slot σ) (later : List (Slot σ)) (first : Bool) (record : σ)
    (text : List Char) :
    readOrdered (slot :: later) first record text =
      match first, skipSpace text with
      | _, [] => .error .endOfText
      | first, ']' :: rest =>
        if slot.optional then readOrdered later first record (']' :: rest)
        else mismatched .wrongLength
      | true, rest => readPlacedField slot later record rest
      | false, ',' :: rest => readPlacedField slot later record rest
      | false, _ => .error .malformed := by
  rw [readOrdered.eq_def]
  rfl

/-- Fields that are read in their order keep what each of their slots keeps. -/
theorem readOrdered_gives (keeps : ∀ slot ∈ slots, slot.Keeps holds) {record : σ}
    (held : holds record) (first : Bool) :
    Reader.Gives (readOrdered slots first record) holds := by
  -- The induction is on the slots that are still to be read.
  induction slots generalizing first record with
  | nil =>
    intro text last rest read
    obtain ⟨_, _, same⟩ := bind_eq_ok.mp read
    cases same
    exact held
  | cons slot later ih =>
    obtain ⟨keep, others⟩ := List.forall_mem_cons.mp keeps
    -- The field read keeps the property by its own slot, and the others by theirs.
    have further : Reader.Gives (readPlacedField slot later record) holds := by
      intro text last rest read
      unfold readPlacedField at read
      split at read
      · contradiction
      · obtain ⟨_, filled, read⟩ := bind_eq_ok.mp read
        exact ih others (keep _ _ _ _ held filled) false _ _ _ read
    intro text last rest read
    -- A list that ends early leaves optional fields as they were.
    rw [readOrdered_cons] at read
    split at read
    · contradiction
    · split at read
      · exact ih others held _ _ _ _ read
      · contradiction
    · exact further _ _ _ read
    · exact further _ _ _ read
    · contradiction

/-- A value that is read as a record is made of fields that keep what holds without any. -/
theorem readRecord_gives {empty : σ} {build : σ → Except Fault β} {result : β → Prop}
    (keeps : ∀ slot ∈ slots, slot.Keeps holds) (held : holds empty)
    (built : ∀ record value, holds record → build record = .ok value → result value) :
    Reader.Gives (readRecord α slots empty build) result := by
  intro text value rest read
  -- Both ways to write a record end with building the value from what was filled in.
  have last : ∀ {record? : Except Fault (σ × List Char)},
      (∀ {record rest}, record? = .ok (record, rest) → holds record) → (do
        let (record, rest) ← record?
        return (← build record, rest)) = Except.ok (value, rest) → result value := by
    intro record? gives read
    obtain ⟨_, filled, read⟩ := bind_eq_ok.mp read
    obtain ⟨_, made, same⟩ := bind_eq_ok.mp read
    cases same
    exact built _ _ (gives filled) made
  -- A record is written as a list in order or by names.
  unfold readRecord at read
  split at read
  · contradiction
  · exact last (readOrdered_gives keeps held true _ _ _) read
  · split at read
    · exact last (readNamed_gives keeps held _ true _ _ _) read
    · contradiction

end Records

/-- A field that must be there is there. -/
theorem need_eq_ok {name : String} {value? : Option β} {value : β} :
    need name value? = .ok value ↔ value? = some value := by
  cases value? with
  | none => simp [need, mismatched]
  | some found => simp [need]

/-- Only valid data is accepted. -/
theorem accept_eq_ok {ε : Type} {message : ε → String} {outcome : Except ε β} {value : β} :
    accept message outcome = .ok value ↔ outcome = .ok value := by
  cases outcome with
  | error cause => exact iff_of_false nofun nofun
  | ok found =>
    show Except.ok found = Except.ok value ↔ _
    simp

/-- A value that is read as a whole text has the property that its reader gives. -/
theorem readWhole_gives {read : Reader β} {result : β → Prop} (gives : Reader.Gives read result)
    {text : String} {value : β} (whole : readWhole read text = .ok value) : result value := by
  obtain ⟨⟨_, rest⟩, found, ended⟩ := bind_eq_ok.mp whole
  dsimp only at ended
  -- What is left must be blank, and does not change the value.
  split at ended
  · cases ended
    exact gives _ _ _ found
  · contradiction

end Melody.Json
