import Melody.Note.Resolution

/-! Groups of notes, sorted by start and free of conflicts. -/

namespace Melody

/-- Notes in order with the strategy that settles their conflicts. -/
structure Group (α : Type) where
  notes : List (Note α) := []
  strategy : Strategy := {}
deriving DecidableEq, Repr

namespace Group

variable {α : Type} [Scalar α]

/-- The group of some notes. -/
def ofNotes (notes : List (Note α)) (strategy : Strategy := {}) : Group α :=
  ⟨Resolution.settle strategy notes, strategy⟩

/-- Two groups are the same when they have the same notes and the same strategy. -/
def same (first second : Group α) : Bool :=
  first.strategy == second.strategy && first.notes.length == second.notes.length &&
    (first.notes.zip second.notes).all fun (note, other) => note.same other

/-- The earliest start of a note. -/
def start? (group : Group α) : Option α :=
  group.notes.head?.map Note.start

/-- The latest end of a note. -/
def finish? (group : Group α) : Option α :=
  match group.notes with
  | [] => none
  | note :: later =>
    some (later.foldl (fun latest next => Scalar.larger latest next.finish) note.finish)

/-- The group with more notes. -/
def addAll (group : Group α) (notes : List (Note α)) : Group α :=
  ofNotes (group.notes ++ notes) group.strategy

/-- The group with one more note. -/
def add (group : Group α) (note : Note α) : Group α :=
  group.addAll [note]

/-- Takes the note at a position in start order out of a group. -/
def remove? (group : Group α) (index : Nat) : Option (Note α × Group α) :=
  group.notes[index]?.map fun note =>
    (note, ofNotes (group.notes.eraseIdx index) group.strategy)

/-- The group of the notes that pass a test. -/
def retain (group : Group α) (keep : Note α → Bool) : Group α :=
  { group with notes := group.notes.filter keep }

/-- Moves notes one after the other up to the first that cannot be moved. -/
def shiftNotes (offset : α) : List (Note α) → List (Note α) × Except (Note.Error α) Unit
  | [] => ([], .ok ())
  | note :: later =>
    match note.shift offset with
    -- The notes behind the one that fails are not moved either.
    | .error error => (note :: later, .error error)
    | .ok moved =>
      let (rest, outcome) := shiftNotes offset later
      (moved :: rest, outcome)

/-- Moves every note in time, after a check of the earliest start. -/
def shift (group : Group α) (offset : α) : Group α × Except (Note.Error α) Unit :=
  -- The note that starts first fails first, before any note has moved.
  match group.start?.map fun start => Note.checkStart (start + offset) with
  | some (.error error) => (group, .error error)
  | _ =>
    let (notes, outcome) := shiftNotes offset group.notes
    ({ group with notes }, outcome)

/-- Moves every note in pitch. -/
def transpose (group : Group α) (interval : Interval) : Group α :=
  { group with notes := group.notes.map (·.transpose interval) }

/-- Scales the velocity of every note. -/
def amplify (group : Group α) (factor : α) : Except (Note.Error α) (Group α) := do
  let notes ← group.notes.mapM (·.amplify factor)
  return { group with notes }

end Group

end Melody
