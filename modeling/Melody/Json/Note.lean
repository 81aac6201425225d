import Melody.Json.Record
import Melody.Json.Writer
import Melody.Note.Group

/-! Notes and groups as JSON texts. -/

namespace Melody

open Json

/-- The names of the choices for overlapping notes. -/
def Overlap.names : List (String × Overlap) :=
  [("Merge", merge), ("Trim", trim), ("Remove", remove), ("First", first), ("Second", second)]

/-- The name of a choice for overlapping notes. -/
def Overlap.name : Overlap → String
  | merge => "Merge"
  | trim => "Trim"
  | remove => "Remove"
  | first => "First"
  | second => "Second"

/-- The names of the choices for coincident notes. -/
def Coincident.names : List (String × Coincident) :=
  [("Sum", sum), ("Remove", remove), ("Longer", longer), ("Shorter", shorter),
    ("MaxProperties", maxProperties)]

/-- The name of a choice for coincident notes. -/
def Coincident.name : Coincident → String
  | sum => "Sum"
  | remove => "Remove"
  | longer => "Longer"
  | shorter => "Shorter"
  | maxProperties => "MaxProperties"

variable {α : Type} [Scalar α] [Readout α] [Numeric α]

namespace Note

/-- The fields of a note that have been read. -/
structure Fields (α : Type) where
  pitch : Option Int := none
  start : Option α := none
  duration : Option α := none
  velocity : Option α := none
  pan : Option α := none

/-- The fields of a note. -/
def slots : List (Slot (Fields α)) := [
  .of "pitch" (·.pitch) (fun fields x => { fields with pitch := some x }) (readInteger α),
  .of "start" (·.start) (fun fields x => { fields with start := some x }) (readNumber α),
  .of "duration" (·.duration) (fun fields x => { fields with duration := some x }) (readNumber α),
  .of "vel" (·.velocity) (fun fields x => { fields with velocity := some x }) (readNumber α),
  .of "pan" (·.pan) (fun fields x => { fields with pan := some x }) (readNumber α)]

/-- The note of all fields, if it is valid. -/
def Fields.build (fields : Fields α) : Except Fault (Note α) := do
  let pitch ← need "pitch" fields.pitch
  let start ← need "start" fields.start
  let duration ← need "duration" fields.duration
  let velocity ← need "vel" fields.velocity
  let pan ← need "pan" fields.pan
  accept Error.message (ofParts ⟨pitch⟩ start duration velocity pan)

/-- Reads a note. -/
def read : Reader (Note α) :=
  readRecord α slots {} Fields.build

/-- Reads a text as a note. -/
def ofJson (text : String) : Except Fault (Note α) :=
  readWhole read text

/-- Writes a note. -/
def toJson (note : Note α) : String :=
  writeRecord [
    ("pitch", toString note.pitch.index),
    ("start", Numeric.write note.start),
    ("duration", Numeric.write note.duration),
    ("vel", Numeric.write note.velocity),
    ("pan", Numeric.write note.pan)]

end Note

namespace Strategy

/-- The fields of a strategy that have been read. -/
structure Fields where
  overlap : Option Overlap := none
  coincident : Option Coincident := none

variable (α)

/-- The fields of a strategy. -/
def slots : List (Slot Fields) := [
  .of "overlap" (·.overlap) (fun fields x => { fields with overlap := some x })
    (readChoice α Overlap.names),
  .of "coincident" (·.coincident) (fun fields x => { fields with coincident := some x })
    (readChoice α Coincident.names)]

/-- The strategy of both fields. -/
def Fields.build (fields : Fields) : Except Fault Strategy := do
  let overlap ← need "overlap" fields.overlap
  let coincident ← need "coincident" fields.coincident
  return ⟨overlap, coincident⟩

/-- Reads a strategy. -/
def read : Reader Strategy :=
  readRecord α (slots α) {} Fields.build

/-- Writes a strategy. -/
def toJson (strategy : Strategy) : String :=
  writeRecord [
    ("overlap", writeString strategy.overlap.name),
    ("coincident", writeString strategy.coincident.name)]

end Strategy

namespace Group

/-- The fields of a group that have been read. -/
structure Fields (α : Type) where
  notes : Option (List (Note α)) := none
  strategy : Option Strategy := none

/-- The fields of a group, which goes without a strategy if none is given. -/
def slots : List (Slot (Fields α)) := [
  .of "notes" (·.notes) (fun fields x => { fields with notes := some x })
    (readList α Note.read),
  .of "strategy" (·.strategy) (fun fields x => { fields with strategy := some x })
    (Strategy.read α) true]

/-- The group of some notes, their conflicts being settled. -/
def Fields.build (fields : Fields α) : Except Fault (Group α) := do
  let notes ← need "notes" fields.notes
  return ofNotes notes (fields.strategy.getD {})

/-- Reads a text as a group. -/
def ofJson (text : String) : Except Fault (Group α) :=
  readWhole (readRecord α slots {} Fields.build) text

/-- Writes a group. -/
def toJson (group : Group α) : String :=
  writeRecord [
    ("notes", writeArray (group.notes.map Note.toJson)),
    ("strategy", group.strategy.toJson)]

end Group

end Melody
