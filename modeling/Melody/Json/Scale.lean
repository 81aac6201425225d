import Melody.Json.Record
import Melody.Json.Writer
import Melody.Tuning.Scale

/-! Scales as JSON texts. -/

namespace Melody.Scale

open Json

variable {α : Type} [Scalar α] [Readout α] [Numeric α]

/-- The fields of a scale that have been read. -/
structure Fields (α : Type) where
  description : Option (List Char) := none
  degrees : Option (List α) := none

/-- The fields of a scale. -/
def slots : List (Slot (Fields α)) := [
  .of "description" (·.description) (fun fields x => { fields with description := some x })
    (readString α),
  .of "degrees" (·.degrees) (fun fields x => { fields with degrees := some x })
    (readList α (readNumber α))]

/-- The scale of all fields, if it is valid. -/
def Fields.build (fields : Fields α) : Except Fault (Scale α) := do
  let description ← need "description" fields.description
  let degrees ← need "degrees" fields.degrees
  accept TuningError.message (ofDegrees (String.ofList description) degrees)

/-- Reads a text as a scale. -/
def ofJson (text : String) : Except Fault (Scale α) :=
  readWhole (readRecord α slots {} Fields.build) text

/-- Writes a scale. -/
def toJson (scale : Scale α) : String :=
  writeRecord [
    ("description", writeString scale.description),
    ("degrees", writeArray (scale.degrees.map Numeric.write))]

end Melody.Scale
