import Melody.Envelope.Basic
import Melody.Json.Tagged
import Melody.Json.Writer

/-! Segments and envelopes as JSON texts. -/

namespace Melody

open Json

variable {α : Type} [Numeric α]

namespace Point

/-- The coordinates of a point that have been read. -/
structure Fields (α : Type) where
  x : Option α := none
  y : Option α := none

/-- The coordinates of a point. -/
def slots : List (Slot (Fields α)) := [
  .of "x" (·.x) (fun fields x => { fields with x := some x }) (readNumber α),
  .of "y" (·.y) (fun fields y => { fields with y := some y }) (readNumber α)]

/-- The coordinates of a point that is kept as a whole. -/
def kept : List (Kept (Fields α)) := [
  .of "x" (·.x) (fun fields x => { fields with x := some x }) Value.toNumber,
  .of "y" (·.y) (fun fields y => { fields with y := some y }) Value.toNumber]

/-- The point of both coordinates. -/
def Fields.build (fields : Fields α) : Except Fault (Point α) := do
  let x ← need "x" fields.x
  let y ← need "y" fields.y
  return ⟨x, y⟩

/-- Reads a point. -/
def read : Reader (Point α) :=
  readRecord α slots {} Fields.build

/-- The point that a value is. -/
def ofValue (value : Value) : Except Fault (Point α) := do
  (← takeRecord kept {} value).build

/-- Writes a point. -/
def toJson (point : Point α) : String :=
  writeRecord [("x", Numeric.write point.x), ("y", Numeric.write point.y)]

end Point

namespace Shape

/-- The kinds of curves. -/
inductive Kind where
  | linear
  | exponential
  | quadratic
deriving DecidableEq, Repr

/-- The names of the kinds of curves. -/
def Kind.names : List (String × Kind) :=
  [("linear", linear), ("exponential", exponential), ("quadratic", quadratic)]

/-- The curve of a kind with the values that are kept for it. -/
def ofValue (kind : Kind) (value : Value) : Except Fault (Shape α) :=
  match kind with
  | .linear => (takeRecord (σ := Unit) [] () value).map fun _ => .linear
  | .exponential => do
    let middle := Kept.of "mid_y" id (fun _ y => some y) Value.toNumber
    return .exponential (← need "mid_y" (← takeRecord [middle] none value))
  | .quadratic => do
    let control := Kept.of "control" id (fun _ point => some point) Point.ofValue
    return .quadratic (← need "control" (← takeRecord [control] none value))

/-- Reads a curve at a given depth. -/
def read (depth : Nat) : Reader (Shape α) := fun text => do
  let ((kind, value), rest) ← readTagged α "type" Kind.names depth text
  return (← ofValue kind value, rest)

/-- Writes a curve. -/
def toJson : Shape α → String
  | linear => writeRecord [("type", writeString "linear")]
  | exponential middle =>
    writeRecord [("type", writeString "exponential"), ("mid_y", Numeric.write middle)]
  | quadratic control =>
    writeRecord [("type", writeString "quadratic"), ("control", control.toJson)]

end Shape

variable [Scalar α] [Readout α]

namespace Segment

/-- The fields of a segment that have been read. -/
structure Fields (α : Type) where
  start : Option (Point α) := none
  finish : Option (Point α) := none
  shape : Option (Shape α) := none

/-- The fields of a segment at a given depth. -/
def slots (depth : Nat) : List (Slot (Fields α)) := [
  .of "start" (·.start) (fun fields x => { fields with start := some x }) Point.read,
  .of "end" (·.finish) (fun fields x => { fields with finish := some x }) Point.read,
  .of "shape" (·.shape) (fun fields x => { fields with shape := some x })
    (Shape.read (depth + 1))]

/-- The segment of all fields, if it is valid. -/
def Fields.build (fields : Fields α) : Except Fault (Segment α) := do
  let start ← need "start" fields.start
  let finish ← need "end" fields.finish
  let shape ← need "shape" fields.shape
  accept CurveError.message (make start finish shape)

/-- Reads a segment at a given depth. -/
def read (depth : Nat) : Reader (Segment α) :=
  readRecord α (slots depth) {} Fields.build

/-- Reads a text as a segment. -/
def ofJson (text : String) : Except Fault (Segment α) :=
  readWhole (read 0) text

omit [Scalar α] [Readout α] in
/-- Writes a segment. -/
def toJson (s : Segment α) : String :=
  writeRecord [
    ("start", s.start.toJson), ("end", s.finish.toJson), ("shape", s.shape.toJson)]

end Segment

namespace Envelope

/-- The fields of an envelope. -/
def slots : List (Slot (Option (List (Segment α)))) := [
  -- Segments are two levels deep, in a list in a record.
  .of "segments" id (fun _ segments => some segments) (readList α (Segment.read 2))]

/-- Reads a text as an envelope. -/
def ofJson (text : String) : Except Fault (Envelope α) :=
  readWhole (readRecord α slots none fun segments? => do
    accept CurveError.message (ofSegments (← need "segments" segments?))) text

omit [Scalar α] [Readout α] in
/-- Writes an envelope. -/
def toJson (envelope : Envelope α) : String :=
  writeRecord [("segments", writeArray (envelope.segments.map Segment.toJson))]

end Envelope

end Melody
