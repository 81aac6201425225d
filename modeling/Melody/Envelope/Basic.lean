import Melody.Envelope.Segment

/-! Envelopes: contiguous sequences of segments. -/

namespace Melody

/-- Segments in order, each starting where the one before ends. -/
structure Envelope (α : Type) where
  segments : List (Segment α)
  nonempty : segments ≠ []
deriving DecidableEq

namespace Envelope

variable {α : Type}

section Construction

variable [Scalar α]

/-- The order of segments by the x values of their starts, then of their ends. -/
def inOrder (first second : Segment α) : Bool :=
  ((Scalar.order first.start.x second.start.x).then
    (Scalar.order first.finish.x second.finish.x)) != .gt

/-- The segments that follow a point, with a straight link across every gap. -/
def link (previous : Point α) : List (Segment α) → Except (CurveError α) (List (Segment α))
  | [] => .ok []
  | next :: later => do
    if next.start.x < previous.x then throw (.intersecting next.start.x previous.x)
    let linked ←
      if next.start.same previous then pure [next]
      else do pure [← Segment.make previous next.start .linear, next]
    return linked ++ (← link next.finish later)

/-- The envelope of some segments in any order, with every gap linked. -/
def ofSegments (segments : List (Segment α)) : Except (CurveError α) (Envelope α) :=
  match segments.mergeSort inOrder with
  | [] => .error .empty
  | first :: later => do
    let linked ← link first.finish later
    return ⟨first :: linked, List.cons_ne_nil _ _⟩

/-- A rise from silence to full scale and a fall to a level that is kept. -/
def attackDecay (attack decay sustain : α) : Except (CurveError α) (Envelope α) := do
  let peak : Point α := ⟨attack, 1.0⟩
  let rise ← Segment.make ⟨0.0, 0.0⟩ peak .linear
  let fall ← Segment.make peak ⟨attack + decay, sustain⟩ .linear
  ofSegments [rise, fall]

/-- A fall from full scale to silence. -/
def release (length : α) : Except (CurveError α) (Envelope α) := do
  ofSegments [← Segment.make ⟨0.0, 1.0⟩ ⟨length, 0.0⟩ .linear]

/-- Straight lines from a point through further points. -/
def lines (start : Point α) : List (Point α) → List (Segment α)
  | [] => []
  | next :: later => ⟨start, next, .linear⟩ :: lines next later

/-- Straight lines through two or more points in order. -/
def polyline (first second : Point α) (later : List (Point α)) : Envelope α :=
  ⟨lines first (second :: later), List.cons_ne_nil _ _⟩

/-- The envelope with every height scaled. -/
def scaleY (envelope : Envelope α) (factor : α) : Envelope α where
  segments := envelope.segments.map (·.scaleY factor)
  nonempty := by simpa using envelope.nonempty

end Construction

/-- The first segment. -/
def first (envelope : Envelope α) : Segment α :=
  envelope.segments.head envelope.nonempty

/-- The last segment. -/
def last (envelope : Envelope α) : Segment α :=
  envelope.segments.getLast envelope.nonempty

/-- The x value at which the envelope starts. -/
def minX (envelope : Envelope α) : α :=
  envelope.first.start.x

/-- The x value at which the envelope ends. -/
def maxX (envelope : Envelope α) : α :=
  envelope.last.finish.x

/-- The extent of the envelope along the x axis. -/
def length [Scalar α] (envelope : Envelope α) : α :=
  envelope.maxX - envelope.minX

/-- The last segment that starts at or before an x value, or else the first one. -/
def segmentAt [Scalar α] (envelope : Envelope α) (x : α) : Segment α :=
  (envelope.segments.reverse.find? fun s => decide (s.start.x ≤ x)).getD envelope.first

/-- The height at an x value within the extent, where after a jump the later value counts. -/
def valueAt [Analytic α] (envelope : Envelope α) (x : α) : α :=
  let x := Scalar.smaller (Scalar.larger x envelope.minX) envelope.maxX
  (envelope.segmentAt x).valueAt x

/-- The height at the end. -/
def lastValue [Analytic α] (envelope : Envelope α) : α :=
  envelope.valueAt envelope.maxX

end Envelope

end Melody
