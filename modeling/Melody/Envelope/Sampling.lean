import Melody.Envelope.Basic

/-! Values of an envelope at many places, and points that stand for its curve. -/

namespace Melody

variable {α : Type} [Analytic α]

namespace Segment

/-- No segment is given more points than this. -/
def maxPoints : Nat := 75

/-- The number of points for a turn of the tangent, unless one more than its ceiling leaves the
words of 64 bits. Counting that far ends the program. -/
def pointCount? (turn fidelity : α) : Option Nat :=
  let turn := Scalar.smaller (Scalar.magnitude turn) Analytic.halfTurn
  let fidelity := if Scalar.isFinite fidelity then Scalar.larger fidelity 0.0 else 0.0
  let count := Scalar.ceiling (turn * fidelity) + 1
  if count < UInt64.size then some (min (max count 2) maxPoints) else none

/-- The number of points for a turn of the tangent, the most there can be if it is not counted. -/
def pointCount (turn fidelity : α) : Nat :=
  (pointCount? turn fidelity).getD maxPoints

/-- The slope with which an exponential curve starts. -/
def slope (s : Segment α) (base : α) : α :=
  (s.finish.y - s.start.y) * Analytic.ln base / ((base - 1.0) * s.width)

/-- The angle from the start of an exponential curve to its end. -/
def exponentialTurn (s : Segment α) (base : α) : α :=
  -- The slope is a constant times a power of the base, so its angle moves one way only.
  Analytic.arctangent (s.slope base * base) - Analytic.arctangent (s.slope base)

/-- The parameter of a point of an exponential curve that has been given a number of points at equal
steps of its angle. -/
def turned (slope base : α) (count i : Nat) : α :=
  let first := Analytic.arctangent slope
  let last := Analytic.arctangent (slope * base)
  if i = 0 then 0.0
  else if i + 1 = count then 1.0
  else
    let angle := first + (last - first) * (i : α) / ((count - 1 : Nat) : α)
    Scalar.clampUnit (Analytic.ln (Analytic.tangent angle / slope) / Analytic.ln base)

/-- The points of an exponential curve at equal steps of the angle of its tangent. -/
def exponentialPoints (s : Segment α) (middle fidelity : α) : List (Point α) :=
  match s.exponentialBase? middle with
  | none => [s.start, s.finish]
  | some base =>
    let count := pointCount (s.exponentialTurn base) fidelity
    (List.range count).map fun (i : Nat) =>
      let t := turned (s.slope base) base count i
      ⟨lerp s.start.x s.finish.x t, s.exponentialAt middle t⟩

/-- The angle from the start of a quadratic curve to its end, none if it has no direction there. -/
def quadraticTurn (s : Segment α) (control : Point α) : α :=
  let dx := control.x - s.start.x
  let dy := control.y - s.start.y
  let ex := s.finish.x - control.x
  let ey := s.finish.y - control.y
  if (Scalar.same dx 0.0 && Scalar.same dy 0.0) || (Scalar.same ex 0.0 && Scalar.same ey 0.0) then
    0.0
  else Analytic.direction (dx * ey - dy * ex) (dx * ex + dy * ey)

/-- The points of a quadratic curve at equal steps of its parameter. -/
def quadraticPoints (s : Segment α) (control : Point α) (fidelity : α) : List (Point α) :=
  let count := pointCount (s.quadraticTurn control) fidelity
  (List.range count).map fun (i : Nat) =>
    let t := (i : α) / ((count - 1 : Nat) : α)
    ⟨bezier s.start.x control.x s.finish.x t, bezier s.start.y control.y s.finish.y t⟩

/-- Points that stand for a segment, with `fidelity` of them for each radian of turn. -/
def approximate (s : Segment α) (fidelity : α) : List (Point α) :=
  if s.width ≤ 0.0 then [s.start, s.finish]
  else match s.shape with
    | .linear => [s.start, s.finish]
    | .exponential middle =>
      if Scalar.same s.start.y s.finish.y then [s.start, s.finish]
      else s.exponentialPoints middle fidelity
    | .quadratic control => s.quadraticPoints control fidelity

/-- The turn of the tangent of a segment, unless its two ends stand for it. -/
def turn? (s : Segment α) : Option α :=
  if s.width ≤ 0.0 then none
  else match s.shape with
    | .linear => none
    | .exponential middle =>
      if Scalar.same s.start.y s.finish.y then none
      else (s.exponentialBase? middle).map s.exponentialTurn
    | .quadratic control => some (s.quadraticTurn control)

/-- The points of a segment can be counted at a fidelity. -/
def isCountable (s : Segment α) (fidelity : α) : Bool :=
  s.turn?.all fun turn => (pointCount? turn fidelity).isSome

/-- Points that stand for a segment, unless counting them ends the program. -/
def approximate? (s : Segment α) (fidelity : α) : Option (List (Point α)) :=
  if s.isCountable fidelity then some (s.approximate fidelity) else none

/-- Points at equal distances along a segment, both of its ends among them. -/
def spread (s : Segment α) (count : Nat) : List (Point α) :=
  let step := s.width / ((count - 1 : Nat) : α)
  (List.range count).map fun (i : Nat) =>
    if i = 0 then s.start
    else if i + 1 = count then s.finish
    else
      let x := s.start.x + step * (i : α)
      ⟨x, s.valueAt x⟩

end Segment

namespace Envelope

/-- The points that differ from the one kept before them. -/
def distinctAfter (kept : Point α) : List (Point α) → List (Point α)
  | [] => []
  | point :: later =>
    if kept.same point then distinctAfter kept later else point :: distinctAfter point later

/-- Points without those that repeat the one before. -/
def distinct : List (Point α) → List (Point α)
  | [] => []
  | point :: later => point :: distinctAfter point later

/-- A number of values at equal distances between two x values, both included. -/
def sampleRange (envelope : Envelope α) (count : Nat) (low high : α) : List α :=
  match count with
  | 0 => []
  | 1 => [envelope.valueAt low]
  | count =>
    let step := (high - low) / ((count - 1 : Nat) : α)
    (List.range count).map fun (i : Nat) => envelope.valueAt (low + step * (i : α))

/-- A number of values at equal distances over the whole envelope. -/
def sample (envelope : Envelope α) (count : Nat) : List α :=
  envelope.sampleRange count envelope.minX envelope.maxX

/-- The number of points of a segment, by its share of the width but not below a least number. -/
def shareOf (envelope : Envelope α) (s : Segment α) (resolution least : Nat) : Nat :=
  let length := envelope.length
  let share :=
    if 0.0 < length then Scalar.rounded ((resolution : α) * s.width / length) else 0
  max (max share least) 2

/-- Points spread over the segments in proportion to their widths. -/
def smartSample (envelope : Envelope α) (resolution least : Nat) : List (Point α) :=
  distinct <| envelope.segments.flatMap fun s => s.spread (envelope.shareOf s resolution least)

/-- The fewest points that stand for the envelope at a given fidelity. -/
def approximation (envelope : Envelope α) (fidelity : α) : List (Point α) :=
  distinct <| envelope.segments.flatMap fun s => s.approximate fidelity

/-- The points of every segment can be counted at a fidelity. -/
def isCountable (envelope : Envelope α) (fidelity : α) : Bool :=
  envelope.segments.all fun s => s.isCountable fidelity

/-- The fewest points that stand for the envelope, unless counting them ends the program. -/
def approximation? (envelope : Envelope α) (fidelity : α) : Option (List (Point α)) :=
  if envelope.isCountable fidelity then some (envelope.approximation fidelity) else none

end Envelope

end Melody
