import Melody.Scalar

/-! Curves between two control points. -/

namespace Melody

/-- A control point of an envelope. -/
structure Point (α : Type) where
  x : α
  y : α
deriving DecidableEq, Repr

/-- The curve that a segment follows. -/
inductive Shape (α : Type) where
  /-- A straight line. -/
  | linear
  /-- An exponential curve with a given value halfway along. -/
  | exponential (middle : α)
  /-- A quadratic Bezier curve pulled towards a control point. -/
  | quadratic (control : Point α)
deriving DecidableEq, Repr

/-- A curve that runs from left to right, or a jump when its points share an x value. -/
structure Segment (α : Type) where
  start : Point α
  finish : Point α
  shape : Shape α
deriving DecidableEq, Repr

/-- Why control points make no segment or segments make no envelope. -/
inductive CurveError (α : Type) where
  | empty
  | intersecting (start previous : α)
  | nonMonotonic (start next : α)
  | invalidIntermediate (middle start finish : α)
  | invalidPoint (x y : α)
deriving DecidableEq, Repr

/-- The wording of a curve error. -/
def CurveError.message {α : Type} [Readout α] : CurveError α → String
  | .empty => "an envelope needs at least one segment"
  | .intersecting start previous =>
    "segment starting at x = " ++ Readout.text start ++ " intersects a segment ending at x = " ++
      Readout.text previous
  | .nonMonotonic start next =>
    "control points must not move backwards, got x = " ++ Readout.text start ++ " then x = " ++
      Readout.text next
  | .invalidIntermediate middle start finish =>
    "intermediate value " ++ Readout.text middle ++ " must lie strictly between " ++
      Readout.text start ++ " and " ++ Readout.text finish
  | .invalidPoint x y =>
    "invalid control point (" ++ Readout.text x ++ ", " ++ Readout.text y ++ ")"

namespace Point

variable {α : Type} [Scalar α]

/-- Points are the same when both coordinates are. -/
def same (p q : Point α) : Bool :=
  Scalar.same p.x q.x && Scalar.same p.y q.y

/-- A control point is finite and not left of zero. -/
def check (p : Point α) : Except (CurveError α) Unit :=
  if Scalar.isFinite p.x && Scalar.isFinite p.y && decide (0.0 ≤ p.x) then .ok ()
  else .error (.invalidPoint p.x p.y)

/-- The point with its height scaled. -/
def scaleY (p : Point α) (factor : α) : Point α :=
  { p with y := p.y * factor }

end Point

namespace Segment

variable {α : Type}

section Construction

variable [Scalar α]

/-- A shape fits its end points. -/
def checkShape (start finish : Point α) : Shape α → Except (CurveError α) Unit
  | .linear => .ok ()
  | .exponential middle =>
    if (start.y < middle ∧ middle < finish.y) ∨ (finish.y < middle ∧ middle < start.y) then .ok ()
    else .error (.invalidIntermediate middle start.y finish.y)
  | .quadratic control =>
    if !(Scalar.isFinite control.x && Scalar.isFinite control.y) then
      .error (.invalidPoint control.x control.y)
    else if control.x < start.x ∨ finish.x < control.x then
      .error (.nonMonotonic start.x control.x)
    else .ok ()

/-- A segment of valid points in order with a fitting shape. -/
def make (start finish : Point α) (shape : Shape α) : Except (CurveError α) (Segment α) := do
  start.check
  finish.check
  if finish.x < start.x then throw (.nonMonotonic start.x finish.x)
  checkShape start finish shape
  return ⟨start, finish, shape⟩

/-- The extent of a segment along the x axis. -/
def width (s : Segment α) : α :=
  s.finish.x - s.start.x

/-- The segment with every height scaled. -/
def scaleY (s : Segment α) (factor : α) : Segment α where
  start := s.start.scaleY factor
  finish := s.finish.scaleY factor
  shape := match s.shape with
    | .linear => .linear
    | .exponential middle => .exponential (middle * factor)
    | .quadratic control => .quadratic (control.scaleY factor)

/-- The point of a straight line at a parameter. -/
def lerp (start finish t : α) : α :=
  start + (finish - start) * t

/-- The point of a quadratic Bezier curve at a parameter. -/
def bezier (p q r t : α) : α :=
  let u := 1.0 - t
  u * u * p + 2.0 * u * t * q + t * t * r

end Construction

variable [Analytic α]

/-- The base of an exponential curve, unless it is too near one to tell from a line. -/
def exponentialBase? (s : Segment α) (middle : α) : Option α :=
  let rise := s.finish.y - s.start.y
  if Scalar.same rise 0.0 then none
  else
    let fraction := (middle - s.start.y) / rise
    let quotient := (1.0 - fraction) / fraction
    let base := quotient * quotient
    -- The curve divides by what the base exceeds one by.
    if Scalar.isFinite base && decide (1e-9 < Scalar.magnitude (base - 1.0)) then some base
    else none

/-- The height of an exponential curve at a parameter. -/
def exponentialAt (s : Segment α) (middle t : α) : α :=
  match s.exponentialBase? middle with
  | some base =>
    s.start.y + (s.finish.y - s.start.y) * (Analytic.power base t - 1.0) / (base - 1.0)
  | none => lerp s.start.y s.finish.y t

/-- The parameter at which a quadratic curve reaches an x value. -/
def bezierParameter (s : Segment α) (control : Point α) (x : α) : α :=
  let a := s.start.x - 2.0 * control.x + s.finish.x
  let b := 2.0 * (control.x - s.start.x)
  let c := s.start.x - x
  -- A vanishing leading coefficient leaves a linear equation.
  let t :=
    if Scalar.magnitude a < 1e-12 then
      if Scalar.same b 0.0 then 0.0 else -c / b
    else
      let root := Analytic.root (Scalar.larger (b * b - 4.0 * a * c) 0.0)
      let plus := (-b + root) / (2.0 * a)
      let minus := (-b - root) / (2.0 * a)
      if -1e-9 ≤ plus ∧ plus ≤ 1.0 + 1e-9 then plus else minus
  Scalar.clampUnit t

/-- The height of a segment at an x value, which is limited to the extent of the segment. -/
def valueAt (s : Segment α) (x : α) : α :=
  let width := s.width
  -- A jump has the value that it ends with.
  if width ≤ 0.0 then s.finish.y
  else
    let t := Scalar.clampUnit ((x - s.start.x) / width)
    match s.shape with
    | .linear => lerp s.start.y s.finish.y t
    | .exponential middle => s.exponentialAt middle t
    | .quadratic control =>
      bezier s.start.y control.y s.finish.y (s.bezierParameter control x)

end Segment

end Melody
