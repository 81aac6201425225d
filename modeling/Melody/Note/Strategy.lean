import Melody.Note.Basic

/-! Ways to settle two notes of one pitch that sound together. -/

namespace Melody

/-- What becomes of two notes where the first starts clearly before the second. -/
inductive Overlap where
  /-- One note spans both, with the larger velocity. -/
  | merge
  /-- The first note ends where the second starts. -/
  | trim
  /-- Both notes are dropped. -/
  | remove
  /-- Only the first note is kept. -/
  | first
  /-- Only the second note is kept. -/
  | second
deriving DecidableEq, Repr

/-- What becomes of two notes that start together. -/
inductive Coincident where
  /-- One note has the later end and the sum of the velocities. -/
  | sum
  /-- Both notes are dropped. -/
  | remove
  /-- Only the longer note is kept. -/
  | longer
  /-- Only the shorter note is kept. -/
  | shorter
  /-- One note has the later end and the larger velocity and pan. -/
  | maxProperties
deriving DecidableEq, Repr

/-- A choice for each of the two kinds of conflict. -/
structure Strategy where
  overlap : Overlap := .trim
  coincident : Coincident := .sum
deriving DecidableEq, Repr

namespace Strategy

variable {α : Type} [Scalar α]

/-- Notes start together when their starts differ by no more than the tolerance. -/
def startTogether (first second : Note α) : Bool :=
  decide (Scalar.magnitude (second.start - first.start) ≤ Note.tolerance)

/-- The notes that replace two overlapping ones. -/
def resolveOverlap (choice : Overlap) (first second : Note α) : List (Note α) :=
  match choice with
  | .merge =>
    [{ first.endingAt (Scalar.larger first.finish second.finish) with
        velocity := Scalar.larger first.velocity second.velocity }]
  | .trim => [first.endingAt second.start, second]
  | .remove => []
  | .first => [first]
  | .second => [second]

/-- The notes that replace two coincident ones. -/
def resolveCoincident (choice : Coincident) (first second : Note α) : List (Note α) :=
  let spanning := first.endingAt (Scalar.larger first.finish second.finish)
  match choice with
  | .sum => [{ spanning with velocity := first.velocity + second.velocity }]
  | .remove => []
  | .longer => if first.duration < second.duration then [second] else [first]
  | .shorter => if second.duration < first.duration then [second] else [first]
  | .maxProperties =>
    [{ spanning with
        velocity := Scalar.larger first.velocity second.velocity
        pan := Scalar.larger first.pan second.pan }]

/-- The notes that replace a conflicting pair whose first note does not start later. -/
def resolve (strategy : Strategy) (first second : Note α) : List (Note α) :=
  if startTogether first second then resolveCoincident strategy.coincident first second
  else resolveOverlap strategy.overlap first second

end Strategy

end Melody
