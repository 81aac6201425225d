import Melody.Note.Strategy

/-! Settling all conflicts among notes, one pair at a time. -/

namespace Melody.Resolution

variable {α : Type} [Scalar α]

/-- The order of notes by start, then by pitch. -/
def inOrder (first second : Note α) : Bool :=
  if first.start < second.start then true
  else if second.start < first.start then false
  else decide (first.pitch.index ≤ second.pitch.index)

/-- Sorts notes, keeping the order of those that compare equal. -/
def sort (notes : List (Note α)) : List (Note α) :=
  notes.mergeSort inOrder

/-- The first of the later notes that conflicts with a note, with the others. -/
def partner? (note : Note α) : List (Note α) → Option (Note α × List (Note α))
  | [] => none
  | next :: later =>
    if note.conflictsWith next then some (next, later)
    else (partner? note later).map fun (found, others) => (found, next :: others)

/-- The first conflicting pair in list order, with the other notes. -/
def firstConflict? : List (Note α) → Option (Note α × Note α × List (Note α))
  | [] => none
  | note :: later =>
    match partner? note later with
    | some (found, others) => some (note, found, others)
    | none =>
      (firstConflict? later).map fun (first, second, others) => (first, second, note :: others)

/-- The first note of a pair, moved to the start of the second if they start together. -/
def align (first second : Note α) : Note α :=
  if Strategy.startTogether first second then { first with start := second.start } else first

/-- Replaces the first conflicting pair, if there is one. -/
def step? (strategy : Strategy) (notes : List (Note α)) : Option (List (Note α)) :=
  (firstConflict? notes).map fun (first, second, others) =>
    -- Both notes are taken out, and what replaces them may conflict with others.
    sort (others ++ strategy.resolve (align first second) second)

/-- Replaces conflicting pairs until none is left, if the given number of rounds is enough. -/
def settleWithin (strategy : Strategy) : Nat → List (Note α) → Option (List (Note α))
  | 0, _ => none
  | rounds + 1, notes =>
    match step? strategy notes with
    | none => some notes
    | some next => settleWithin strategy rounds next

/-- Rounds enough to drop every note and, between two drops, to part every pair. -/
def roundLimit (count : Nat) : Nat :=
  (count + 1) * (count * count + 1)

/-- Sorts notes and settles their conflicts by a strategy. On doubles it can be that no number of
rounds is enough, and then settling never ends: the sorted list is given where there is no
result. -/
def settle (strategy : Strategy) (notes : List (Note α)) : List (Note α) :=
  let sorted := sort notes
  -- On exact numbers the rounds are always enough.
  (settleWithin strategy (roundLimit sorted.length) sorted).getD sorted

end Melody.Resolution
