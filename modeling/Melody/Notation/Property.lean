import Melody.Scalar

/-! Properties that a block changes, and the lengths that have names. -/

namespace Melody.Notation

/-- A property of a note or rest, set or changed by a value. -/
inductive Property where
  | duration
  | start
  | finish
  | velocity
  | velocityOffset
  | durationOffset
  | pan
deriving DecidableEq, Repr

/-- The property that a key names. -/
def Property.ofKey? : String → Option Property
  | "d" => some duration
  | "dur" => some duration
  | "s" => some start
  | "start" => some start
  | "e" => some finish
  | "end" => some finish
  | "v" => some velocity
  | "vel" => some velocity
  | "dv" => some velocityOffset
  | "dd" => some durationOffset
  | "p" => some pan
  | "pan" => some pan
  | _ => none

/-- The halvings of a whole note that give a named length. -/
def halvings? : String → Option Nat
  | "whole" => some 0
  | "w" => some 0
  | "half" => some 1
  | "h" => some 1
  | "quarter" => some 2
  | "q" => some 2
  | "eighth" => some 3
  | "e" => some 3
  | "sixteenth" => some 4
  | "s" => some 4
  | "thirtysecond" => some 5
  | "tt" => some 5
  | "sixtyfourth" => some 6
  | "sf" => some 6
  | "onetwentyeighth" => some 7
  | "ote" => some 7
  | "twofiftysixth" => some 8
  | "tfs" => some 8
  | "fivetwelfth" => some 9
  | "ftt" => some 9
  | _ => none

/-- The length in whole notes that a name stands for. -/
def namedLength? {α : Type} [Scalar α] (name : String) : Option α :=
  (halvings? name).map fun count => 1.0 / (Nat.pow 2 count : α)

end Melody.Notation
