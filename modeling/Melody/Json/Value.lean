import Melody.Json.Number
import Melody.Json.Text

/-! JSON values that are kept or passed over as a whole. -/

namespace Melody.Json

/-- A JSON value. -/
inductive Value where
  | null
  | bool (value : Bool)
  | number (value : Numeral)
  | string (value : List Char)
  | array (items : List Value)
  | object (members : List (List Char × Value))

/-- How closely the parts of a value are checked. -/
structure Rigor where
  /-- Numbers must be within range, and halves of pairs must be paired. -/
  strict : Bool
  /-- The fault of a text that ends within a number. -/
  truncated : Fault
  /-- The number of further levels that arrays and objects may have, if that is limited. -/
  levels : Option Nat

namespace Rigor

/-- The deepest level that a kept value may reach. -/
def deepest : Nat := 127

/-- Values that are passed over need only the form of JSON. -/
def skipped : Rigor := ⟨false, .malformed, none⟩

/-- Values at a given depth that are kept must make sense as a whole. -/
def kept (depth : Nat) : Rigor := ⟨true, .endOfText, some (deepest - depth)⟩

/-- The checks within an array or object, if one more level is allowed. -/
def inside? (rigor : Rigor) : Option Rigor :=
  match rigor.levels with
  | none => some rigor
  | some 0 => none
  | some (levels + 1) => some { rigor with levels := some levels }

end Rigor

variable (α : Type) [Numeric α]

/-- Reads a number whose value must be within range if checks are strict. -/
def readNumeral (rigor : Rigor) (text : List Char) : Except Fault (Value × List Char) := do
  let (number, rest) ← scanNumber rigor.truncated text
  if rigor.strict && (Numeric.ofNumeral? (α := α) number).isNone then throw .malformed
  return (.number number, rest)

mutual

/-- Reads a value by a number of steps. -/
def readValue (rigor : Rigor) (steps : Nat) (text : List Char) :
    Except Fault (Value × List Char) :=
  match steps with
  | 0 => .error .malformed
  | steps + 1 =>
    match skipSpace text with
    | [] => .error .endOfText
    | 'n' :: rest => (expectAll ['u', 'l', 'l'] rest).map fun (_, rest) => (.null, rest)
    | 't' :: rest => (expectAll ['r', 'u', 'e'] rest).map fun (_, rest) => (.bool true, rest)
    | 'f' :: rest =>
      (expectAll ['a', 'l', 's', 'e'] rest).map fun (_, rest) => (.bool false, rest)
    | '"' :: rest => (scanString rigor.strict rest).map fun (text, rest) => (.string text, rest)
    | '[' :: rest =>
      match rigor.inside? with
      | none => .error .malformed
      | some inner =>
        (readItems inner steps true rest).map fun (items, rest) => (.array items, rest)
    | first :: rest =>
      if first = Char.ofNat 0x7b then
        match rigor.inside? with
        | none => .error .malformed
        | some inner =>
          (readMembers inner steps true rest).map fun (members, rest) => (.object members, rest)
      else if first = '-' ∨ first.isDigit then readNumeral α rigor (first :: rest)
      else .error .malformed

/-- Reads the rest of an array by a number of steps. -/
def readItems (rigor : Rigor) (steps : Nat) (first : Bool) (text : List Char) :
    Except Fault (List Value × List Char) :=
  match steps with
  | 0 => .error .malformed
  | steps + 1 =>
    match first, skipSpace text with
    | _, [] => .error .endOfText
    | _, ']' :: rest => .ok ([], rest)
    | false, ',' :: rest => readItem rigor steps rest
    | true, rest => readItem rigor steps rest
    | false, _ => .error .malformed

/-- Reads an item of an array and the items after it. -/
def readItem (rigor : Rigor) (steps : Nat) (text : List Char) :
    Except Fault (List Value × List Char) :=
  match steps with
  | 0 => .error .malformed
  | steps + 1 => do
    let (item, rest) ← readValue rigor steps text
    let (later, rest) ← readItems rigor steps false rest
    return (item :: later, rest)

/-- Reads the rest of an object by a number of steps. -/
def readMembers (rigor : Rigor) (steps : Nat) (first : Bool) (text : List Char) :
    Except Fault (List (List Char × Value) × List Char) :=
  match steps with
  | 0 => .error .malformed
  | steps + 1 =>
    match first, skipSpace text with
    | _, [] => .error .endOfText
    | false, ',' :: rest => readMember rigor steps rest
    | first, next :: rest =>
      if next = Char.ofNat 0x7d then .ok ([], rest)
      else if first then readMember rigor steps (next :: rest)
      else .error .malformed

/-- Reads a member of an object and the members after it. -/
def readMember (rigor : Rigor) (steps : Nat) (text : List Char) :
    Except Fault (List (List Char × Value) × List Char) :=
  match steps with
  | 0 => .error .malformed
  | steps + 1 => do
    let (_, rest) ← expect '"' (skipSpace text)
    let (key, rest) ← scanString rigor.strict rest
    let (_, rest) ← expect ':' (skipSpace rest)
    let (value, rest) ← readValue rigor steps rest
    let (later, rest) ← readMembers rigor steps false rest
    return ((key, value) :: later, rest)

end

/-- Steps enough for every value at the front of a text. -/
def stepLimit (text : List Char) : Nat :=
  3 * text.length + 3

/-- Reads a value that is kept, at a given depth. -/
def keptValue (depth : Nat) : Reader Value :=
  fun text => readValue α (.kept depth) (stepLimit text) text

/-- Passes over a value. -/
def skipValue : Reader Unit :=
  fun text => (readValue α .skipped (stepLimit text) text).map fun (_, rest) => ((), rest)

/-- The fault of a value that is not of the type that was asked for. -/
def wrongType (text : List Char) : Fault :=
  match skipSpace text with
  | [] => .endOfText
  | first :: rest =>
    -- A single value is read to its end first, an array or object is not.
    if first = '[' ∨ first = Char.ofNat 0x7b then .mismatch .wrongType
    else match keptValue α 0 (first :: rest) with
      | .error fault => fault
      | .ok _ => .mismatch .wrongType

end Melody.Json
