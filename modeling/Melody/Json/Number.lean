import Melody.Binary64
import Melody.Decimal.Layout
import Melody.Decimal.Reader
import Melody.Json.Fault

/-! Numbers in JSON texts. -/

namespace Melody.Json

/-- A number as it is written, with as many of its digits as a machine word holds. -/
structure Numeral where
  negative : Bool
  significand : Nat
  exponent : Int
  /-- It is written without a point and an exponent and fits a machine word. -/
  whole : Bool
deriving DecidableEq, Repr

/-- Appends digits to a number until one no longer fits a machine word, and counts those left. -/
def absorb (number : Nat) : List Char → Nat × Nat
  | [] => (number, 0)
  | digit :: later =>
    let next := 10 * number + (digit.toNat - '0'.toNat)
    if next < UInt64.size then absorb next later else (number, later.length + 1)

/-- Reads the digits before the point, of which a leading zero must be the only one. -/
def scanWhole (truncated : Fault) : Reader (List Char)
  | [] => .error truncated
  | '0' :: rest =>
    match rest with
    | next :: _ => if next.isDigit then .error .malformed else .ok (['0'], rest)
    | [] => .ok (['0'], [])
  | text =>
    match Decimal.spanDigits text with
    | ([], _) => .error .malformed
    | (digits, rest) => .ok (digits, rest)

/-- Reads one or more digits. -/
def scanDigits (truncated : Fault) (text : List Char) : Except Fault (List Char × List Char) :=
  match Decimal.spanDigits text with
  | ([], []) => .error truncated
  | ([], _) => .error .malformed
  | (digits, rest) => .ok (digits, rest)

/-- Reads the digits after a point, if there is one. -/
def scanFraction (truncated : Fault) : Reader (Option (List Char))
  | '.' :: text => do
    let (digits, rest) ← scanDigits truncated text
    return (some digits, rest)
  | text => .ok (none, text)

/-- Reads a power of ten after its mark, if there is one. -/
def scanPower (truncated : Fault) : Reader (Option Int)
  | [] => .ok (none, [])
  | mark :: text =>
    if mark = 'e' ∨ mark = 'E' then do
      let (negative, text) := Decimal.splitSign text
      let (digits, rest) ← scanDigits truncated text
      let size : Int := Decimal.value digits
      return (some (if negative then -size else size), rest)
    else .ok (none, mark :: text)

/-- The number of given digits. -/
def Numeral.ofDigits (negative : Bool) (digits : List Char) (fraction? : Option (List Char))
    (power? : Option Int) : Numeral :=
  let (leading, left) := absorb 0 digits
  let fraction := fraction?.getD []
  let (significand, lost) := absorb leading fraction
  let places := fraction.length - lost
  { negative, significand
    exponent := (left : Int) - places + power?.getD 0
    whole := left = 0 ∧ fraction? = none ∧ power? = none ∧
      (negative → 0 < significand ∧ significand ≤ Int64.minValue.toInt.natAbs) }

/-- Reads a number whose text, if it ends too early, is to blame as given. -/
def scanNumber (truncated : Fault) (text : List Char) : Except Fault (Numeral × List Char) := do
  let (negative, text) := match text with
    | '-' :: rest => (true, rest)
    | _ => (false, text)
  let (digits, rest) ← scanWhole truncated text
  let (fraction?, rest) ← scanFraction truncated rest
  let (power?, rest) ← scanPower truncated rest
  return (.ofDigits negative digits fraction? power?, rest)

/-- A number that must be an integer of 32 bits. -/
def Numeral.integer (n : Numeral) : Except Mismatch Int :=
  let value : Int := if n.negative then -(n.significand : Int) else n.significand
  if !n.whole then .error .wrongType
  else if Int32.minValue.toInt ≤ value ∧ value ≤ Int32.maxValue.toInt then .ok value
  else .error .outOfRange

/-- Numbers that can be written in a JSON text. -/
class Numeric (α : Type) where
  /-- The value of a number, if it is within range. -/
  ofNumeral? : Numeral → Option α
  /-- The text of a value. -/
  write : α → String

/-- A power of ten as a double. -/
def powerOfTen (power : Nat) : Float :=
  OfScientific.ofScientific 1 false power

/-- A double times a power of ten, in steps that a double can hold, if it stays finite. -/
def scaleFloat? (x : Float) (exponent : Int) : Option Float :=
  if exponent.natAbs ≤ 308 then
    if exponent < 0 then some (x / powerOfTen exponent.natAbs)
    else
      let scaled := x * powerOfTen exponent.natAbs
      if scaled.isFinite then some scaled else none
  else if x == 0.0 then some x
  else if 0 < exponent then none
  else scaleFloat? (x / powerOfTen 308) (exponent + 308)
termination_by exponent.natAbs

/-- The double of a number, computed from its digits and its power of ten. -/
def Numeral.toFloat? (n : Numeral) : Option Float :=
  (scaleFloat? (Float.ofNat n.significand) n.exponent).map fun x => if n.negative then -x else x

instance : Numeric Float where
  ofNumeral? := Numeral.toFloat?
  write := fun x => if x.isFinite then Decimal.Layout.document.write x else "null"

end Melody.Json
