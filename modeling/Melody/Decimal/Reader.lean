import Melody.Scalar

/-! Decimal numerals and the scalars they stand for. -/

namespace Melody.Decimal

/-- A numeral with its sign, its digits as one natural number, and the place of its point. -/
structure Numeral where
  negative : Bool
  significand : Nat
  exponent : Int
deriving DecidableEq, Repr

/-- The value of a run of digits. -/
def value (digits : List Char) : Nat :=
  digits.foldl (fun total digit => 10 * total + (digit.toNat - '0'.toNat)) 0

/-- Splits a text after its leading digits. -/
def spanDigits (text : List Char) : List Char × List Char :=
  (text.takeWhile Char.isDigit, text.dropWhile Char.isDigit)

/-- Splits a leading sign from a text, `true` standing for a minus. -/
def splitSign : List Char → Bool × List Char
  | '-' :: rest => (true, rest)
  | '+' :: rest => (false, rest)
  | text => (false, text)

/-- Reads digits with an optional point among them, at least one digit being present. -/
def mantissa? (text : List Char) : Option (Nat × Int × List Char) :=
  let (whole, rest) := spanDigits text
  let (fraction, rest) := match rest with
    | '.' :: after => spanDigits after
    | _ => ([], rest)
  if whole.isEmpty && fraction.isEmpty then none
  else some (value (whole ++ fraction), -(fraction.length : Int), rest)

/-- Reads the power of ten after a mantissa, which may be left out. -/
def power? : List Char → Option Int
  | [] => some 0
  | mark :: text =>
    if mark = 'e' ∨ mark = 'E' then
      let (negative, digits) := splitSign text
      if digits.isEmpty || !digits.all Char.isDigit then none
      else some (if negative then -(value digits : Int) else value digits)
    else none

/-- Reads a whole text as a numeral. -/
def numeral? (text : List Char) : Option Numeral := do
  let (negative, text) := splitSign text
  let (significand, exponent, rest) ← mantissa? text
  let power ← power? rest
  some ⟨negative, significand, exponent + power⟩

/-- Reads a whole text as a natural number, for which a plus sign is allowed. -/
def natural? : List Char → Option Nat
  | '+' :: digits => digitsOnly digits
  | digits => digitsOnly digits
where
  /-- The value of a text made of digits alone. -/
  digitsOnly (digits : List Char) : Option Nat :=
    if digits.isEmpty || !digits.all Char.isDigit then none else some (value digits)

/-- Reads a whole text as an integer with an optional sign. -/
def integer? : List Char → Option Int
  | '-' :: digits => (natural?.digitsOnly digits).map fun n => -(n : Int)
  | text => (natural? text).map fun n => (n : Int)

/-- The double nearest to a numeral. -/
def Numeral.toFloat (n : Numeral) : Float :=
  let decade := n.exponent + (Nat.toDigits 10 n.significand).length
  -- Numbers far outside the range of doubles are settled without large powers of ten.
  let size : Float :=
    if n.significand = 0 ∨ decade < -330 then 0.0
    else if 320 < decade then 1.0 / 0.0
    else OfScientific.ofScientific n.significand (decide (n.exponent < 0)) n.exponent.natAbs
  if n.negative then -size else size

/-- Reads a whole text as a double, spelled out values in any case included. -/
def float? (text : List Char) : Option Float :=
  match numeral? text with
  | some n => some n.toFloat
  | none =>
    let (negative, word) := splitSign text
    let size : Option Float :=
      match String.ofList (word.map Char.toLower) with
      | "inf" => some (1.0 / 0.0)
      | "infinity" => some (1.0 / 0.0)
      | "nan" => some (0.0 / 0.0)
      | _ => none
    size.map fun x => if negative then -x else x

/-- Reads a whole text as an unsigned scalar without a power of ten. -/
def scalar? {α : Type} [Scalar α] (text : List Char) : Option α :=
  match mantissa? text with
  | some (significand, exponent, []) =>
    some (OfScientific.ofScientific significand true exponent.natAbs)
  | _ => none

end Melody.Decimal
