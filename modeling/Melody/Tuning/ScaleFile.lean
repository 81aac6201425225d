import Melody.Tuning.Scale
import Melody.Text.Lines
import Melody.Text.Blank
import Melody.Decimal.Reader
import Melody.Binary64

/-! Scale files: a description, a count and that many intervals, one to a line. -/

namespace Melody.ScaleFile

/-- The lines that are no comments, trimmed and with their numbers. -/
def contentLines (text : List Char) : List (Nat × List Char) :=
  (((Text.lines text).map Text.trim).zipIdx 1).filterMap fun (line, number) =>
    match line with
    | '!' :: _ => none
    | _ => some (number, line)

/-- Reads a natural number that fits a machine word. -/
def word? (text : List Char) : Option Nat :=
  (Decimal.natural? text).filter (· < UInt64.size)

/-- The cents of a token: cents if it has a point, a ratio if it has a slash, else whole cents. -/
def cents? (token : List Char) : Option Float :=
  if token.contains '.' then Decimal.float? token
  else
    match token.span (· ≠ '/') with
    | (numerator, _ :: denominator) => do
      let numerator ← word? numerator
      let denominator ← word? denominator
      if numerator = 0 ∨ denominator = 0 then none
      else some (1200.0 * Float.log2 (Float.ofNat numerator / Float.ofNat denominator))
    | (whole, []) =>
      (Decimal.integer? whole).bind fun cents =>
        if Int32.minValue.toInt ≤ cents ∧ cents ≤ Int32.maxValue.toInt then
          some (Scalar.ofInt cents)
        else none

/-- Reads an interval line, whose first word alone counts. -/
def readInterval (number : Nat) (line : List Char) : Except (TuningError Float) Float :=
  match (Text.firstWord? line).bind cents? with
  | some cents =>
    if Scalar.isFinite cents then .ok cents else .error (.invalidInterval number line)
  | none => .error (.invalidInterval number line)

/-- Reads the text of a scale file. -/
def read (text : String) : Except (TuningError Float) (Scale Float) :=
  match contentLines text.toList with
  | [] => .error .missingDescription
  | [_] => .error .missingCount
  | (_, description) :: (_, count) :: intervals => do
    let some expected := (Text.firstWord? count).bind word?
      | throw (.invalidCount count)
    let degrees ← (intervals.filter fun (_, line) => !line.isEmpty).mapM fun (number, line) =>
      readInterval number line
    if degrees.length ≠ expected then throw (.wrongIntervalCount expected degrees.length)
    Scale.ofDegrees (String.ofList description) degrees

/-- Reads the bytes of a scale file, `none` standing for a file that does not exist. -/
def readBytes (bytes? : Option ByteArray) : Except (TuningError Float) (Scale Float) :=
  match bytes? with
  | none => .error (.file .notFound)
  | some bytes =>
    match String.fromUTF8? bytes with
    | none => .error (.file .notText)
    | some text => read text

end Melody.ScaleFile
