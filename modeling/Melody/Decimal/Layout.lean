import Melody.Scalar
import Melody.Decimal.Shortest

/-! Written forms of doubles, each described by one layout. -/

namespace Melody.Decimal

/-- The choices that turn digits into text. -/
structure Layout where
  /-- Whether a whole number keeps a zero after its point. -/
  keepsPoint : Bool
  /-- The leading powers of ten that are written without an exponent, if not all are. -/
  positional : Option (Int × Int)
  /-- What stands between the exponent mark and the digits of a positive exponent. -/
  plus : String
  /-- Which of two shortest candidates at equal distance is taken. -/
  tie : Tie

namespace Layout

/-- All digits by place, without a point where none is needed. -/
def plain : Layout := ⟨false, none, "", .up⟩

/-- Always with a point, and with an exponent for numbers far from one. -/
def debug : Layout := ⟨true, some (-4, 15), "", .up⟩

/-- Always with a point, and with a signed exponent for numbers far from one. -/
def document : Layout := ⟨true, some (-5, 15), "+", .even⟩

end Layout

/-- A minus sign for a negative value. -/
def signText (negative : Bool) : String :=
  if negative then "-" else ""

/-- A run of zeros. -/
def zeros (count : Nat) : String :=
  String.ofList (List.replicate count '0')

/-- Digits written by place, with a fraction when the number has one. -/
def Digits.positional (keepsPoint : Bool) (d : Digits) : String :=
  let figures := Nat.toDigits 10 d.significand
  if 0 ≤ d.exponent then
    String.ofList figures ++ zeros d.exponent.toNat ++ (if keepsPoint then ".0" else "")
  else
    -- Missing places before the first digit are filled with zeros.
    let places := (-d.exponent).toNat
    let padded := List.replicate (places + 1 - figures.length) '0' ++ figures
    let whole := padded.length - places
    String.ofList (padded.take whole) ++ "." ++ String.ofList (padded.drop whole)

/-- Digits written with one digit before the point and a power of ten. -/
def Digits.scientific (plus : String) (d : Digits) : String :=
  let power := d.decade
  let exponent := if power < 0 then toString power else plus ++ toString power
  match Nat.toDigits 10 d.significand with
  | [] => "0e" ++ exponent
  | [figure] => String.ofList [figure] ++ "e" ++ exponent
  | figure :: figures => String.ofList [figure] ++ "." ++ String.ofList figures ++ "e" ++ exponent

/-- Writes digits as a layout lays them out. -/
def Layout.digits (layout : Layout) (d : Digits) : String :=
  match layout.positional with
  | none => d.positional layout.keepsPoint
  | some (least, most) =>
    if d.significand = 0 ∨ (least ≤ d.decade ∧ d.decade ≤ most) then
      d.positional layout.keepsPoint
    else d.scientific layout.plus

/-- Writes a double with the fewest digits that identify it. -/
def Layout.write (layout : Layout) (x : Float) : String :=
  match Binary.ofFloat x with
  | .undefined => "NaN"
  | .infinite negative => signText negative ++ "inf"
  | .finite negative mantissa exponent =>
    signText negative ++ layout.digits (shortest layout.tie mantissa exponent)

/-- Writes a double in scientific form with nine digits after the point. -/
def writeRounded (x : Float) : String :=
  match Binary.ofFloat x with
  | .undefined => "NaN"
  | .infinite negative => signText negative ++ "inf"
  | .finite negative mantissa exponent =>
    if mantissa = 0 then signText negative ++ "0.000000000e0"
    else
      let (numerator, denominator) := Binary.ratio 2 mantissa exponent
      signText negative ++ (roundedDigits 10 numerator denominator).scientific ""

end Melody.Decimal

namespace Melody

instance : Readout Float where
  text := Decimal.Layout.plain.write
  pointed := Decimal.Layout.debug.write

end Melody
