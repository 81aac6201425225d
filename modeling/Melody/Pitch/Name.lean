import Melody.Pitch.Basic
import Melody.Decimal.Reader
import Melody.Text.Quoted

/-! Names of pitches: a letter, an accidental and an octave. -/

namespace Melody

/-- The seven letters of standard notation. -/
inductive Letter where
  | c
  | d
  | e
  | f
  | g
  | a
  | b
deriving DecidableEq, Repr

/-- A sharp or flat applied to a letter. -/
inductive Accidental where
  | doubleFlat
  | flat
  | natural
  | sharp
  | doubleSharp
deriving DecidableEq, Repr

namespace Letter

/-- The semitones from C up to a letter. -/
def offset : Letter → Int
  | c => 0
  | d => 2
  | e => 4
  | f => 5
  | g => 7
  | a => 9
  | b => 11

/-- The letter that an uppercase character names. -/
def ofChar? : Char → Option Letter
  | 'C' => some c
  | 'D' => some d
  | 'E' => some e
  | 'F' => some f
  | 'G' => some g
  | 'A' => some a
  | 'B' => some b
  | _ => none

end Letter

namespace Accidental

/-- The semitones that an accidental adds. -/
def offset : Accidental → Int
  | doubleFlat => -2
  | flat => -1
  | natural => 0
  | sharp => 1
  | doubleSharp => 2

/-- Reads the longest accidental at the front of a text. -/
def scan : List Char → Accidental × List Char
  | '#' :: '#' :: rest => (doubleSharp, rest)
  | 'b' :: 'b' :: rest => (doubleFlat, rest)
  | '#' :: rest => (sharp, rest)
  | 's' :: rest => (sharp, rest)
  | 'x' :: rest => (doubleSharp, rest)
  | 'b' :: rest => (flat, rest)
  | rest => (natural, rest)

/-- An accidental leaves no more text than it was read from. -/
theorem length_scan_le (text : List Char) : (scan text).2.length ≤ text.length := by
  unfold scan
  split <;> simp only [List.length_cons] <;> omega

end Accidental

namespace Pitch

/-- The pitch of a letter, an accidental and an octave, if it is not below the keyboard. -/
def named (letter : Letter) (accidental : Accidental) (octave : Int) : Option Pitch :=
  let index := octave * 12 + letter.offset + accidental.offset
  if index < 0 then none else some ⟨index⟩

/-- Reads an octave of one or two digits, the fourth when there are none. -/
def scanOctave (text : List Char) : Option (Int × List Char) :=
  let (digits, rest) := Decimal.spanDigits text
  if digits.isEmpty then some (4, rest)
  else if 2 < digits.length then none
  else some ((Decimal.value digits : Int), rest)

/-- Reads one pitch name at the front of a text. -/
def scan : List Char → Option (Pitch × List Char)
  | [] => none
  | first :: text => do
    let letter ← Letter.ofChar? first
    let (accidental, text) := Accidental.scan text
    let (octave, rest) ← scanOctave text
    let pitch ← named letter accidental octave
    return (pitch, rest)

/-- An octave leaves no more text than it was read from. -/
theorem length_of_scanOctave {text after : List Char} {octave : Int}
    (scanned : scanOctave text = some (octave, after)) : after.length ≤ text.length := by
  -- Whatever the octave, the text after it is the text after the digits.
  have rest : after = text.dropWhile Char.isDigit := by
    simp only [scanOctave, Decimal.spanDigits] at scanned
    by_cases none : (text.takeWhile Char.isDigit).isEmpty = true
    · simp_all
    · by_cases many : 2 < (text.takeWhile Char.isDigit).length <;> simp_all
  rw [rest]
  exact (List.dropWhile_sublist _).length_le

/-- A pitch name takes at least its letter. -/
theorem length_of_scan {first : Char} {more after : List Char} {pitch : Pitch}
    (scanned : scan (first :: more) = some (pitch, after)) : after.length ≤ more.length := by
  simp only [scan, Option.bind_eq_bind, Option.bind_eq_some_iff] at scanned
  obtain ⟨letter, _, ⟨octave, rest⟩, read, found, _, last⟩ := scanned
  cases last
  exact Nat.le_trans (length_of_scanOctave read) (Accidental.length_scan_le more)

/-- Why a text is no pitch name. -/
inductive NameError where
  | invalidName (name : String)
deriving DecidableEq, Repr

/-- The wording of a name error. -/
def NameError.message : NameError → String
  | .invalidName name => "invalid pitch name " ++ Text.quoted name.toList

/-- Reads a whole text as a pitch name. -/
def ofName (name : String) : Except NameError Pitch :=
  match scan name.toList with
  | some (pitch, []) => .ok pitch
  | _ => .error (.invalidName name)

/-- The names of the twelve pitches of an octave, raised ones written with sharps. -/
def classNames : List String :=
  ["C", "C#", "D", "D#", "E", "F", "F#", "G", "G#", "A", "A#", "B"]

/-- The name of a pitch. -/
def name (p : Pitch) : String :=
  classNames.getD (p.index % 12).toNat "" ++ toString p.octave

end Pitch

end Melody
