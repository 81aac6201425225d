import Melody.Notation.Token
import Melody.Proofs.Text.Run

/-! A pitch has names of its own, each of which is read to its end before other texts. -/

namespace Melody

/-- What starts a text is no part of a pitch name. -/
def Notation.Aside (text : List Char) : Prop :=
  ∀ c ∈ text.head?, Notation.isPitchPart c = false

namespace Letter

/-- The character that names a letter. -/
def symbol : Letter → Char
  | c => 'C'
  | d => 'D'
  | e => 'E'
  | f => 'F'
  | g => 'G'
  | a => 'A'
  | b => 'B'

/-- A letter is read off its own character. -/
@[simp] theorem ofChar?_symbol (letter : Letter) : ofChar? letter.symbol = some letter := by
  cases letter <;> rfl

/-- No other character names a letter. -/
theorem eq_symbol_of_ofChar? {c : Char} {letter : Letter} (named : ofChar? c = some letter) :
    c = letter.symbol := by
  -- Each of the seven characters is the one of the letter it names.
  unfold ofChar? at named
  split at named <;> cases named <;> rfl

end Letter

namespace Accidental

open Notation

/-- No character of an accidental starts a text. -/
def Unsigned (text : List Char) : Prop :=
  ∀ c ∈ text.head?, c ≠ '#' ∧ c ≠ 's' ∧ c ≠ 'x' ∧ c ≠ 'b'

/-- A text that starts with no sign has no accidental. -/
theorem scan_of_unsigned {text : List Char} (plain : Unsigned text) :
    scan text = (natural, text) := by
  -- The first character is no sign, and only signs are taken.
  cases text with
  | nil => rfl
  | cons c rest =>
    have apart := plain c rfl
    unfold scan
    split <;> simp_all

/-- One sharp is read before a text that starts with no other. -/
theorem scan_sharp {text : List Char} (plain : Unsigned text) :
    scan ('#' :: text) = (sharp, text) := by
  -- A second sharp would have been taken, but the text begins with no sign.
  cases text with
  | nil => rfl
  | cons c rest =>
    have apart := plain c rfl
    unfold scan
    split <;> simp_all

/-- One flat is read before a text that starts with no other. -/
theorem scan_flat {text : List Char} (plain : Unsigned text) :
    scan ('b' :: text) = (flat, text) := by
  -- A second flat would have been taken, but the text begins with no sign.
  cases text with
  | nil => rfl
  | cons c rest =>
    have apart := plain c rfl
    unfold scan
    split <;> simp_all

/-- The ways to write an accidental. -/
inductive Sign where
  | none
  | sharp
  /-- A sharp written as a letter. -/
  | sharpLetter
  | doubleSharp
  /-- A double sharp written as one letter. -/
  | doubleSharpLetter
  | flat
  | doubleFlat
deriving DecidableEq, Repr

namespace Sign

/-- The characters of a sign. -/
def spelling : Sign → List Char
  | none => []
  | sharp => ['#']
  | sharpLetter => ['s']
  | doubleSharp => ['#', '#']
  | doubleSharpLetter => ['x']
  | flat => ['b']
  | doubleFlat => ['b', 'b']

/-- What a sign is written for. -/
def accidental : Sign → Accidental
  | none => natural
  | sharp | sharpLetter => .sharp
  | doubleSharp | doubleSharpLetter => .doubleSharp
  | flat => .flat
  | doubleFlat => .doubleFlat

/-- A sign is made of parts of a pitch name. -/
theorem part_of_mem (sign : Sign) : ∀ c ∈ sign.spelling, isPitchPart c = true := by
  cases sign <;> simp [spelling, isPitchPart]

/-- A sign is read to its end before a text that starts with no other. -/
theorem scan_spelling (sign : Sign) {rest : List Char} (plain : Unsigned rest) :
    scan (sign.spelling ++ rest) = (sign.accidental, rest) := by
  -- The signs that are the front of a longer one are told from it by what follows.
  cases sign with
  | none => exact scan_of_unsigned plain
  | sharp => exact scan_sharp plain
  | flat => exact scan_flat plain
  | sharpLetter | doubleSharp | doubleSharpLetter | doubleFlat => rfl

end Sign

/-- Whatever accidental is read, a sign for it stands in front of the rest. -/
theorem exists_sign (text : List Char) :
    ∃ sign : Sign, text = sign.spelling ++ (scan text).2 ∧ sign.accidental = (scan text).1 := by
  -- The signs are told apart as they are when they are read, the longest first.
  fun_cases scan text with
  | case1 rest => exact ⟨.doubleSharp, rfl, rfl⟩
  | case2 rest => exact ⟨.doubleFlat, rfl, rfl⟩
  | case3 rest single => exact ⟨.sharp, rfl, rfl⟩
  | case4 rest => exact ⟨.sharpLetter, rfl, rfl⟩
  | case5 rest => exact ⟨.doubleSharpLetter, rfl, rfl⟩
  | case6 rest single => exact ⟨.flat, rfl, rfl⟩
  | case7 => exact ⟨.none, rfl, rfl⟩

end Accidental

namespace Pitch

open Notation

/-- The octave that a run of digits stands for, the fourth when there are none. -/
def octaveOf (digits : List Char) : Int :=
  if digits.isEmpty then 4 else Decimal.value digits

/-- The number of digits decides on an octave, behind which the rest of a text stands. -/
theorem scanOctave_digits {digits rest : List Char} (numeric : ∀ c ∈ digits, c.isDigit = true)
    (plain : ∀ c ∈ rest.head?, c.isDigit = false) :
    scanOctave (digits ++ rest) =
      if 2 < digits.length then none else some (octaveOf digits, rest) := by
  -- The run of digits ends where the rest begins.
  have span : Decimal.spanDigits (digits ++ rest) = (digits, rest) := by
    rw [Decimal.spanDigits, Text.takeWhile_append_stop numeric plain,
      Text.dropWhile_append_stop numeric plain]
  rw [scanOctave, span]
  cases digits with
  | nil => rfl
  | cons d others => rfl

/-- A way to write a pitch that is not below the keyboard. -/
structure Spelling where
  letter : Letter
  sign : Accidental.Sign
  digits : List Char
  /-- The octave is written in decimal digits. -/
  numeric : ∀ c ∈ digits, c.isDigit = true
  /-- The octave has two digits at most. -/
  few : digits.length ≤ 2
  /-- The first semitone of the keyboard is not passed on the way down. -/
  reached : 0 ≤ octaveOf digits * 12 + letter.offset + sign.accidental.offset

namespace Spelling

/-- The pitch that is written. -/
def pitch (spelled : Spelling) : Pitch :=
  ⟨octaveOf spelled.digits * 12 + spelled.letter.offset + spelled.sign.accidental.offset⟩

/-- The characters behind the letter. -/
def tail (spelled : Spelling) : List Char :=
  spelled.sign.spelling ++ spelled.digits

/-- All that stands behind the letter is a part of the name. -/
theorem part_of_mem_tail (spelled : Spelling) : ∀ c ∈ spelled.tail, isPitchPart c = true := by
  intro c member
  rcases List.mem_append.mp member with inSign | inDigits
  · exact spelled.sign.part_of_mem c inSign
  · simp [isPitchPart, spelled.numeric c inDigits]

/-- The digits of an octave, or what follows instead of them, start with no sign. -/
theorem unsigned_digits (spelled : Spelling) {rest : List Char} (aside : Aside rest) :
    Accidental.Unsigned (spelled.digits ++ rest) := by
  -- No digit is a sign, and without digits the rest of the text comes next.
  intro c member
  cases digits : spelled.digits with
  | nil =>
    rw [digits] at member
    have apart := aside c member
    simp only [isPitchPart, Bool.or_eq_false_iff, beq_eq_false_iff_ne] at apart
    exact ⟨apart.1.1.1.2, apart.1.2, apart.2, apart.1.1.2⟩
  | cons d others =>
    have digit : d.isDigit = true := spelled.numeric d (digits ▸ List.mem_cons_self ..)
    rw [digits] at member
    cases member
    refine ⟨?_, ?_, ?_, ?_⟩ <;> rintro rfl <;> contradiction

/-- A pitch is read off its name, whatever follows that is no part of one. -/
theorem scan_eq (spelled : Spelling) {rest : List Char} (aside : Aside rest) :
    scan (spelled.letter.symbol :: (spelled.tail ++ rest)) = some (spelled.pitch, rest) := by
  -- What is no part of a name is no digit either, so that the octave ends there.
  have plain : ∀ c ∈ rest.head?, c.isDigit = false := by
    intro c member
    have apart := aside c member
    simp only [isPitchPart, Bool.or_eq_false_iff] at apart
    exact apart.1.1.1.1
  have signed := spelled.sign.scan_spelling (spelled.unsigned_digits aside)
  have octave := scanOctave_digits spelled.numeric plain
  rw [if_neg (Nat.not_lt.mpr spelled.few)] at octave
  have audible : named spelled.letter spelled.sign.accidental (octaveOf spelled.digits) =
      some spelled.pitch := if_neg (Int.not_lt.mpr spelled.reached)
  rw [tail, List.append_assoc]
  simp only [scan, Letter.ofChar?_symbol, signed, octave, audible, Option.bind_eq_bind,
    Option.bind_some]
  rfl

end Spelling

/-- An octave that is read was written with two digits at most. -/
theorem exists_of_scanOctave {text after : List Char} {octave : Int}
    (scanned : scanOctave text = some (octave, after)) :
    ∃ digits, text = digits ++ after ∧ (∀ c ∈ digits, c.isDigit = true) ∧ digits.length ≤ 2 ∧
      octaveOf digits = octave := by
  -- The digits are all that stand in front, and three of them would have been refused.
  have whole := List.takeWhile_append_dropWhile (p := Char.isDigit) (l := text)
  have numeric : ∀ c ∈ text.takeWhile Char.isDigit, c.isDigit = true := Text.part_of_mem_takeWhile
  rw [← whole, scanOctave_digits numeric (Text.head?_dropWhile_stop Char.isDigit text)] at scanned
  by_cases many : 2 < (text.takeWhile Char.isDigit).length
  · rw [if_pos many] at scanned
    contradiction
  · rw [if_neg many] at scanned
    cases scanned
    exact ⟨_, whole.symm, numeric, Nat.not_lt.mp many, rfl⟩

/-- A pitch that is read was written by one of its names. -/
theorem exists_of_scan {first : Char} {more after : List Char} {pitch : Pitch}
    (scanned : scan (first :: more) = some (pitch, after)) :
    ∃ spelled : Spelling, first = spelled.letter.symbol ∧ more = spelled.tail ++ after ∧
      spelled.pitch = pitch := by
  -- The name is put together from its parts in the order in which they are read.
  simp only [scan, Option.bind_eq_bind, Option.bind_eq_some_iff] at scanned
  obtain ⟨letter, lettered, ⟨octave, last⟩, read, found, audible, same⟩ := scanned
  cases same
  obtain ⟨sign, split, meant⟩ := Accidental.exists_sign more
  obtain ⟨digits, whole, numeric, few, rfl⟩ := exists_of_scanOctave read
  -- The semitones were counted before the pitch was given out.
  rw [← meant] at audible
  by_cases below : octaveOf digits * 12 + letter.offset + sign.accidental.offset < 0
  · have silent : named letter sign.accidental (octaveOf digits) = none := if_pos below
    rw [silent] at audible
    contradiction
  · have sounding : named letter sign.accidental (octaveOf digits) =
        some ⟨octaveOf digits * 12 + letter.offset + sign.accidental.offset⟩ := if_neg below
    rw [sounding] at audible
    cases audible
    refine ⟨⟨letter, sign, digits, numeric, few, Int.not_lt.mp below⟩,
      Letter.eq_symbol_of_ofChar? lettered, ?_, rfl⟩
    rw [split, whole, Spelling.tail, List.append_assoc]

end Pitch

end Melody
