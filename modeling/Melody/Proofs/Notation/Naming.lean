import Melody.Proofs.Notation.Spelling
import Melody.Proofs.Text.Slice

/-! Pitch names are read byte by byte, and what is cut out of a text is never cut within a
character. -/

namespace Melody

open Text (GoesOn Stop byteLength runBytes slice sliceFrom)

variable {ε : Type}

namespace Accidental

/-- The longest accidental at the front of a text, with the bytes that it takes. -/
def scanAt (text : List Char) : Accidental × Nat :=
  if ['#', '#'] <+: text then (doubleSharp, 2)
  else if ['b', 'b'] <+: text then (doubleFlat, 2)
  else if ['#'] <+: text ∨ ['s'] <+: text then (sharp, 1)
  else if ['x'] <+: text then (doubleSharp, 1)
  else if ['b'] <+: text then (flat, 1)
  else (natural, 0)

/-- An accidental takes the bytes in front of the text behind it. -/
theorem scanAt_eq (text : List Char) :
    ∃ word, text = word ++ (scan text).2 ∧ scanAt text = ((scan text).1, byteLength word) := by
  -- There is one case for each accidental, and one for none.
  fun_cases scan text with
  | case1 rest => exact ⟨['#', '#'], rfl, by simp [scanAt]; rfl⟩
  | case2 rest => exact ⟨['b', 'b'], rfl, by simp [scanAt]; rfl⟩
  | case4 rest => exact ⟨['s'], rfl, by simp [scanAt]; rfl⟩
  | case5 rest => exact ⟨['x'], rfl, by simp [scanAt]; rfl⟩
  | case3 rest single =>
    have alone : ¬ ['#'] <+: rest := by
      rintro ⟨more, rfl⟩
      exact single more rfl
    exact ⟨['#'], rfl, by simp [scanAt, alone]; rfl⟩
  | case6 rest single =>
    have alone : ¬ ['b'] <+: rest := by
      rintro ⟨more, rfl⟩
      exact single more rfl
    exact ⟨['b'], rfl, by simp [scanAt, alone]; rfl⟩
  | case7 _ _ _ sharp letter double flat =>
    refine ⟨[], rfl, ?_⟩
    cases text with
    | nil => rfl
    | cons c rest =>
      have apart : '#' ≠ c ∧ 's' ≠ c ∧ 'x' ≠ c ∧ 'b' ≠ c :=
        ⟨fun same => sharp rest (same ▸ rfl), fun same => letter rest (same ▸ rfl),
          fun same => double rest (same ▸ rfl), fun same => flat rest (same ▸ rfl)⟩
      simp [scanAt, apart, byteLength]

end Accidental

namespace Pitch

/-- Reads the octave in a number of digits that stand at a place, the fourth when there are none. -/
def octaveAt (input : List Char) (place digits : Nat) : Except (Stop ε) (Option Int) := do
  if digits = 0 then return some 4
  else if 2 < digits then return none
  else return Decimal.integer? (← slice input place (place + digits))

/-- Reads one pitch name at the front of a text, and the bytes that it takes. -/
def scanAt (input : List Char) : Except (Stop ε) (Option (Pitch × Nat)) := do
  match (Text.bytes input).head?.bind fun byte => Letter.ofChar? (Char.ofUInt8 byte) with
  | none => return none
  | some letter =>
    let (accidental, width) := Accidental.scanAt (← sliceFrom input 1)
    let place := 1 + width
    let digits := runBytes Char.isDigit (← sliceFrom input place)
    let octave ← octaveAt input place digits
    return (octave.bind (named letter accidental)).map fun pitch => (pitch, place + digits)

/-- Reads a whole text as a pitch name byte by byte. -/
def ofNameAt (name : String) : Except (Stop NameError) Pitch := do
  match ← scanAt name.toList with
  | some (pitch, width) =>
    if width = byteLength name.toList then return pitch else throw (.fault (.invalidName name))
  | none => throw (.fault (.invalidName name))

variable {input rest : List Char} {place : Nat}

/-- The first byte of a text names the letter that its first character does. -/
theorem letter_of_bytes (first : Char) (more : List Char) :
    ((Text.bytes (first :: more)).head?.bind fun byte => Letter.ofChar? (Char.ofUInt8 byte)) =
      Letter.ofChar? first := by
  have none_of_le : ∀ c : Char, 128 ≤ c.toNat → Letter.ofChar? c = none := by
    intro c long
    cases named : Letter.ofChar? c with
    | none => rfl
    | some letter =>
      rw [Letter.eq_symbol_of_ofChar? named] at long
      cases letter <;> exact absurd long (by decide)
  rw [Text.bytes, List.flatMap_cons]
  by_cases short : first.toNat < 128
  · obtain ⟨encoded, same, _⟩ := Text.utf8EncodeChar_of_lt short
    rw [encoded]
    show Letter.ofChar? (Char.ofUInt8 first.toUInt8) = _
    rw [same]
  · -- Neither the character nor its first byte names a letter.
    obtain ⟨byte, others, encoded, above⟩ := Text.utf8EncodeChar_of_le (Nat.le_of_not_lt short)
    rw [encoded, none_of_le first (Nat.le_of_not_lt short)]
    exact none_of_le (Char.ofUInt8 byte) above

/-- Digits take one byte. -/
theorem toNat_lt_of_isDigit (c : Char) (digit : c.isDigit = true) : c.toNat < 128 :=
  Text.toNat_lt_of_isAlphanum (by simp [Char.isAlphanum, digit])

/-- Digits alone are read as their value. -/
theorem integer?_digits {digits : List Char} (some : digits ≠ [])
    (all : ∀ c ∈ digits, c.isDigit = true) :
    Decimal.integer? digits = .some (Decimal.value digits : Int) := by
  have plain : Decimal.natural?.digitsOnly digits = .some (Decimal.value digits) := by
    have listed : digits.all Char.isDigit = true := List.all_eq_true.mpr all
    simp [Decimal.natural?.digitsOnly, listed, some]
  have unsigned : ∀ c more, digits = c :: more → c ≠ '-' ∧ c ≠ '+' := by
    rintro c more rfl
    have digit := all c (List.mem_cons_self ..)
    constructor <;> rintro rfl <;> contradiction
  -- Digits begin with neither sign, so they are read as they stand.
  unfold Decimal.integer?
  split
  · rename_i more
    exact absurd rfl (unsigned _ more rfl).1
  · unfold Decimal.natural?
    split
    · rename_i more _
      exact absurd rfl (unsigned _ more rfl).2
    · rw [plain]
      rfl

/-- A run of digits is read as the octave that a text starts with. -/
theorem octaveAt_eq (goesOn : GoesOn input place rest) :
    octaveAt (ε := ε) input place (runBytes Char.isDigit rest) =
      .ok ((scanOctave rest).map Prod.fst) := by
  have digits : ∀ c ∈ rest.takeWhile Char.isDigit, c.isDigit = true := Text.part_of_mem_takeWhile
  have counted := Text.runBytes_eq toNat_lt_of_isDigit rest
  have single := Text.byteLength_eq_length fun c member => toNat_lt_of_isDigit c (digits c member)
  rw [← List.takeWhile_append_dropWhile (p := Char.isDigit) (l := rest)] at goesOn
  have cut := goesOn.slice_eq (ε := ε)
  rw [single] at counted cut
  unfold octaveAt scanOctave Decimal.spanDigits
  -- No digits stand for the middle octave, and more than two for none.
  by_cases none : rest.takeWhile Char.isDigit = []
  · simp only [counted, none]
    rfl
  · by_cases many : 2 < (rest.takeWhile Char.isDigit).length
    · simp only [counted, List.length_eq_zero_iff, List.isEmpty_iff, none, many, if_false, if_true]
      rfl
    · simp only [counted, List.length_eq_zero_iff, List.isEmpty_iff, none, many, if_false, cut]
      show Except.ok (Decimal.integer? (rest.takeWhile Char.isDigit)) = _
      rw [integer?_digits none digits]
      rfl

/-- What is left behind an octave is left behind its digits. -/
theorem rest_of_scanOctave {text : List Char} {octave : Int}
    (scanned : scanOctave text = some (octave, rest)) : rest = text.dropWhile Char.isDigit := by
  unfold scanOctave Decimal.spanDigits at scanned
  dsimp only at scanned
  -- Whatever octave is found, the digits are what was passed.
  split at scanned
  · cases scanned
    rfl
  · split at scanned
    · contradiction
    · cases scanned
      rfl

/-- A name is read byte by byte as it is read, with no cut at a wrong place. -/
theorem scanAt_eq (input : List Char) :
    scanAt (ε := ε) input =
      .ok ((scan input).map fun (pitch, rest) => (pitch, byteLength input - byteLength rest)) := by
  cases input with
  | nil => rfl
  | cons first more =>
    rw [scanAt, letter_of_bytes]
    cases named : Letter.ofChar? first with
    | none => simp [scan, named]; rfl
    | some letter =>
      -- Only a character of one byte names a letter, so the text goes on from the second byte.
      have goesOn : GoesOn (first :: more) 1 more := by
        have one : first.utf8Size = 1 := by
          rw [Letter.eq_symbol_of_ofChar? named]
          cases letter <;> rfl
        exact (GoesOn.start (first :: more)).next one
      obtain ⟨word, split, found⟩ := Accidental.scanAt_eq more
      have behind : GoesOn (first :: more) (1 + byteLength word) (Accidental.scan more).2 :=
        GoesOn.behind (split ▸ goesOn)
      dsimp only
      rw [goesOn.sliceFrom_eq]
      show (Except.bind (sliceFrom (first :: more) (1 + (Accidental.scanAt more).2)) _) = _
      rw [found, behind.sliceFrom_eq]
      show (Except.bind (octaveAt _ _ _) _) = _
      rw [octaveAt_eq behind]
      cases scanned : scanOctave (Accidental.scan more).2 with
      | none =>
        simp only [scan, named, Option.bind_eq_bind, Option.bind_some, scanned, Option.bind_none]
        rfl
      | some found' =>
        obtain ⟨octave, rest⟩ := found'
        have last := behind.run toNat_lt_of_isDigit
        rw [← rest_of_scanOctave scanned] at last
        simp only [scan, named, Option.bind_eq_bind, Option.bind_some, scanned, last.place_eq]
        show Except.ok ((Pitch.named letter (Accidental.scan more).1 octave).map _) = _
        cases Pitch.named letter (Accidental.scan more).1 octave <;> rfl

/-- A text is read byte by byte as the pitch that it names, with no cut at a wrong place. -/
theorem ofNameAt_eq (name : String) : ofNameAt name = (ofName name).mapError .fault := by
  unfold ofNameAt ofName
  rw [scanAt_eq]
  cases scanned : scan name.toList with
  | none => rfl
  | some found =>
    obtain ⟨pitch, rest⟩ := found
    -- A name takes all bytes of the text exactly when nothing is left.
    show (if byteLength name.toList - byteLength rest = byteLength name.toList then _ else _) = _
    cases rest with
    | nil => exact if_pos rfl
    | cons c later =>
      have some := c.utf8Size_pos
      have bytes := Text.length_le_byteLength name.toList
      have present : 0 < name.toList.length := by
        generalize name.toList = input at scanned
        cases input with
        | nil => contradiction
        | cons first more => exact Nat.succ_pos _
      rw [Text.byteLength_cons]
      exact if_neg (by omega)

end Pitch

end Melody
