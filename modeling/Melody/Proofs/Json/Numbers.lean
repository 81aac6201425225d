import Melody.Json.Record
import Melody.Proofs.Outcome
import Melody.Proofs.Text.Run

/-! Numbers end where a list or a record goes on, and those that are written are read back. -/

namespace Melody.Json

/-- A text is at its end, or it goes on with what may stand behind a value. -/
def Closed (rest : List Char) : Prop :=
  ∀ c ∈ rest.head?, c = ',' ∨ c = ']' ∨ c = Char.ofNat 0x7d

/-- The end of a text closes any number. -/
theorem closed_nil : Closed [] := by
  simp [Closed]

/-- A value is read off a text to the end of it, whatever may stand behind a value. -/
def Reads {β : Type} (read : Reader β) (text : List Char) (value : β) : Prop :=
  ∀ rest, Closed rest → read (text ++ rest) = .ok (value, rest)

/-- White space ends where a text begins that has none at its front. -/
theorem skipSpace_append {text : List Char} (rest : List Char) (some : skipSpace text ≠ []) :
    skipSpace (text ++ rest) = skipSpace text ++ rest := by
  unfold skipSpace at some ⊢
  rw [List.dropWhile_append, List.isEmpty_eq_false_iff.mpr some]
  rfl

section Scanning

variable {truncated : Fault} {text left rest : List Char}

/-- No digit stands behind a value. -/
theorem Closed.not_digit (closed : Closed rest) : ∀ c ∈ rest.head?, c.isDigit = false := by
  intro c member
  rcases closed c member with rfl | rfl | rfl <;> rfl

/-- A run of digits is not longer for what stands behind it. -/
theorem spanDigits_append (text : List Char) (closed : Closed rest) :
    Decimal.spanDigits (text ++ rest) =
      ((Decimal.spanDigits text).1, (Decimal.spanDigits text).2 ++ rest) := by
  have numeric : ∀ c ∈ text.takeWhile Char.isDigit, c.isDigit = true := Text.part_of_mem_takeWhile
  -- What follows the run is the rest of its own text, or else what is closed.
  have stop : ∀ c ∈ (text.dropWhile Char.isDigit ++ rest).head?, c.isDigit = false := by
    have within := Text.head?_dropWhile_stop Char.isDigit text
    cases behind : text.dropWhile Char.isDigit with
    | nil => exact closed.not_digit
    | cons c more =>
      rw [behind] at within
      exact within
  have whole : text ++ rest =
      text.takeWhile Char.isDigit ++ (text.dropWhile Char.isDigit ++ rest) := by
    rw [← List.append_assoc, List.takeWhile_append_dropWhile]
  unfold Decimal.spanDigits
  rw [whole, Text.takeWhile_append_stop numeric stop, Text.dropWhile_append_stop numeric stop]

/-- Digits are scanned the same in front of what closes them. -/
theorem scanDigits_append {digits : List Char} (closed : Closed rest)
    (scanned : scanDigits truncated text = .ok (digits, left)) :
    scanDigits truncated (text ++ rest) = .ok (digits, left ++ rest) := by
  unfold scanDigits at scanned ⊢
  -- What closes the digits is no digit, so the run ends where it did.
  rw [spanDigits_append text closed]
  generalize Decimal.spanDigits text = span at scanned ⊢
  obtain ⟨run, behind⟩ := span
  cases run with
  | nil => cases behind <;> contradiction
  | cons digit more =>
    cases scanned
    rfl

/-- A zero stands alone, which is seen from the character behind it. -/
theorem scanWhole_zero (behind : List Char) :
    scanWhole truncated ('0' :: behind) =
      if behind.head?.any Char.isDigit then .error .malformed else .ok (['0'], behind) := by
  cases behind <;> rfl

/-- Digits that do not start with a zero are read as a run. -/
theorem scanWhole_cons {first : Char} (behind : List Char) (above : first ≠ '0') :
    scanWhole truncated (first :: behind) =
      match Decimal.spanDigits (first :: behind) with
      | ([], _) => .error .malformed
      | (digits, rest) => .ok (digits, rest) := by
  unfold scanWhole
  split
  · contradiction
  · exact absurd (List.cons.inj ‹_›).1 above
  · rfl

/-- The whole part is scanned the same in front of what closes it. -/
theorem scanWhole_append {digits : List Char} (closed : Closed rest)
    (scanned : scanWhole truncated text = .ok (digits, left)) :
    scanWhole truncated (text ++ rest) = .ok (digits, left ++ rest) := by
  cases text with
  | nil => contradiction
  | cons first behind =>
    rw [List.cons_append]
    -- A zero must stand alone, any other digit begins a run.
    by_cases zero : first = '0'
    · rw [zero, scanWhole_zero] at scanned ⊢
      have alone : (behind ++ rest).head?.any Char.isDigit = false := by
        cases behind with
        | nil =>
          rw [List.nil_append, Option.any_eq_false]
          exact closed.not_digit
        | cons next more =>
          cases digit : next.isDigit with
          | false => simpa using digit
          | true => simp [digit] at scanned
      rw [alone]
      split at scanned
      · contradiction
      · cases scanned
        rfl
    · rw [scanWhole_cons _ zero] at scanned ⊢
      rw [← List.cons_append, spanDigits_append _ closed]
      generalize Decimal.spanDigits (first :: behind) = span at scanned ⊢
      obtain ⟨run, after⟩ := span
      cases run with
      | nil => contradiction
      | cons digit more =>
        cases scanned
        rfl

/-- Without a point there is no fraction. -/
theorem scanFraction_of_ne (plain : ∀ c ∈ text.head?, c ≠ '.') :
    scanFraction truncated text = .ok (none, text) := by
  unfold scanFraction
  split
  · exact absurd rfl (plain '.' rfl)
  · rfl

/-- The fraction is scanned the same in front of what closes it. -/
theorem scanFraction_append {digits? : Option (List Char)} (closed : Closed rest)
    (scanned : scanFraction truncated text = .ok (digits?, left)) :
    scanFraction truncated (text ++ rest) = .ok (digits?, left ++ rest) := by
  cases text with
  | nil =>
    -- What stands behind a value is no point.
    cases scanned
    refine scanFraction_of_ne fun c member => ?_
    rcases closed c member with rfl | rfl | rfl <;> decide
  | cons first behind =>
    by_cases point : first = '.'
    · subst point
      obtain ⟨⟨digits, after⟩, found, same⟩ := bind_eq_ok.mp scanned
      cases same
      exact bind_eq_ok.mpr ⟨_, scanDigits_append closed found, rfl⟩
    · have plain : ∀ {more : List Char}, ∀ c ∈ (first :: more).head?, c ≠ '.' := by
        rintro more c ⟨⟩
        exact point
      rw [scanFraction_of_ne plain] at scanned
      cases scanned
      exact scanFraction_of_ne plain

/-- A sign in front of the digits of a power is read before what is behind it. -/
theorem splitSign_append {first : Char} (behind : List Char) (rest : List Char) :
    Decimal.splitSign (first :: behind ++ rest) =
      ((Decimal.splitSign (first :: behind)).1,
        (Decimal.splitSign (first :: behind)).2 ++ rest) := by
  unfold Decimal.splitSign
  rw [List.cons_append]
  split <;> simp_all

/-- The power of ten is scanned the same in front of what closes it. -/
theorem scanPower_append {power? : Option Int} (closed : Closed rest)
    (scanned : scanPower truncated text = .ok (power?, left)) :
    scanPower truncated (text ++ rest) = .ok (power?, left ++ rest) := by
  cases text with
  | nil =>
    cases scanned
    cases rest with
    | nil => rfl
    | cons c more =>
      have plain : ¬(c = 'e' ∨ c = 'E') := by
        rcases closed c rfl with rfl | rfl | rfl <;> decide
      exact if_neg plain
  | cons mark behind =>
    rw [List.cons_append]
    rw [scanPower] at scanned ⊢
    -- Only the two marks of a power are followed by a sign and digits.
    by_cases power : mark = 'e' ∨ mark = 'E'
    · rw [if_pos power] at scanned ⊢
      cases behind with
      | nil => contradiction
      | cons sign more =>
        obtain ⟨⟨digits, after⟩, found, same⟩ := bind_eq_ok.mp scanned
        cases same
        rw [splitSign_append]
        exact bind_eq_ok.mpr ⟨_, scanDigits_append closed found, rfl⟩
    · rw [if_neg power] at scanned ⊢
      cases scanned
      rfl

/-- Reads a number behind its sign. -/
def scanSize (truncated : Fault) (negative : Bool) (text : List Char) :
    Except Fault (Numeral × List Char) := do
  let (digits, rest) ← scanWhole truncated text
  let (fraction?, rest) ← scanFraction truncated rest
  let (power?, rest) ← scanPower truncated rest
  return (.ofDigits negative digits fraction? power?, rest)

/-- A minus makes the size behind it negative. -/
theorem scanNumber_minus (text : List Char) :
    scanNumber truncated ('-' :: text) = scanSize truncated true text :=
  rfl

/-- Without a minus a number is its size. -/
theorem scanNumber_of_ne {first : Char} (text : List Char) (plain : first ≠ '-') :
    scanNumber truncated (first :: text) = scanSize truncated false (first :: text) := by
  -- The other branch is for a text that begins with the sign.
  unfold scanNumber
  split
  rename_i split
  simp [plain] at split
  obtain ⟨rfl, rfl⟩ := split
  rfl

/-- The size of a number is scanned the same in front of what closes it. -/
theorem scanSize_append {negative : Bool} {number : Numeral} (closed : Closed rest)
    (scanned : scanSize truncated negative text = .ok (number, left)) :
    scanSize truncated negative (text ++ rest) = .ok (number, left ++ rest) := by
  -- The three parts are read one after another, each of them ending where it did.
  obtain ⟨⟨digits, one⟩, whole, scanned⟩ := bind_eq_ok.mp scanned
  obtain ⟨⟨fraction?, two⟩, fraction, scanned⟩ := bind_eq_ok.mp scanned
  obtain ⟨⟨power?, three⟩, power, same⟩ := bind_eq_ok.mp scanned
  cases same
  refine bind_eq_ok.mpr ⟨_, scanWhole_append closed whole, ?_⟩
  refine bind_eq_ok.mpr ⟨_, scanFraction_append closed fraction, ?_⟩
  exact bind_eq_ok.mpr ⟨_, scanPower_append closed power, rfl⟩

/-- A number that is read to some end is read so whatever may stand behind a value. -/
theorem scanNumber_append {number : Numeral} (closed : Closed rest)
    (scanned : scanNumber truncated text = .ok (number, left)) :
    scanNumber truncated (text ++ rest) = .ok (number, left ++ rest) := by
  cases text with
  | nil => contradiction
  | cons first behind =>
    -- The sign is split off first, the rest is the size either way.
    by_cases minus : first = '-'
    · subst minus
      exact scanSize_append closed scanned
    · rw [List.cons_append, scanNumber_of_ne _ minus]
      rw [scanNumber_of_ne _ minus] at scanned
      exact scanSize_append closed scanned

end Scanning

variable {α : Type} [Numeric α]

/-- A number that is read to the end of its text is read so whatever may stand behind a value. -/
theorem reads_number {text : List Char} {x : α} (whole : readNumber α text = .ok (x, [])) :
    Reads (readNumber α) text x := by
  intro rest closed
  unfold readNumber at whole ⊢
  -- What closes the number stands behind a text that is not blank.
  cases trimmed : skipSpace text with
  | nil =>
    rw [trimmed] at whole
    contradiction
  | cons first behind =>
    rw [skipSpace_append rest (by simp [trimmed])]
    rw [trimmed] at whole ⊢
    rw [List.cons_append]
    dsimp only at whole ⊢
    by_cases numeric : first = '-' ∨ first.isDigit
    · rw [if_pos numeric] at whole ⊢
      obtain ⟨⟨number, left⟩, scanned, valued⟩ := bind_eq_ok.mp whole
      refine bind_eq_ok.mpr ⟨_, scanNumber_append closed scanned, ?_⟩
      dsimp only at valued ⊢
      cases value : (Numeric.ofNumeral? number : Option α) with
      | none =>
        rw [value] at valued
        contradiction
      | some y =>
        rw [value] at valued
        cases valued
        rfl
    · rw [if_neg numeric] at whole
      contradiction

section Integers

/-- The digits of a number above zero do not start with a zero. -/
theorem head?_toDigits {n : Nat} (above : 0 < n) : ∀ c ∈ (Nat.toDigits 10 n).head?, c ≠ '0' := by
  induction n using Nat.strongRecOn with
  | ind n ih =>
    by_cases small : n < 10
    · rw [Nat.toDigits_of_lt_base small]
      rintro c ⟨⟩ zero
      exact absurd (Nat.digitChar_eq_zero.mp zero) (by omega)
    · -- The first digit is that of a tenth of the number.
      have large : 10 ≤ n := Nat.not_lt.mp small
      rw [Nat.toDigits_of_base_le (by decide) large, List.head?_append,
        Option.or_of_isSome (List.isSome_head?.mpr Nat.toDigits_ne_nil)]
      exact ih (n / 10) (by omega) (by omega)

/-- Digits are absorbed to the last one if their number fits a machine word. -/
theorem absorb_eq {digits : List Char} {number : Nat}
    (fits : Nat.ofDigitChars 10 digits number < UInt64.size) :
    absorb number digits = (Nat.ofDigitChars 10 digits number, 0) := by
  induction digits generalizing number with
  | nil => rfl
  | cons digit later ih =>
    rw [Nat.ofDigitChars_cons] at fits ⊢
    rw [absorb]
    generalize 10 * number + (digit.toNat - '0'.toNat) = next at fits ⊢
    -- The number does not become less with further digits.
    have grown : next ≤ Nat.ofDigitChars 10 later next := by
      rw [Nat.ofDigitChars_eq_ofDigitChars_zero]
      exact Nat.le_add_right_of_le (Nat.le_mul_of_pos_left _ (Nat.pow_pos (by decide)))
    rw [if_pos (Nat.lt_of_le_of_lt grown fits)]
    exact ih fits

/-- The digits of a number are a run of digits. -/
theorem spanDigits_toDigits (n : Nat) :
    Decimal.spanDigits (Nat.toDigits 10 n) = (Nat.toDigits 10 n, []) := by
  -- All digits are taken, and nothing is left behind them.
  have numeric : ∀ c ∈ Nat.toDigits 10 n, c.isDigit = true :=
    fun c member => Nat.isDigit_of_mem_toDigits (by decide) (by decide) member
  have stop : ∀ c ∈ ([] : List Char).head?, c.isDigit = false := by simp
  have taken := Text.takeWhile_append_stop numeric stop
  have dropped := Text.dropWhile_append_stop numeric stop
  rw [List.append_nil] at taken dropped
  rw [Decimal.spanDigits, taken, dropped]

/-- The digits of a number are read as a whole. -/
theorem scanWhole_toDigits (truncated : Fault) (n : Nat) :
    scanWhole truncated (Nat.toDigits 10 n) = .ok (Nat.toDigits 10 n, []) := by
  cases n with
  | zero => rfl
  | succ n =>
    -- Only zero is written with a leading zero.
    have above := head?_toDigits (Nat.succ_pos n)
    obtain ⟨first, behind, digits⟩ := List.exists_cons_of_ne_nil
      (Nat.toDigits_ne_nil : Nat.toDigits 10 (n + 1) ≠ [])
    have span := spanDigits_toDigits (n + 1)
    rw [digits] at above span ⊢
    rw [scanWhole_cons _ (above first rfl), span]

/-- A number without a point and a power is read as its digits. -/
theorem scanSize_toDigits (truncated : Fault) (negative : Bool) (n : Nat) :
    scanSize truncated negative (Nat.toDigits 10 n) =
      .ok (.ofDigits negative (Nat.toDigits 10 n) none none, []) := by
  rw [scanSize, scanWhole_toDigits]
  rfl

/-- The number of its digits is the number itself if it fits a machine word. -/
theorem ofDigits_toDigits {negative : Bool} {n : Nat} (fits : n < UInt64.size) :
    Numeral.ofDigits negative (Nat.toDigits 10 n) none none =
      ⟨negative, n, 0, decide (negative → 0 < n ∧ n ≤ Int64.minValue.toInt.natAbs)⟩ := by
  have value : Nat.ofDigitChars 10 (Nat.toDigits 10 n) 0 = n := Nat.ofDigitChars_ten_toDigits
  have all : absorb 0 (Nat.toDigits 10 n) = (n, 0) := by
    rw [absorb_eq (value.symm ▸ fits), value]
  simp [Numeral.ofDigits, all, absorb]

/-- The integers of 32 bits. -/
def IsWord (index : Int) : Prop :=
  Int32.minValue.toInt ≤ index ∧ index ≤ Int32.maxValue.toInt

instance (index : Int) : Decidable (IsWord index) :=
  inferInstanceAs (Decidable (_ ∧ _))

/-- A number is the integer of its sign and its digits if it is whole and has 32 bits. -/
theorem integer_eq_ok_iff {number : Numeral} {index : Int} :
    number.integer = .ok index ↔ number.whole = true ∧ IsWord index ∧
      (if number.negative then -(number.significand : Int) else number.significand) = index := by
  unfold Numeral.integer IsWord
  generalize (if number.negative then -(number.significand : Int) else number.significand) = size
  -- A number with a fraction or a power is no integer, whatever it amounts to.
  cases number.whole with
  | false => simp
  | true =>
    simp only [Bool.not_true, Bool.false_eq_true, if_false, true_and]
    constructor
    · intro value
      split at value
      · cases value
        exact ⟨‹_›, rfl⟩
      · contradiction
    · rintro ⟨word, rfl⟩
      exact if_pos word

/-- A number is written with at least one digit. -/
theorem toDigits_eq_cons (n : Nat) :
    ∃ first behind, Nat.toDigits 10 n = first :: behind ∧ first.isDigit = true := by
  obtain ⟨first, behind, digits⟩ := List.exists_cons_of_ne_nil
    (Nat.toDigits_ne_nil : Nat.toDigits 10 n ≠ [])
  have numeric : ∀ c ∈ Nat.toDigits 10 n, c.isDigit = true :=
    fun c member => Nat.isDigit_of_mem_toDigits (by decide) (by decide) member
  exact ⟨first, behind, digits, numeric first (digits ▸ List.mem_cons_self ..)⟩

/-- An integer is written with its digits, and with a sign in front if it is below zero. -/
theorem toList_toString (index : Int) :
    (toString index).toList =
      if index < 0 then '-' :: Nat.toDigits 10 index.natAbs else Nat.toDigits 10 index.natAbs := by
  -- Integers are written as their size, behind a minus if they are negative.
  cases index with
  | ofNat n =>
    rw [if_neg (show ¬Int.ofNat n < 0 from Int.not_lt.mpr (Int.natCast_nonneg n))]
    exact Nat.toList_repr
  | negSucc n =>
    rw [if_pos (Int.negSucc_lt_zero n)]
    show ("-" ++ (n + 1).repr).toList = _
    rw [String.toList_append, Nat.toList_repr]
    rfl

/-- A written integer starts with its sign or with a digit. -/
theorem toString_eq_cons (index : Int) :
    ∃ first behind, (toString index).toList = first :: behind ∧
      (first = '-' ∨ first.isDigit = true) := by
  obtain ⟨first, behind, digits, numeric⟩ := toDigits_eq_cons index.natAbs
  rw [toList_toString, digits]
  split
  · exact ⟨'-', _, rfl, Or.inl rfl⟩
  · exact ⟨first, behind, rfl, Or.inr numeric⟩

/-- An integer of 32 bits is scanned as a whole number, whatever is to blame if a text ends. -/
theorem scanNumber_toString {index : Int} (word : IsWord index) (truncated : Fault) :
    ∃ number, scanNumber truncated (toString index).toList = .ok (number, []) ∧
      number.whole = true ∧ number.integer = .ok index := by
  have lowest : Int32.minValue.toInt = -2147483648 := rfl
  have highest : Int32.maxValue.toInt = 2147483647 := rfl
  have size : UInt64.size = 18446744073709551616 := rfl
  have deepest : Int64.minValue.toInt.natAbs = 9223372036854775808 := rfl
  obtain ⟨least, most⟩ := id word
  have scanned := scanSize_toDigits truncated (decide (index < 0)) index.natAbs
  rw [ofDigits_toDigits (by omega)] at scanned
  have whole : decide (decide (index < 0) = true → 0 < index.natAbs ∧
      index.natAbs ≤ Int64.minValue.toInt.natAbs) = true := by
    rw [decide_eq_true_iff, decide_eq_true_iff]
    omega
  refine ⟨⟨decide (index < 0), index.natAbs, 0, _⟩, ?_, whole,
    integer_eq_ok_iff.mpr ⟨whole, word, ?_⟩⟩
  · -- The sign is read before the digits, or there is none and a digit comes first.
    refine Eq.trans ?_ scanned
    rw [toList_toString]
    by_cases below : index < 0
    · rw [if_pos below, decide_eq_true below, scanNumber_minus]
    · obtain ⟨first, behind, digits, numeric⟩ := toDigits_eq_cons index.natAbs
      have plain : first ≠ '-' := by
        rintro rfl
        contradiction
      rw [if_neg below, decide_eq_false below, digits, scanNumber_of_ne _ plain]
  · by_cases below : index < 0
    · simp only [below, decide_true, if_true]
      omega
    · simp only [below, decide_false, Bool.false_eq_true, if_false]
      omega

variable {α : Type} [Numeric α]

/-- Numbers that are whole and fit a machine word are within range. -/
def HoldsWhole (α : Type) [Numeric α] : Prop :=
  ∀ number : Numeral, number.whole = true → (Numeric.ofNumeral? number : Option α).isSome

/-- A number does not start with white space. -/
theorem isSpace_of_numeric {c : Char} (numeric : c = '-' ∨ c.isDigit = true) :
    isSpace c = false := by
  rcases numeric with rfl | digit
  · rfl
  · simp only [isSpace, Bool.or_eq_false_iff, beq_eq_false_iff_ne]
    refine ⟨⟨⟨?_, ?_⟩, ?_⟩, ?_⟩ <;> rintro rfl <;> contradiction

/-- An integer of 32 bits is read back from its text. -/
theorem reads_integer (holds : HoldsWhole α) {index : Int} (word : IsWord index) :
    Reads (readInteger α) (toString index).toList index := by
  intro rest closed
  -- The text begins with a minus or a digit, and so is taken for a number.
  obtain ⟨first, behind, text, numeric⟩ := toString_eq_cons index
  obtain ⟨number, scanned, whole, value⟩ := scanNumber_toString word .endOfText
  have further := scanNumber_append closed scanned
  have front : skipSpace ((toString index).toList ++ rest) = first :: (behind ++ rest) := by
    rw [text]
    exact List.dropWhile_cons_of_neg (Bool.eq_false_iff.mp (isSpace_of_numeric numeric))
  rw [text, List.cons_append] at further
  unfold readInteger
  rw [front]
  dsimp only
  rw [if_pos numeric]
  refine bind_eq_ok.mpr ⟨_, further, ?_⟩
  have held : (Numeric.ofNumeral? number : Option α).isNone = false :=
    Option.isNone_eq_false_iff.mpr (holds number whole)
  rw [held, value]
  rfl

/-- An integer that is read has 32 bits. -/
theorem word_of_readInteger {text rest : List Char} {index : Int}
    (read : readInteger α text = .ok (index, rest)) : IsWord index := by
  unfold readInteger at read
  cases trimmed : skipSpace text with
  | nil =>
    rw [trimmed] at read
    contradiction
  | cons first behind =>
    rw [trimmed] at read
    dsimp only at read
    by_cases numeric : first = '-' ∨ first.isDigit
    · rw [if_pos numeric] at read
      obtain ⟨⟨number, left⟩, _, read⟩ := bind_eq_ok.mp read
      -- A number out of range is refused before it is taken as an integer.
      split at read
      · contradiction
      · cases value : number.integer with
        | error cause =>
          rw [value] at read
          contradiction
        | ok index =>
          rw [value] at read
          cases read
          exact (integer_eq_ok_iff.mp value).2.1
    · rw [if_neg numeric] at read
      contradiction

end Integers

end Melody.Json
