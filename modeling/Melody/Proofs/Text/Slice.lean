import Mathlib
import Melody.Proofs.Text.Place
import Melody.Proofs.Text.Run

/-! A text is cut by places that are counted in bytes, which succeeds only between characters. -/

namespace Melody.Text

section Bytes

/-- The bytes that encode a text. -/
def bytes (text : List Char) : List UInt8 :=
  text.flatMap String.utf8EncodeChar

/-- A text has as many bytes as its characters take. -/
theorem length_bytes (text : List Char) : (bytes text).length = byteLength text := by
  -- Both sums go over the characters, each with its own number of bytes.
  induction text with
  | nil => rfl
  | cons c text ih =>
    rw [bytes, List.flatMap_cons, List.length_append, String.length_utf8EncodeChar, ← bytes, ih,
      byteLength_cons]

/-- A character of one byte is its own code. -/
theorem utf8EncodeChar_of_lt {c : Char} (short : c.toNat < 128) :
    String.utf8EncodeChar c = [c.toUInt8] ∧ Char.ofUInt8 c.toUInt8 = c ∧ c.utf8Size = 1 := by
  have one : c.utf8Size = 1 := Char.utf8Size_eq_one_iff.mpr (Nat.le_of_lt_succ short)
  -- Below 128 the code is not changed when it is cut to one byte.
  refine ⟨String.utf8EncodeChar_eq_singleton one, Char.ext (UInt32.toNat_inj.mp ?_), one⟩
  exact Nat.mod_eq_of_lt (Nat.lt_trans short (by decide))

/-- Letters and digits take one byte. -/
theorem toNat_lt_of_isAlphanum {c : Char} (alphanumeric : c.isAlphanum = true) : c.toNat < 128 := by
  -- The three ranges of codes that are asked for all end below 128.
  simp only [Char.isAlphanum, Char.isDigit, Char.isAlpha, Char.isUpper, Char.isLower,
    Bool.or_eq_true, Bool.and_eq_true, decide_eq_true_eq, ge_iff_le, UInt32.le_iff_toNat_le]
    at alphanumeric
  simp at alphanumeric
  omega

/-- A character of more bytes begins with one that is no code of a character of one byte. -/
theorem utf8EncodeChar_of_le {c : Char} (long : 128 ≤ c.toNat) :
    ∃ first more, String.utf8EncodeChar c = first :: more ∧ 128 ≤ first.toNat := by
  have large : ¬ c.val.toNat ≤ 127 := Nat.not_le_of_lt long
  unfold String.utf8EncodeChar
  simp only [large, if_false]
  -- There is one case for each number of bytes, and each marks its first byte with the high bit.
  split
  · exact ⟨_, _, rfl, by simp; omega⟩
  · split
    · exact ⟨_, _, rfl, by simp; omega⟩
    · exact ⟨_, _, rfl, by simp; omega⟩

/-- Characters of one byte each take as many bytes as there are of them. -/
theorem byteLength_eq_length {text : List Char} (short : ∀ c ∈ text, c.toNat < 128) :
    byteLength text = text.length := by
  induction text with
  | nil => rfl
  | cons c text ih =>
    obtain ⟨first, later⟩ := List.forall_mem_cons.mp short
    rw [byteLength_cons, (utf8EncodeChar_of_lt first).2.2, ih later, List.length_cons, Nat.add_comm]

/-- The number of bytes at the front of a text that are the codes of characters of one kind. -/
def runBytes (part : Char → Bool) (text : List Char) : Nat :=
  ((bytes text).takeWhile fun byte => part (Char.ofUInt8 byte)).length

/-- Characters of one byte are taken byte by byte as they are taken one by one. -/
theorem runBytes_eq {part : Char → Bool} (short : ∀ c, part c = true → c.toNat < 128)
    (text : List Char) : runBytes part text = byteLength (text.takeWhile part) := by
  induction text with
  | nil => rfl
  | cons c text ih =>
    unfold runBytes bytes at ih ⊢
    by_cases small : c.toNat < 128
    · -- Such a character is its only byte, and so the byte passes the same test.
      obtain ⟨encoded, same, one⟩ := utf8EncodeChar_of_lt small
      rw [List.flatMap_cons, encoded, List.singleton_append]
      cases taken : part c with
      | false => simp [same, taken, byteLength]
      | true => simp [same, taken, ih, one, Nat.add_comm]
    · -- Neither the character nor its first byte is taken.
      obtain ⟨first, more, encoded, above⟩ := utf8EncodeChar_of_le (Nat.le_of_not_lt small)
      have apart : part c = false := Bool.eq_false_iff.mpr fun taken => small (short c taken)
      have apart' : part (Char.ofUInt8 first) = false :=
        Bool.eq_false_iff.mpr fun taken => Nat.not_lt_of_le above (short _ taken)
      rw [List.flatMap_cons, encoded, List.cons_append]
      simp [apart, apart', byteLength]

end Bytes

section Slices

variable {text word rest : List Char} {place : Nat}

/-- A place at which a character of a text begins or the text ends. -/
def IsBoundary (text : List Char) (place : Nat) : Prop :=
  String.Pos.Raw.IsValid (String.ofList text) ⟨place⟩

instance (text : List Char) (place : Nat) : Decidable (IsBoundary text place) :=
  inferInstanceAs (Decidable (String.Pos.Raw.IsValid (String.ofList text) ⟨place⟩))

/-- The base library and a list of characters count the same bytes of a text. -/
theorem utf8ByteSize_ofList (text : List Char) :
    (String.ofList text).utf8ByteSize = byteLength text := by
  rw [← length_bytes]
  show (String.ofList text).toByteArray.size = _
  rw [String.toByteArray_ofList, List.utf8Encode, List.size_toByteArray, bytes]

/-- A text goes on from each of its boundaries, and from no other place. -/
theorem isBoundary_iff : IsBoundary text place ↔ ∃ rest, GoesOn text place rest := by
  unfold IsBoundary
  simp only [String.Pos.Raw.isValid_ofList, utf8ByteSize_ofList]
  -- The base library counts the characters before a boundary, and this list splits there.
  constructor
  · rintro ⟨count, rfl⟩
    exact ⟨text.drop count, text.take count, (List.take_append_drop ..).symm, rfl⟩
  · rintro ⟨rest, front, rfl, rfl⟩
    exact ⟨front.length, by rw [List.take_left]⟩

/-- What is left of a text behind a number of bytes. -/
def dropBytes : List Char → Nat → List Char
  | [], _ => []
  | c :: text, count => if count = 0 then c :: text else dropBytes text (count - c.utf8Size)

/-- What a text has within a number of bytes. -/
def takeBytes : List Char → Nat → List Char
  | [], _ => []
  | c :: text, count => if count = 0 then [] else c :: takeBytes text (count - c.utf8Size)

/-- Dropping as many bytes as a front has leaves what is behind it. -/
@[simp] theorem dropBytes_append (front rest : List Char) :
    dropBytes (front ++ rest) (byteLength front) = rest := by
  induction front with
  | nil => cases rest <;> rfl
  | cons c front ih =>
    -- Every character takes a byte or more, so the count does not end before the front does.
    have positive := c.utf8Size_pos
    rw [List.cons_append, dropBytes, byteLength_cons, if_neg (by omega), Nat.add_sub_cancel_left]
    exact ih

/-- Taking as many bytes as a word has gives the word. -/
@[simp] theorem takeBytes_append (word rest : List Char) :
    takeBytes (word ++ rest) (byteLength word) = word := by
  induction word with
  | nil => cases rest <;> rfl
  | cons c word ih =>
    -- As above, the count ends with the word and not within it.
    have positive := c.utf8Size_pos
    rw [List.cons_append, takeBytes, byteLength_cons, if_neg (by omega), Nat.add_sub_cancel_left,
      ih]

/-- Why a text is not read to its end by places. -/
inductive Stop (ε : Type) where
  /-- It is cut behind its end or within a character. -/
  | cut
  /-- It is not read within the rounds that are allowed. -/
  | endless
  /-- It has a fault. -/
  | fault (error : ε)
deriving DecidableEq, Repr

variable {ε : Type}

/-- Cuts off what comes before a place. -/
def sliceFrom (text : List Char) (place : Nat) : Except (Stop ε) (List Char) :=
  if IsBoundary text place then .ok (dropBytes text place) else .error .cut

/-- Cuts out what stands between two places. -/
def slice (text : List Char) (start stop : Nat) : Except (Stop ε) (List Char) :=
  if start ≤ stop ∧ IsBoundary text start ∧ IsBoundary text stop then
    .ok (takeBytes (dropBytes text start) (stop - start))
  else .error .cut

/-- A character of two bytes is not cut in two. -/
example : sliceFrom (ε := Unit) ['é', '4'] 1 = .error .cut := by cbv

namespace GoesOn

/-- A text is cut at a place to what it goes on with there. -/
theorem sliceFrom_eq (goesOn : GoesOn text place rest) :
    sliceFrom (ε := ε) text place = .ok rest := by
  -- The place lies between characters, which is all that cutting asks for.
  have boundary := isBoundary_iff.mpr ⟨rest, goesOn⟩
  obtain ⟨front, rfl, rfl⟩ := goesOn
  rw [sliceFrom, if_pos boundary, dropBytes_append]

/-- A word that stands at a place is cut out by its length. -/
theorem slice_eq (goesOn : GoesOn text place (word ++ rest)) :
    slice (ε := ε) text place (place + byteLength word) = .ok word := by
  -- Both ends lie between characters: the word starts at one and ends at the other.
  have first := isBoundary_iff.mpr ⟨word ++ rest, goesOn⟩
  have last := isBoundary_iff.mpr ⟨rest, goesOn.behind⟩
  obtain ⟨front, rfl, rfl⟩ := goesOn
  rw [slice, if_pos ⟨Nat.le_add_right _ _, first, last⟩, dropBytes_append,
    Nat.add_sub_cancel_left, takeBytes_append]

/-- Behind a character of one byte the text goes on from the next place. -/
theorem next {c : Char} (goesOn : GoesOn text place (c :: rest)) (one : c.utf8Size = 1) :
    GoesOn text (place + 1) rest := by
  obtain ⟨front, rfl, rfl⟩ := goesOn
  -- The character joins what comes before.
  refine ⟨front ++ [c], by simp, ?_⟩
  rw [byteLength_append, byteLength_cons, one]
  rfl

/-- Behind a run of characters of one byte each the text goes on with what follows the run. -/
theorem run {part : Char → Bool} (goesOn : GoesOn text place rest)
    (short : ∀ c, part c = true → c.toNat < 128) :
    GoesOn text (place + runBytes part rest) (rest.dropWhile part) := by
  -- The run splits the rest, and its bytes are those of its characters.
  rw [runBytes_eq short]
  rw [← List.takeWhile_append_dropWhile (p := part) (l := rest)] at goesOn
  exact goesOn.behind

/-- An end of a rest is what the text goes on with behind all that comes before. -/
theorem ofSuffix {last : List Char} (goesOn : GoesOn text place rest) (suffix : last <:+ rest) :
    GoesOn text (byteLength text - byteLength last) last := by
  obtain ⟨front, rfl, rfl⟩ := goesOn
  obtain ⟨middle, rfl⟩ := suffix
  -- What is cut from the rest joins what comes before it.
  refine ⟨front ++ middle, (List.append_assoc ..).symm, ?_⟩
  rw [← List.append_assoc, byteLength_append (front ++ middle), Nat.add_sub_cancel]

/-- The place of a rest is known from how long the rest is. -/
theorem place_eq (goesOn : GoesOn text place rest) :
    place = byteLength text - byteLength rest := by
  obtain ⟨front, rfl, rfl⟩ := goesOn
  rw [byteLength_append, Nat.add_sub_cancel]

end GoesOn

end Slices

section Finding

/-- The characters of a text with their places. -/
def places (place : Nat) : List Char → List (Nat × Char)
  | [] => []
  | c :: text => (place, c) :: places (place + c.utf8Size) text

/-- The first place at which a character stands. -/
def placeOf? (c : Char) (text : List Char) : Option Nat :=
  ((places 0 text).find? fun found => found.2 == c).map Prod.fst

/-- The first character that ends a run stands behind the run. -/
theorem find?_places (part : Char → Bool) (place : Nat) (text : List Char) :
    (places place text).find? (fun found => !part found.2) =
      (text.dropWhile part).head?.map fun c => (place + byteLength (text.takeWhile part), c) := by
  -- The induction is on the text, with the place moving over each character that is passed.
  induction text generalizing place with
  | nil => rfl
  | cons c text ih =>
    cases taken : part c with
    | false => simp [places, taken, byteLength]
    | true => simp [places, taken, ih, Nat.add_assoc]

/-- The first place of a character is behind all that come before it. -/
theorem placeOf?_eq (c : Char) (text : List Char) :
    placeOf? c text =
      (text.dropWhile (· ≠ c)).head?.map fun _ => byteLength (text.takeWhile (· ≠ c)) := by
  -- Looking for a character is passing over a run of all others.
  have same : (fun found : Nat × Char => found.2 == c) = fun found => !decide (found.2 ≠ c) := by
    funext found
    by_cases found.2 = c <;> simp_all
  rw [placeOf?, same, find?_places fun d => decide (d ≠ c)]
  simp [Function.comp_def]

/-- A text that has a character is parted by the first of them. -/
theorem parted {c d : Char} {text after : List Char}
    (found : text.dropWhile (· ≠ c) = d :: after) :
    d = c ∧ text = text.takeWhile (· ≠ c) ++ c :: after := by
  -- What ends the run is not one of the others.
  have same : d = c := by
    have stop := head?_dropWhile_stop (· ≠ c) text
    rw [found] at stop
    simpa using stop d rfl
  subst same
  refine ⟨rfl, ?_⟩
  rw [← found]
  exact List.takeWhile_append_dropWhile.symm

/-- No character stands before the place at which the text starts. -/
theorem le_of_mem_places {place : Nat} {text : List Char} {found : Nat × Char}
    (member : found ∈ places place text) : place ≤ found.1 := by
  induction text generalizing place with
  | nil => contradiction
  | cons c text ih =>
    -- Places only grow along a text.
    rcases List.mem_cons.mp member with rfl | behind
    · exact Nat.le_refl _
    · exact Nat.le_of_add_right_le (ih behind)

end Finding

end Melody.Text
