/-! Positions in a text, counted in the bytes of its encoding. -/

namespace Melody.Text

/-- The bytes that a text takes when encoded with one to four bytes for each character. -/
def byteLength (text : List Char) : Nat :=
  text.foldr (fun c total => c.utf8Size + total) 0

/-- The length of a longer text is the length of its first character and of the rest. -/
@[simp] theorem byteLength_cons (c : Char) (text : List Char) :
    byteLength (c :: text) = c.utf8Size + byteLength text :=
  rfl

/-- Lengths add up when texts are joined. -/
@[simp] theorem byteLength_append (first second : List Char) :
    byteLength (first ++ second) = byteLength first + byteLength second := by
  induction first with
  | nil => exact (Nat.zero_add _).symm
  | cons c rest ih =>
    rw [List.cons_append, byteLength_cons, byteLength_cons, ih, Nat.add_assoc]

/-- Every character takes at least one byte. -/
theorem length_le_byteLength (text : List Char) : text.length ≤ byteLength text := by
  induction text with
  | nil => exact Nat.le_refl _
  | cons c rest ih =>
    have positive := c.utf8Size_pos
    simp only [List.length_cons, byteLength_cons]
    omega

/-- The pieces of a text between occurrences of a separator. -/
def pieces (separator : Char) : List Char → List (List Char)
  | [] => [[]]
  | c :: rest =>
    if c = separator then [] :: pieces separator rest
    else match pieces separator rest with
      | [] => [[c]]
      | piece :: others => (c :: piece) :: others

/-- Pieces joined by their separator are the text they were cut from. -/
theorem intercalate_pieces (separator : Char) (text : List Char) :
    List.intercalate [separator] (pieces separator text) = text := by
  induction text with
  | nil => rfl
  | cons c rest ih =>
    -- The first piece grows by the character, unless a new piece starts after it.
    by_cases same : c = separator
    · cases cut : pieces separator rest with
      | nil => simp_all [pieces, List.intercalate]
      | cons piece others => simp_all [pieces, List.intercalate]
    · cases cut : pieces separator rest with
      | nil => simp_all [pieces, List.intercalate]
      | cons piece others =>
        cases others <;> simp_all [pieces, List.intercalate]

end Melody.Text
