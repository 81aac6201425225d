import Melody.Text.Bytes

/-! Places within a text, counted in bytes, and what stands there. -/

namespace Melody.Text

variable {text front rest word : List Char} {place : Nat}

/-- From a place on, where one of its characters begins or it ends, a text goes on with a rest. -/
def GoesOn (text : List Char) (place : Nat) (rest : List Char) : Prop :=
  ∃ front, text = front ++ rest ∧ byteLength front = place

/-- A word, maybe an empty one, stands at a place within a text, which does not end there. -/
def Shows (text : List Char) (place : Nat) (word : List Char) : Prop :=
  ∃ rest, GoesOn text place rest ∧ rest ≠ [] ∧ word <+: rest

namespace GoesOn

/-- A text goes on with all of itself at its start. -/
theorem start (text : List Char) : GoesOn text 0 text :=
  ⟨[], rfl, rfl⟩

/-- Behind the front of a rest the text goes on with what is left. -/
theorem behind (goesOn : GoesOn text place (front ++ rest)) :
    GoesOn text (place + byteLength front) rest := by
  obtain ⟨before, rfl, rfl⟩ := goesOn
  exact ⟨before ++ front, (List.append_assoc ..).symm, byteLength_append before front⟩

/-- A rest that something is left of shows each word that it begins with. -/
theorem shows (goesOn : GoesOn text place rest) (some : rest ≠ []) (begins : word <+: rest) :
    Shows text place word :=
  ⟨rest, goesOn, some, begins⟩

end GoesOn

namespace Shows

/-- A place where something stands comes before the end of the text. -/
theorem lt_byteLength (shows : Shows text place word) : place < byteLength text := by
  obtain ⟨rest, ⟨front, rfl, rfl⟩, some, _⟩ := shows
  have positive := List.length_pos_iff.mpr some
  have bytes := length_le_byteLength rest
  rw [byteLength_append]
  omega

/-- What stands at a place parts the text in front of it from what comes behind. -/
theorem split (shows : Shows text place word) :
    ∃ front rest, text = front ++ word ++ rest ∧ byteLength front = place := by
  obtain ⟨_, ⟨front, rfl, counted⟩, _, ⟨rest, rfl⟩⟩ := shows
  exact ⟨front, rest, (List.append_assoc ..).symm, counted⟩

end Shows

end Melody.Text
