/-! Runs of characters of one kind end where the rest of a text begins. -/

namespace Melody.Text

variable {part : Char → Bool} {word rest : List Char}

/-- A run is all that is taken before a rest that does not go on with it. -/
theorem takeWhile_append_stop (within : ∀ c ∈ word, part c = true)
    (stop : ∀ c ∈ rest.head?, part c = false) : (word ++ rest).takeWhile part = word := by
  -- The run ends with the word, since the rest is empty or begins with something else.
  rw [List.takeWhile_append_of_pos within]
  cases rest with
  | nil => simp
  | cons c more =>
    have apart : part c = false := stop c rfl
    simp [apart]

/-- A rest that does not go on with a run is all that is left behind it. -/
theorem dropWhile_append_stop (within : ∀ c ∈ word, part c = true)
    (stop : ∀ c ∈ rest.head?, part c = false) : (word ++ rest).dropWhile part = rest := by
  -- Behind the word nothing more is dropped, since the rest is empty or begins otherwise.
  rw [List.dropWhile_append_of_pos within]
  cases rest with
  | nil => rfl
  | cons c more =>
    have apart : part c = false := stop c rfl
    simp [apart]

/-- What is left behind a run does not go on with it. -/
theorem head?_dropWhile_stop (part : Char → Bool) (text : List Char) :
    ∀ c ∈ (text.dropWhile part).head?, part c = false := by
  intro c member
  have stopped := List.head?_dropWhile_not part text
  rw [Option.mem_def.mp member] at stopped
  simpa using stopped

/-- All characters of a run are of its kind. -/
theorem part_of_mem_takeWhile {text : List Char} : ∀ c ∈ text.takeWhile part, part c = true :=
  List.all_eq_true.mp List.all_takeWhile

end Melody.Text
