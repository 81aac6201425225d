/-! Lines of a text. -/

namespace Melody.Text

/-- A line without one carriage return at its end. -/
def dropReturn (line : List Char) : List Char :=
  match line.getLast? with
  | some '\r' => line.dropLast
  | _ => line

/-- What is left after a line break is a proper suffix of the text. -/
theorem length_after_break {text after : List Char} {c : Char}
    (found : text.dropWhile (· ≠ '\n') = c :: after) : after.length < text.length := by
  have bound := (List.dropWhile_sublist (l := text) (· ≠ '\n')).length_le
  rw [found, List.length_cons] at bound
  omega

/-- The lines of a text without their line breaks, where a break at the end opens no line. -/
def lines : List Char → List (List Char)
  | [] => []
  | c :: rest =>
    let line := (c :: rest).takeWhile (· ≠ '\n')
    match _found : (c :: rest).dropWhile (· ≠ '\n') with
    | [] => [line]
    | _ :: after => dropReturn line :: lines after
termination_by text => text.length
decreasing_by exact length_after_break _found

end Melody.Text
