import Melody.Pitch.Name
import Melody.Text.Blank
import Melody.Text.Bytes
import Melody.Text.Lines
import Melody.Notation.Error

/-! Tokens of notation and the text they are cut from. -/

namespace Melody.Notation

/-- The two pairs of brackets around phrases. -/
inductive Bracket where
  /-- A group that changes nothing. -/
  | round
  /-- A group that starts with the default properties. -/
  | square
deriving DecidableEq, Repr

namespace Bracket

/-- The character that opens a phrase. -/
def opening : Bracket → Char
  | round => '('
  | square => '['

/-- The character that closes a phrase. -/
def closing : Bracket → Char
  | round => ')'
  | square => ']'

end Bracket

/-- What one token stands for. -/
inductive Lexeme where
  | opening (bracket : Bracket)
  | closing (bracket : Bracket)
  | pitch (pitch : Pitch)
  | rest
  /-- The text between a pair of braces. -/
  | properties (body : List Char)
deriving DecidableEq, Repr

/-- A lexeme with the place at which it is written. -/
structure Token where
  lexeme : Lexeme
  offset : Nat
deriving DecidableEq, Repr

/-- Drops comments, which run from an exclamation mark to the end of the line, and all blanks. -/
def strip (text : List Char) : List Char :=
  (Text.lines text).flatMap fun line =>
    (line.takeWhile (· ≠ '!')).filter fun c => !Text.isBlank c

/-- The brace that opens a block of properties. -/
def openBrace : Char := Char.ofNat 0x7b

/-- The brace that closes a block of properties. -/
def closeBrace : Char := Char.ofNat 0x7d

/-- The characters that belong to a misspelled pitch name after its letter. -/
def isPitchPart (c : Char) : Bool :=
  c.isDigit || c == '#' || c == 'b' || c == 's' || c == 'x'

namespace Lexeme

variable {α : Type}

/-- Reads the body of a block that opens at an offset, and drops the brace that closes it. -/
def scanBlock (offset : Nat) (text : List Char) : Except (Error α) (Lexeme × List Char) :=
  match text.dropWhile (· ≠ closeBrace) with
  | [] => .error (.unclosed offset openBrace)
  | _ :: after =>
    let body := text.takeWhile (· ≠ closeBrace)
    match body.dropWhile (· ≠ openBrace) with
    | [] => .ok (properties body, after)
    -- Blocks are not nested, and the inner brace is to blame.
    | nested :: _ =>
      let before := body.takeWhile (· ≠ openBrace)
      .error (.unknownCharacter (offset + 1 + Text.byteLength before) nested)

/-- Reads a pitch name whose first letter stands at an offset. -/
def scanPitch (offset : Nat) (first : Char) (more : List Char) :
    Except (Error α) (Lexeme × List Char) :=
  match Pitch.scan (first :: more) with
  | some (found, after) => .ok (pitch found, after)
  | none => .error (.invalidPitch offset (first :: more.takeWhile isPitchPart))

/-- Reads the lexeme that begins with a character at an offset. -/
def scan (offset : Nat) (first : Char) (more : List Char) :
    Except (Error α) (Lexeme × List Char) :=
  if first = '(' then .ok (opening .round, more)
  else if first = '[' then .ok (opening .square, more)
  else if first = ')' then .ok (closing .round, more)
  else if first = ']' then .ok (closing .square, more)
  else if first = openBrace then scanBlock offset more
  else if first = closeBrace then .error (.unexpectedClose offset first)
  else if first = 'R' then .ok (rest, more)
  else if (Letter.ofChar? first).isSome then scanPitch offset first more
  else .error (.unknownCharacter offset first)

/-- A block leaves no more text than it was read from. -/
theorem length_of_scanBlock {offset : Nat} {text after : List Char} {lexeme : Lexeme}
    (scanned : scanBlock (α := α) offset text = .ok (lexeme, after)) :
    after.length ≤ text.length := by
  -- What follows the closing brace is a part of what is left from that brace on.
  have bound := (List.dropWhile_sublist (l := text) (· ≠ closeBrace)).length_le
  unfold scanBlock at scanned
  split at scanned
  · contradiction
  · rename_i head tail found
    rw [found, List.length_cons] at bound
    dsimp only at scanned
    split at scanned
    · cases scanned
      omega
    · contradiction

/-- A pitch name leaves less text than it was read from. -/
theorem length_of_scanPitch {offset : Nat} {first : Char} {more after : List Char}
    {lexeme : Lexeme} (scanned : scanPitch (α := α) offset first more = .ok (lexeme, after)) :
    after.length ≤ more.length := by
  unfold scanPitch at scanned
  split at scanned
  · rename_i found tail named
    cases scanned
    exact Pitch.length_of_scan named
  · contradiction

/-- Every lexeme takes at least the character it begins with. -/
theorem length_of_scan {offset : Nat} {first : Char} {more after : List Char} {lexeme : Lexeme}
    (scanned : scan (α := α) offset first more = .ok (lexeme, after)) :
    after.length ≤ more.length := by
  unfold scan at scanned
  repeat' split at scanned
  all_goals first
    | contradiction
    | exact length_of_scanBlock scanned
    | exact length_of_scanPitch scanned
    | (cases scanned; exact Nat.le_refl _)

end Lexeme

namespace Token

variable {α : Type}

/-- Cuts a text that starts at an offset into tokens. -/
def read (offset : Nat) (text : List Char) : Except (Error α) (List Token) :=
  match text with
  | [] => .ok []
  | first :: more =>
    match _scanned : Lexeme.scan offset first more with
    | .error error => .error error
    | .ok (lexeme, after) =>
      -- Offsets count bytes, as do the lengths before and after the lexeme.
      let width := Text.byteLength (first :: more) - Text.byteLength after
      match read (offset + width) after with
      | .error error => .error error
      | .ok tokens => .ok (⟨lexeme, offset⟩ :: tokens)
termination_by text.length
decreasing_by exact Nat.lt_succ_of_le (Lexeme.length_of_scan _scanned)

/-- Cuts a text without blanks and comments into tokens. -/
def ofText (text : List Char) : Except (Error α) (List Token) :=
  read 0 text

end Token

end Melody.Notation
