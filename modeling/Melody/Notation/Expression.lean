import Melody.Scalar
import Melody.Text.Quoted

/-! Arithmetic in property blocks: sums, products, signs, parentheses, numbers and names. -/

namespace Melody.Expression

/-- Why a text is no expression. -/
inductive Fault where
  | unknownVariable (name : List Char)
  | unexpectedCharacter
  | unexpectedEnd
  | expectedClose
  | invalidNumber
deriving DecidableEq, Repr

/-- The wording of a fault. -/
def Fault.message : Fault → String
  | .unknownVariable name => "unknown variable " ++ Text.quoted name
  | .unexpectedCharacter => "unexpected character"
  | .unexpectedEnd => "unexpected end of expression"
  | .expectedClose => "expected `)`"
  | .invalidNumber => "invalid number"

/-- A fault with the text from the place of the fault on. -/
structure Failure where
  fault : Fault
  rest : List Char
deriving DecidableEq, Repr

/-- What numerals and names stand for. -/
structure Scope (α : Type) where
  numeral : List Char → Option α
  name : List Char → Option α

/-- A value and a shorter rest of the text it was read from. -/
abbrev Parsed (α : Type) (text : List Char) : Type :=
  Except Failure (α × { rest : List Char // rest.length < text.length })

/-- A value and a rest of the text that is not longer. -/
abbrev Extended (α : Type) (text : List Char) : Type :=
  Except Failure (α × { rest : List Char // rest.length ≤ text.length })

/-- The characters of a numeral. -/
def isNumeric (c : Char) : Bool :=
  c.isDigit || c == '.'

/-- The characters of a name after its first. -/
def isNamePart (c : Char) : Bool :=
  c.isAlphanum || c == '_'

/-- What is left after a run of characters is not longer than the text. -/
theorem length_dropWhile_le (p : Char → Bool) (text : List Char) :
    (text.dropWhile p).length ≤ text.length :=
  (List.dropWhile_sublist p).length_le

variable {α : Type}

/-- Reads a run of characters that starts with a given one and looks up its value. -/
def token (part : Char → Bool) (look : List Char → Option α) (fault : List Char → Fault)
    (first : Char) (more : List Char) : Parsed α (first :: more) :=
  match look (first :: more.takeWhile part) with
  | some value =>
    .ok (value, ⟨more.dropWhile part, Nat.lt_succ_of_le (length_dropWhile_le part more)⟩)
  | none => .error ⟨fault (first :: more.takeWhile part), first :: more⟩

/-- What is left of a rest is left of the longer text that starts one character before it. -/
def Extended.after {first : Char} {more rest : List Char} (shorter : rest.length < more.length) :
    Extended α rest → Extended α (first :: more)
  | .error failure => .error failure
  | .ok (value, ⟨last, bound⟩) =>
    .ok (value, ⟨last, Nat.le_of_lt (Nat.lt_succ_of_lt (Nat.lt_of_le_of_lt bound shorter))⟩)

/-- The value of a sum in parentheses, if its rest starts with the one that closes them. -/
def Parsed.closed {opening : Char} {more : List Char} :
    Parsed α more → Parsed α (opening :: more)
  | .error failure => .error failure
  | .ok (value, ⟨rest, shorter⟩) =>
    match rest with
    | ')' :: last => .ok (value, ⟨last, Nat.lt_succ_of_lt (Nat.lt_of_succ_lt shorter)⟩)
    | other => .error ⟨.expectedClose, other⟩

variable [Scalar α]

mutual

/-- Reads products joined by plus and minus. -/
def sum (scope : Scope α) (text : List Char) : Parsed α text :=
  match product scope text with
  | .error failure => .error failure
  | .ok (value, ⟨rest, shorter⟩) =>
    match sumFrom scope value rest with
    | .error failure => .error failure
    | .ok (total, ⟨last, bound⟩) => .ok (total, ⟨last, Nat.lt_of_le_of_lt bound shorter⟩)
termination_by (text.length, 3)

/-- Adds and subtracts further products. -/
def sumFrom (scope : Scope α) (value : α) (text : List Char) : Extended α text :=
  match text with
  | '+' :: more =>
    match product scope more with
    | .error failure => .error failure
    | .ok (next, ⟨rest, shorter⟩) =>
      Extended.after shorter (sumFrom scope (value + next) rest)
  | '-' :: more =>
    match product scope more with
    | .error failure => .error failure
    | .ok (next, ⟨rest, shorter⟩) =>
      Extended.after shorter (sumFrom scope (value - next) rest)
  | other => .ok (value, ⟨other, Nat.le_refl _⟩)
termination_by (text.length, 4)

/-- Reads signed factors joined by multiplication and division. -/
def product (scope : Scope α) (text : List Char) : Parsed α text :=
  match unary scope text with
  | .error failure => .error failure
  | .ok (value, ⟨rest, shorter⟩) =>
    match productFrom scope value rest with
    | .error failure => .error failure
    | .ok (total, ⟨last, bound⟩) => .ok (total, ⟨last, Nat.lt_of_le_of_lt bound shorter⟩)
termination_by (text.length, 2)

/-- Multiplies and divides by further factors. -/
def productFrom (scope : Scope α) (value : α) (text : List Char) : Extended α text :=
  match text with
  | '*' :: more =>
    match unary scope more with
    | .error failure => .error failure
    | .ok (next, ⟨rest, shorter⟩) =>
      Extended.after shorter (productFrom scope (value * next) rest)
  | '/' :: more =>
    match unary scope more with
    | .error failure => .error failure
    | .ok (next, ⟨rest, shorter⟩) =>
      Extended.after shorter (productFrom scope (value / next) rest)
  | other => .ok (value, ⟨other, Nat.le_refl _⟩)
termination_by (text.length, 4)

/-- Reads any number of signs before an atom. -/
def unary (scope : Scope α) (text : List Char) : Parsed α text :=
  match text with
  | '-' :: more =>
    match unary scope more with
    | .error failure => .error failure
    | .ok (value, ⟨rest, shorter⟩) => .ok (-value, ⟨rest, Nat.lt_succ_of_lt shorter⟩)
  | '+' :: more =>
    match unary scope more with
    | .error failure => .error failure
    | .ok (value, ⟨rest, shorter⟩) => .ok (value, ⟨rest, Nat.lt_succ_of_lt shorter⟩)
  | other => atom scope other
termination_by (text.length, 1)

/-- Reads a sum in parentheses, a number or a name. -/
def atom (scope : Scope α) (text : List Char) : Parsed α text :=
  match text with
  | [] => .error ⟨.unexpectedEnd, []⟩
  | '(' :: more =>
    Parsed.closed (sum scope more)
  | first :: more =>
    if isNumeric first then
      token isNumeric scope.numeral (fun _ => .invalidNumber) first more
    else if first.isAlpha then
      token isNamePart scope.name .unknownVariable first more
    else .error ⟨.unexpectedCharacter, first :: more⟩
termination_by (text.length, 0)

end

/-- The value of a whole text. -/
def evaluate (scope : Scope α) (text : List Char) : Except Failure α :=
  match sum scope text with
  | .error failure => .error failure
  | .ok (value, ⟨[], _⟩) => .ok value
  | .ok (_, ⟨rest, _⟩) => .error ⟨.unexpectedCharacter, rest⟩

end Melody.Expression
