import Melody.Note.Basic
import Melody.Notation.Expression

/-! Faults of notation, each with its place in bytes of the text without blanks and comments. -/

namespace Melody.Notation

/-- Why a text is no notation. -/
inductive Error (α : Type) where
  | unknownCharacter (offset : Nat) (found : Char)
  | invalidPitch (offset : Nat) (name : List Char)
  | unclosed (offset : Nat) (opening : Char)
  | unexpectedClose (offset : Nat) (found : Char)
  | mismatched (offset : Nat) (expected found : Char)
  | danglingProperties (offset : Nat)
  | missingValue (offset : Nat)
  | unknownProperty (offset : Nat) (key : List Char)
  | expression (offset : Nat) (fault : Expression.Fault)
  | invalidValue (offset : Nat) (cause : Note.Error α)
deriving DecidableEq, Repr

namespace Error

variable {α : Type}

/-- The place of a fault. -/
def offset : Error α → Nat
  | unknownCharacter offset _ => offset
  | invalidPitch offset _ => offset
  | unclosed offset _ => offset
  | unexpectedClose offset _ => offset
  | mismatched offset _ _ => offset
  | danglingProperties offset => offset
  | missingValue offset => offset
  | unknownProperty offset _ => offset
  | expression offset _ => offset
  | invalidValue offset _ => offset

/-- The wording of a place. -/
def place (offset : Nat) : String :=
  " at offset " ++ toString offset

/-- The wording of a fault. -/
def message : Error α → String
  | unknownCharacter offset found => "unknown character " ++ Text.quotedChar found ++ place offset
  | invalidPitch offset name => "invalid pitch name " ++ Text.quoted name ++ place offset
  | unclosed offset opening => Text.quotedChar opening ++ place offset ++ " is never closed"
  | unexpectedClose offset found => "unexpected " ++ Text.quotedChar found ++ place offset
  | mismatched offset expected found =>
    "expected " ++ Text.quotedChar expected ++ " but found " ++ Text.quotedChar found ++
      place offset
  | danglingProperties offset =>
    "properties" ++ place offset ++ " do not follow a note or rest"
  | missingValue offset => "malformed expression" ++ place offset ++ ": expected `key:value`"
  | unknownProperty offset key => "unknown property " ++ Text.quoted key ++ place offset
  | expression offset (.unknownVariable name) =>
    (Expression.Fault.unknownVariable name).message ++ place offset
  | expression offset fault => "malformed expression" ++ place offset ++ ": " ++ fault.message
  | invalidValue offset _ => "invalid note" ++ place offset

/-- The fault of the value that a fault of notation comes from. -/
def cause? : Error α → Option (Note.Error α)
  | invalidValue _ cause => some cause
  | _ => none

end Error

end Melody.Notation
