/-! Faults of JSON texts. -/

namespace Melody.Json

/-- Why a JSON value is not the data that was asked for. -/
inductive Mismatch where
  | missingField (name : String)
  | duplicateField (name : String)
  | unknownVariant (name : List Char) (expected : List String)
  | wrongType
  | outOfRange
  | wrongLength
  /-- The data is complete but not valid, for a given reason. -/
  | refused (reason : String)
deriving DecidableEq, Repr

/-- A name between backticks. -/
def named (name : String) : String :=
  "`" ++ name ++ "`"

/-- The wording of a mismatch. -/
def Mismatch.message : Mismatch → String
  | missingField name => "missing field " ++ named name
  | duplicateField name => "duplicate field " ++ named name
  | unknownVariant name expected =>
    "unknown variant " ++ named (String.ofList name) ++ ", expected one of " ++
      ", ".intercalate (expected.map named)
  | wrongType => "invalid type"
  | outOfRange => "invalid value"
  | wrongLength => "invalid length"
  | refused reason => reason

/-- Why a text could not be read. -/
inductive Fault where
  /-- The text ends too early. -/
  | endOfText
  /-- The text is not JSON. -/
  | malformed
  /-- The text is JSON but not the right data. -/
  | mismatch (cause : Mismatch)
deriving DecidableEq, Repr

/-- A reader takes a value off the front of a text and leaves the rest. -/
abbrev Reader (β : Type) : Type := List Char → Except Fault (β × List Char)

/-- The white space between the parts of a JSON text. -/
def isSpace (c : Char) : Bool :=
  c == ' ' || c == '\n' || c == '\t' || c == '\r'

/-- A text without the white space at its front. -/
def skipSpace (text : List Char) : List Char :=
  text.dropWhile isSpace

/-- The fault of a text that does not go on as it must. -/
def unexpected : List Char → Fault
  | [] => .endOfText
  | _ => .malformed

/-- Reads one given character. -/
def expect (c : Char) : Reader Unit
  | [] => .error .endOfText
  | first :: rest => if first = c then .ok ((), rest) else .error .malformed

/-- Reads given characters one after the other. -/
def expectAll : List Char → Reader Unit
  | [], text => .ok ((), text)
  | c :: later, text => do
    let (_, rest) ← expect c text
    expectAll later rest

end Melody.Json
