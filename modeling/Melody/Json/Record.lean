import Melody.Json.Value

/-! Lists, records and named choices in JSON texts, read as far as they are right. -/

namespace Melody.Json

variable (α : Type) [Numeric α]

/-- The fault of wrong data. -/
def mismatched {β : Type} (cause : Mismatch) : Except Fault β :=
  .error (.mismatch cause)

/-- Reads a number. -/
def readNumber : Reader α := fun text =>
  match skipSpace text with
  | first :: rest =>
    if first = '-' ∨ first.isDigit then do
      let (number, rest) ← scanNumber .endOfText (first :: rest)
      match Numeric.ofNumeral? number with
      | some x => return (x, rest)
      | none => throw .malformed
    else .error (wrongType α (first :: rest))
  | [] => .error .endOfText

/-- Reads an integer of 32 bits. -/
def readInteger : Reader Int := fun text =>
  match skipSpace text with
  | first :: rest =>
    if first = '-' ∨ first.isDigit then do
      let (number, rest) ← scanNumber .endOfText (first :: rest)
      if (Numeric.ofNumeral? (α := α) number).isNone then throw .malformed
      match number.integer with
      | .ok value => return (value, rest)
      | .error cause => mismatched cause
    else .error (wrongType α (first :: rest))
  | [] => .error .endOfText

/-- Reads a string. -/
def readString : Reader (List Char) := fun text =>
  match skipSpace text with
  | '"' :: rest => scanString true rest
  | other => .error (wrongType α other)

/-- Reads the rest of a list by a number of steps. -/
def readListFrom {β : Type} (item : Reader β) : Nat → Bool → Reader (List β)
  | 0, _, _ => .error .malformed
  | steps + 1, first, text =>
    let next (rest : List Char) : Except Fault (List β × List Char) :=
      match skipSpace rest with
      | ']' :: _ => .error .malformed
      | rest => do
        let (value, rest) ← item rest
        let (later, rest) ← readListFrom item steps false rest
        return (value :: later, rest)
    match first, skipSpace text with
    | _, [] => .error .endOfText
    | _, ']' :: rest => .ok ([], rest)
    | true, rest => next rest
    | false, ',' :: rest => next rest
    | false, _ => .error .malformed

/-- Reads a list. -/
def readList {β : Type} (item : Reader β) : Reader (List β) := fun text =>
  match skipSpace text with
  | '[' :: rest => readListFrom item (rest.length + 1) true rest
  | other => .error (wrongType α other)

/-- The choice that a name stands for among the names of all choices. -/
def choose {β : Type} (choices : List (String × β)) (name : List Char) : Except Fault β :=
  match choices.find? fun choice => choice.1.toList == name with
  | some (_, value) => .ok value
  | none => mismatched (.unknownVariant name (choices.map (·.1)))

/-- Reads the name of a choice, which may also be a key with nothing as its value. -/
def readChoice {β : Type} (choices : List (String × β)) : Reader β := fun text =>
  match skipSpace text with
  | [] => .error .endOfText
  | '"' :: rest => do
    let (name, rest) ← scanString true rest
    return (← choose choices name, rest)
  | first :: rest =>
    if first = Char.ofNat 0x7b then do
      let (_, rest) ← expect '"' (skipSpace rest)
      let (name, rest) ← scanString true rest
      let value ← choose choices name
      let (_, rest) ← expect ':' (skipSpace rest)
      match skipSpace rest with
      | 'n' :: rest =>
        let (_, rest) ← expectAll ['u', 'l', 'l'] rest
        let (_, rest) ← expect (Char.ofNat 0x7d) (skipSpace rest)
        return (value, rest)
      | other => throw (wrongType α other)
    else .error .malformed

/-- A field of a record that is being read. -/
structure Slot (σ : Type) where
  name : String
  /-- The record goes without the field if it is not there. -/
  optional : Bool
  /-- The field has been read. -/
  filled : σ → Bool
  /-- Reads the field. -/
  read : σ → Reader σ

/-- A field with the place where its value is kept. -/
def Slot.of {σ β : Type} (name : String) (get : σ → Option β) (put : σ → β → σ)
    (read : Reader β) (optional : Bool := false) : Slot σ where
  name := name
  optional := optional
  filled record := (get record).isSome
  read record text := do
    let (value, rest) ← read text
    return (put record value, rest)

variable {σ : Type}

/-- Reads a field or passes over one that the record does not have. -/
def readField (slots : List (Slot σ)) (record : σ) (name : List Char) : Reader σ := fun text =>
  match slots.find? fun slot => slot.name.toList == name with
  | some slot => do
    if slot.filled record then mismatched (.duplicateField slot.name)
    let (_, rest) ← expect ':' (skipSpace text)
    slot.read record rest
  | none => do
    let (_, rest) ← expect ':' (skipSpace text)
    let (_, rest) ← skipValue α rest
    return (record, rest)

/-- Reads the fields of a record by name, by a number of steps. -/
def readNamed (slots : List (Slot σ)) : Nat → Bool → σ → Reader σ
  | 0, _, _, _ => .error .malformed
  | steps + 1, first, record, text =>
    let next (rest : List Char) : Except Fault (σ × List Char) := do
      let (_, rest) ← expect '"' (skipSpace rest)
      let (name, rest) ← scanString true rest
      let (record, rest) ← readField α slots record name rest
      readNamed slots steps false record rest
    match skipSpace text with
    | [] => .error .endOfText
    | c :: rest =>
      if c = Char.ofNat 0x7d then .ok (record, rest)
      else if first then next (c :: rest)
      else if c = ',' then next rest
      else .error .malformed

/-- Reads the end of a record that is written as a list. -/
def readListEnd : Reader Unit := fun text =>
  match skipSpace text with
  | [] => .error .endOfText
  | ']' :: rest => .ok ((), rest)
  | _ => .error .malformed

/-- Reads the fields of a record in their order. -/
def readOrdered : List (Slot σ) → Bool → σ → Reader σ
  | [], _, record, text => do
    let (_, rest) ← readListEnd text
    return (record, rest)
  | slot :: later, first, record, text =>
    let next (rest : List Char) : Except Fault (σ × List Char) :=
      match skipSpace rest with
      | ']' :: _ => .error .malformed
      | rest => do
        let (record, rest) ← slot.read record rest
        readOrdered later false record rest
    match first, skipSpace text with
    | _, [] => .error .endOfText
    | first, ']' :: rest =>
      if slot.optional then readOrdered later first record (']' :: rest)
      else mismatched .wrongLength
    | true, rest => next rest
    | false, ',' :: rest => next rest
    | false, _ => .error .malformed

/-- The value of a field that must be there. -/
def need {β : Type} (name : String) : Option β → Except Fault β
  | some value => .ok value
  | none => mismatched (.missingField name)

/-- Valid data, or the reason why it is refused. -/
def accept {β ε : Type} (message : ε → String) (outcome : Except ε β) : Except Fault β :=
  outcome.mapError fun error => .mismatch (.refused (message error))

/-- Reads a record with its fields by name or in their order, and makes a value of it. -/
def readRecord {β : Type} (slots : List (Slot σ)) (empty : σ) (build : σ → Except Fault β) :
    Reader β := fun text =>
  match skipSpace text with
  | [] => .error .endOfText
  | '[' :: rest => do
    let (record, rest) ← readOrdered slots true empty rest
    return (← build record, rest)
  | first :: rest =>
    if first = Char.ofNat 0x7b then do
      let (record, rest) ← readNamed α slots (rest.length + 1) true empty rest
      return (← build record, rest)
    else .error (wrongType α (first :: rest))

/-- Reads a whole text. -/
def readWhole {β : Type} (read : Reader β) (text : String) : Except Fault β := do
  let (value, rest) ← read text.toList
  if (skipSpace rest).isEmpty then return value
  throw .malformed

end Melody.Json
