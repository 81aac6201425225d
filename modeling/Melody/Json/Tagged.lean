import Melody.Json.Record

/-! Records in JSON texts whose fields depend on a name that is one of them. -/

namespace Melody.Json

variable (α : Type) [Numeric α]

/-- Reads a tagged record by name, and keeps its other fields. -/
def readTaggedNamed {β : Type} (tag : String) (choices : List (String × β)) (depth : Nat) :
    Nat → Bool → Option β → Reader (Option β × List (List Char × Value))
  | 0, _, _, _ => .error .malformed
  | steps + 1, first, kind?, text =>
    let next (rest : List Char) :
        Except Fault ((Option β × List (List Char × Value)) × List Char) := do
      let (_, rest) ← expect '"' (skipSpace rest)
      let (name, rest) ← scanString true rest
      if name = tag.toList then
        if kind?.isSome then mismatched (.duplicateField tag)
        let (_, rest) ← expect ':' (skipSpace rest)
        let (kind, rest) ← readString α rest
        let kind ← choose choices kind
        readTaggedNamed tag choices depth steps false (some kind) rest
      else
        let (_, rest) ← expect ':' (skipSpace rest)
        let (value, rest) ← keptValue α depth rest
        let ((kind?, members), rest) ←
          readTaggedNamed tag choices depth steps false kind? rest
        return ((kind?, (name, value) :: members), rest)
    match skipSpace text with
    | [] => .error .endOfText
    | c :: rest =>
      if c = Char.ofNat 0x7d then .ok ((kind?, []), rest)
      else if first then next (c :: rest)
      else if c = ',' then next rest
      else .error .malformed

/-- Reads a tagged record with its kind and the value that its other fields make up. -/
def readTagged {β : Type} (tag : String) (choices : List (String × β)) (depth : Nat) :
    Reader (β × Value) := fun text =>
  match skipSpace text with
  | [] => .error .endOfText
  | '[' :: rest =>
    match skipSpace rest with
    | ']' :: _ => mismatched (.missingField tag)
    | rest => do
      let (kind, rest) ← readString α rest
      let kind ← choose choices kind
      let (items, rest) ← readItems α (.kept (depth + 1)) (stepLimit rest) false rest
      return ((kind, .array items), rest)
  | first :: rest =>
    if first = Char.ofNat 0x7b then do
      let ((kind?, members), rest) ←
        readTaggedNamed α tag choices (depth + 1) (rest.length + 1) true none rest
      return ((← need tag kind?, .object members), rest)
    else .error (wrongType α (first :: rest))

variable {α}

/-- The number that a value is. -/
def Value.toNumber : Value → Except Fault α
  | .number n =>
    match Numeric.ofNumeral? n with
    | some x => .ok x
    | none => .error .malformed
  | _ => mismatched .wrongType

/-- A field of a record whose values are kept as a whole. -/
structure Kept (σ : Type) where
  name : String
  /-- The field has been taken. -/
  filled : σ → Bool
  /-- Takes the value of the field. -/
  take : σ → Value → Except Fault σ

/-- A field with the place where its value is kept. -/
def Kept.of {σ β : Type} (name : String) (get : σ → Option β) (put : σ → β → σ)
    (read : Value → Except Fault β) : Kept σ where
  name := name
  filled record := (get record).isSome
  take record value := (read value).map (put record)

variable {σ : Type}

/-- Takes the fields of a record by name. -/
def takeNamed (kept : List (Kept σ)) (record : σ) :
    List (List Char × Value) → Except Fault σ
  | [] => .ok record
  | (name, value) :: later =>
    match kept.find? fun field => field.name.toList == name with
    | none => takeNamed kept record later
    | some field => do
      if field.filled record then mismatched (.duplicateField field.name)
      takeNamed kept (← field.take record value) later

/-- Takes the fields of a record in their order. -/
def takeOrdered : List (Kept σ) → σ → List Value → Except Fault σ
  | [], record, [] => .ok record
  | [], _, _ :: _ => mismatched .wrongLength
  | _ :: _, _, [] => mismatched .wrongLength
  | field :: kept, record, value :: later => do
    takeOrdered kept (← field.take record value) later

/-- Takes the fields of a record from a value. -/
def takeRecord (kept : List (Kept σ)) (empty : σ) : Value → Except Fault σ
  | .object members => takeNamed kept empty members
  | .array items => takeOrdered kept empty items
  | _ => mismatched .wrongType

end Melody.Json
