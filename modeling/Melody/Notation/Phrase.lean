import Melody.Notice
import Melody.Decimal.Reader
import Melody.Note.Group
import Melody.Notation.Item
import Melody.Notation.Token

/-! Phrases of notation: items from tokens, and the notes that they sound. -/

namespace Melody.Notation

variable {α : Type} [Scalar α]

namespace Item

/-- What numerals and names mean in an expression about an item. -/
def scope (item : Item α) : Expression.Scope α where
  numeral := Decimal.scalar?
  name word := item.named? (String.ofList word)

/-- Applies one assignment that starts at an offset, an empty one changing nothing. -/
def assign (item : Item α) (offset : Nat) (assignment : List Char) : Except (Error α) (Item α) :=
  match assignment, assignment.dropWhile (· ≠ ':') with
  | [], _ => .ok item
  | _, [] => .error (.missingValue offset)
  | _, _ :: value =>
    let key := assignment.takeWhile (· ≠ ':')
    match Property.ofKey? (String.ofList key) with
    | none => .error (.unknownProperty offset key)
    | some property =>
      match Expression.evaluate item.scope value with
      | .ok value => .ok (item.set property value)
      | .error ⟨fault, rest⟩ =>
        -- The fault lies where its rest begins.
        let read := Text.byteLength assignment - Text.byteLength rest
        .error (.expression (offset + read) fault)

/-- Applies assignments one after the other, the first of which starts at an offset. -/
def assignAll (item : Item α) (offset : Nat) : List (List Char) → Except (Error α) (Item α)
  | [] => .ok item
  | assignment :: later => do
    let item ← item.assign offset assignment
    item.assignAll (offset + Text.byteLength assignment + 1) later

end Item

/-- A bracket that is still open, with the items before it, latest first. -/
structure Frame (α : Type) where
  bracket : Bracket
  offset : Nat
  items : List (Item α)
deriving DecidableEq, Repr

/-- The state of a phrase: the items since the innermost open bracket, latest first. -/
structure Progress (α : Type) where
  items : List (Item α) := []
  context : Context α
  frames : List (Frame α) := []
deriving DecidableEq, Repr

namespace Progress

/-- Nothing has been read. -/
def initial : Progress α where
  context := .startingAt 0.0

/-- Adds an item for a sound. -/
def emit (progress : Progress α) (sound : Sound) (offset : Nat) : Progress α :=
  let item := progress.context.emit sound progress.frames.length offset
  { progress with items := item :: progress.items, context := progress.context.after item }

/-- Opens a bracket. -/
def enter (progress : Progress α) (bracket : Bracket) (offset : Nat) : Progress α where
  items := []
  context := match bracket with
    | .round => progress.context
    | .square => .startingAt progress.context.nextStart
  frames := ⟨bracket, offset, progress.items⟩ :: progress.frames

/-- Closes the innermost bracket, which must be of the same kind. -/
def leave (progress : Progress α) (bracket : Bracket) (offset : Nat) :
    Except (Error α) (Progress α) :=
  match progress.frames with
  | [] => .error (.unexpectedClose offset bracket.closing)
  | frame :: frames =>
    if frame.bracket = bracket then
      .ok { progress with items := progress.items ++ frame.items, frames }
    else .error (.mismatched offset frame.bracket.closing bracket.closing)

/-- Changes the properties of the latest item since the innermost open bracket. -/
def edit (progress : Progress α) (body : List Char) (offset : Nat) :
    Except (Error α) (Progress α) :=
  match progress.items with
  | [] => .error (.danglingProperties offset)
  | item :: items => do
    let item ← item.assignAll (offset + 1) (Text.pieces ',' body)
    return { progress with items := item :: items, context := progress.context.after item }

/-- Takes up one token. -/
def step (progress : Progress α) (token : Token) : Except (Error α) (Progress α) :=
  match token.lexeme with
  | .pitch pitch => .ok (progress.emit (.note pitch) token.offset)
  | .rest => .ok (progress.emit .rest token.offset)
  | .opening bracket => .ok (progress.enter bracket token.offset)
  | .closing bracket => progress.leave bracket token.offset
  | .properties body => progress.edit body token.offset

/-- All items in the order of the text, once every bracket is closed. -/
def finish (progress : Progress α) : Except (Error α) (List (Item α)) :=
  match progress.frames with
  | [] => .ok progress.items.reverse
  | frame :: _ => .error (.unclosed frame.offset frame.bracket.opening)

/-- The items of a list of tokens. -/
def run (progress : Progress α) : List Token → Except (Error α) (List (Item α))
  | [] => progress.finish
  | token :: later => do
    let progress ← progress.step token
    progress.run later

variable [Readout α]

/-- The notice that a token leaves, when its properties make a rest step backwards. -/
def notice? (token : Token) (progress : Progress α) : Option Notice :=
  match token.lexeme, progress.items with
  | .properties _, item :: _ =>
    if item.stepsBack then
      some ⟨.warning, "rest at offset " ++ toString item.offset ++ " has a duration of " ++
        Readout.text item.duration ++ ", stepping backwards"⟩
    else none
  | _, _ => none

/-- The notices that tokens leave, up to the first fault. -/
def notices (progress : Progress α) : List Token → List Notice
  | [] => []
  | token :: later =>
    match progress.step token with
    | .error _ => []
    | .ok next => (notice? token next).toList ++ next.notices later

end Progress

/-- The items of tokens, before their values are checked. -/
def region (tokens : List Token) : Except (Error α) (List (Item α)) :=
  Progress.initial.run tokens

/-- The note of an item, if it is no rest. -/
def soundOf? (item : Item α) : Except (Error α) (Option (Note α)) :=
  item.note?.mapError (.invalidValue item.offset)

/-- Reads every note and rest of a text in the order of the text. -/
def items (text : String) : Except (Error α) (List (Item α)) := do
  let items ← region (← Token.ofText (strip text.toList))
  items.forM fun item => do
    let _ ← soundOf? item
  return items

/-- Reads the notes of a text as a group without conflicts. -/
def group (text : String) : Except (Error α) (Group α) := do
  let notes ← (← items text).mapM soundOf?
  return Group.ofNotes (notes.filterMap id)

/-- The notices that reading a text leaves. -/
def notices [Readout α] (text : String) : List Notice :=
  match Token.ofText (α := α) (strip text.toList) with
  | .error _ => []
  | .ok tokens => (Progress.initial (α := α)).notices tokens

end Melody.Notation
