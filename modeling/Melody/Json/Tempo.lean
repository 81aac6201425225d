import Melody.Json.Record
import Melody.Json.Writer
import Melody.Tempo

/-! Tempos as JSON texts. -/

namespace Melody.Tempo

open Json

variable {α : Type} [Numeric α]

/-- The fields of a tempo that have been read. -/
structure Fields (α : Type) where
  bpm : Option α := none
  offset : Option α := none
  beatMeaning : Option α := none

/-- The fields of a tempo. -/
def slots : List (Slot (Fields α)) := [
  .of "bpm" (·.bpm) (fun fields x => { fields with bpm := some x }) (readNumber α),
  .of "offset" (·.offset) (fun fields x => { fields with offset := some x }) (readNumber α),
  .of "beat_meaning" (·.beatMeaning) (fun fields x => { fields with beatMeaning := some x })
    (readNumber α)]

/-- The tempo of all fields as they are. -/
def Fields.build (fields : Fields α) : Except Fault (Tempo α) := do
  let bpm ← need "bpm" fields.bpm
  let offset ← need "offset" fields.offset
  let beatMeaning ← need "beat_meaning" fields.beatMeaning
  return ⟨bpm, offset, beatMeaning⟩

/-- Reads a text as a tempo. -/
def ofJson (text : String) : Except Fault (Tempo α) :=
  readWhole (readRecord α slots {} Fields.build) text

/-- Writes a tempo. -/
def toJson (tempo : Tempo α) : String :=
  writeRecord [
    ("bpm", Numeric.write tempo.bpm),
    ("offset", Numeric.write tempo.offset),
    ("beat_meaning", Numeric.write tempo.beatMeaning)]

end Melody.Tempo
