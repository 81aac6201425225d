import Melody.Json.Text

/-! JSON texts without white space. -/

namespace Melody.Json

/-- A list of values that are written. -/
def writeArray (items : List String) : String :=
  "[" ++ ",".intercalate items ++ "]"

/-- A record of values that are written, its fields in order. -/
def writeRecord (fields : List (String × String)) : String :=
  "\x7b" ++ ",".intercalate (fields.map fun (name, value) => writeString name ++ ":" ++ value) ++
    "\x7d"

end Melody.Json
