import Melody.Json.Fault
import Melody.Text.Bytes

/-! Strings in JSON texts. -/

namespace Melody.Json

/-- The value of a hexadecimal digit. -/
def hexDigit? (c : Char) : Option Nat :=
  if c.isDigit then some (c.toNat - '0'.toNat)
  else if 'a' ≤ c ∧ c ≤ 'f' then some (c.toNat - 'a'.toNat + 10)
  else if 'A' ≤ c ∧ c ≤ 'F' then some (c.toNat - 'A'.toNat + 10)
  else none

/-- The value of four hexadecimal digits. -/
def hexValue? (a b c d : Char) : Option Nat := do
  return (((← hexDigit? a) * 16 + (← hexDigit? b)) * 16 + (← hexDigit? c)) * 16 + (← hexDigit? d)

/-- The fault of a text that does not go on with four hexadecimal digits. -/
def hexFault (text : List Char) : Fault :=
  if Text.byteLength text < 4 then .endOfText else .malformed

/-- The character that a single character after a backslash stands for. -/
def escaped? : Char → Option Char
  | '"' => some '"'
  | '\\' => some '\\'
  | '/' => some '/'
  | 'b' => some (Char.ofNat 8)
  | 'f' => some (Char.ofNat 12)
  | 'n' => some '\n'
  | 'r' => some '\r'
  | 't' => some '\t'
  | _ => none

/-- A code unit is the first or the second half of a pair. -/
def isHalf (unit : Nat) : Bool :=
  decide (0xd800 ≤ unit ∧ unit ≤ 0xdfff)

/-- The character of a pair of code units. -/
def paired? (high low : Nat) : Option Char :=
  if 0xd800 ≤ high ∧ high ≤ 0xdbff ∧ 0xdc00 ≤ low ∧ low ≤ 0xdfff then
    some (Char.ofNat (0x10000 + (high - 0xd800) * 0x400 + (low - 0xdc00)))
  else none

/-- The fault of a text that does not go on with the second half of a pair. -/
def pairFault : List Char → Fault
  | [] => .endOfText
  | ['\\'] => .endOfText
  | '\\' :: 'u' :: text => hexFault text
  | _ => .malformed

/-- Reads the rest of a string after its opening quote, where halves must be paired if asked. -/
def scanString (paired : Bool) : List Char → Except Fault (List Char × List Char)
  | [] => .error .endOfText
  | ['\\'] => .error .endOfText
  | '"' :: rest => .ok ([], rest)
  | '\\' :: 'u' :: a :: b :: c :: d :: rest =>
    match hexValue? a b c d with
    | none => .error (hexFault (a :: b :: c :: d :: rest))
    | some unit =>
      if !paired || !isHalf unit then do
        let (later, rest) ← scanString paired rest
        return (Char.ofNat unit :: later, rest)
      else if 0xdc00 ≤ unit then .error .malformed
      else match rest with
        | '\\' :: 'u' :: e :: f :: g :: h :: rest =>
          match hexValue? e f g h with
          | none => .error (hexFault (e :: f :: g :: h :: rest))
          | some low =>
            match paired? unit low with
            | none => .error .malformed
            | some c => do
              let (later, rest) ← scanString paired rest
              return (c :: later, rest)
        | _ => .error (pairFault rest)
  | '\\' :: 'u' :: rest => .error (hexFault rest)
  | '\\' :: c :: rest =>
    match escaped? c with
    | none => .error .malformed
    | some c => do
      let (later, rest) ← scanString paired rest
      return (c :: later, rest)
  | c :: rest =>
    if c.toNat < 0x20 then .error .malformed
    else do
      let (later, rest) ← scanString paired rest
      return (c :: later, rest)

/-- A character as it stands in a written string. -/
def escape (c : Char) : List Char :=
  if c = '"' then ['\\', '"']
  else if c = '\\' then ['\\', '\\']
  else if c = Char.ofNat 8 then ['\\', 'b']
  else if c = Char.ofNat 12 then ['\\', 'f']
  else if c = '\n' then ['\\', 'n']
  else if c = '\r' then ['\\', 'r']
  else if c = '\t' then ['\\', 't']
  else if c.toNat < 0x10 then ['\\', 'u', '0', '0', '0'] ++ Nat.toDigits 16 c.toNat
  else if c.toNat < 0x20 then ['\\', 'u', '0', '0'] ++ Nat.toDigits 16 c.toNat
  else [c]

/-- A text as a string. -/
def writeString (text : String) : String :=
  String.ofList (['"'] ++ text.toList.flatMap escape ++ ['"'])

end Melody.Json
