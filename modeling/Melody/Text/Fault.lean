/-! Where bytes stop being the encoding of a text. -/

namespace Melody.Text

/-- A place at which bytes are no text. -/
structure Fault where
  /-- The number of bytes before the place, all of them text. -/
  start : Nat
  /-- The number of bytes that begin no character, `none` when the bytes end inside one. -/
  length? : Option Nat
deriving DecidableEq, Repr

/-- The bounds of a byte that continues a character. -/
def continuing : UInt8 × UInt8 := (0x80, 0xbf)

/-- The bounds of the bytes that follow a byte which begins a character. -/
def following? (first : UInt8) : Option (List (UInt8 × UInt8)) :=
  if first < 0x80 then some []
  else if first < 0xc2 then none
  else if first < 0xe0 then some [continuing]
  else if first = 0xe0 then some [(0xa0, 0xbf), continuing]
  else if first = 0xed then some [(0x80, 0x9f), continuing]
  else if first < 0xf0 then some [continuing, continuing]
  else if first = 0xf0 then some [(0x90, 0xbf), continuing, continuing]
  else if first < 0xf4 then some [continuing, continuing, continuing]
  else if first = 0xf4 then some [(0x80, 0x8f), continuing, continuing]
  else none

/-- Looks for a fault in bytes that come after a text of a given length and the first few bytes of
a character, of which bytes within given bounds are still owed. -/
def faultAfter (start taken : Nat) : List (UInt8 × UInt8) → List UInt8 → Fault
  | [], [] => ⟨start + taken, none⟩
  | _ :: _, [] => ⟨start, none⟩
  | (low, high) :: owed, byte :: rest =>
    if low ≤ byte ∧ byte ≤ high then faultAfter start (taken + 1) owed rest
    else ⟨start, some taken⟩
  | [], byte :: rest =>
    match following? byte with
    | none => ⟨start + taken, some 1⟩
    | some owed => faultAfter (start + taken) 1 owed rest

/-- The first fault in bytes, which is their end when all of them are text. -/
def firstFault (bytes : List UInt8) : Fault :=
  faultAfter 0 0 [] bytes

end Melody.Text
