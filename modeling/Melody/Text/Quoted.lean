import Melody.Text.Visible

/-! Quoted texts and characters, with escapes for what would not show. -/

namespace Melody.Text

/-- A code point in lowercase hexadecimal between braces. -/
def codeEscape (c : Char) : List Char :=
  ['\\', 'u', Char.ofNat 0x7b] ++ Nat.toDigits 16 c.toNat ++ [Char.ofNat 0x7d]

/-- One character as it stands between quotes of a given kind. -/
def escape (quote c : Char) : List Char :=
  if c = Char.ofNat 0 then ['\\', '0']
  else if c = '\t' then ['\\', 't']
  else if c = '\r' then ['\\', 'r']
  else if c = '\n' then ['\\', 'n']
  else if c = '\\' || c = quote then ['\\', c]
  else if isVisible c then [c]
  else codeEscape c

/-- The character that encloses a quoted character. -/
def singleQuote : Char := Char.ofNat 0x27

/-- A text between double quotes. -/
def quoted (text : List Char) : String :=
  String.ofList (['"'] ++ text.flatMap (escape '"') ++ ['"'])

/-- A character between single quotes. -/
def quotedChar (c : Char) : String :=
  String.ofList ([singleQuote] ++ escape singleQuote c ++ [singleQuote])

end Melody.Text
