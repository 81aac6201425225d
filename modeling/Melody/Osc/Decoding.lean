import Melody.Text.Fault
import Melody.Text.Quoted
import Melody.Osc.Packet

/-! Packets read from bytes. -/

namespace Melody.Osc

/-- Why bytes are no packet. -/
inductive DecodeError where
  | empty
  | unknownFormat
  | truncated
  | notText (bytes : List UInt8) (fault : Text.Fault)
  | notCharacter
  | unknownTag (tag : Char)
  /-- An array is closed that was never opened. -/
  | strayBracket
  /-- A color or a command for an instrument lacks some of its four bytes. -/
  | brokenRecord
  | unknownBundle (name : String)
deriving DecidableEq, Repr

/-- What is wrong with bytes that are no packet. -/
def DecodeError.detail : DecodeError → String
  | empty => "BadPacket(\"Empty packet.\")"
  | unknownFormat => "BadPacket(\"Unknown message format.\")"
  | truncated =>
    "ReadError(Error \x7b kind: UnexpectedEof, message: \"failed to fill whole buffer\" \x7d)"
  | notText bytes fault =>
    let length := match fault.length? with
      | none => "None"
      | some length => "Some(" ++ toString length ++ ")"
    "StringError(FromUtf8Error \x7b bytes: [" ++ ", ".intercalate (bytes.map toString) ++
      "], error: Utf8Error \x7b valid_up_to: " ++ toString fault.start ++ ", error_len: " ++
      length ++ " \x7d \x7d)"
  | notCharacter => "BadArg(\"Argument is not a char!\")"
  | unknownTag tag =>
    let reason := "Type tag \"" ++ String.ofList [tag] ++ "\" is not implemented!"
    "BadArg(" ++ Text.quoted reason.toList ++ ")"
  | strayBracket => "BadMessage(\"Encountered ] outside array\")"
  | brokenRecord => "the bytes of a record end early"
  | unknownBundle name =>
    "BadBundle(" ++ Text.quoted ("Wrong bundle specifier: " ++ name).toList ++ ")"

/-- The wording of a decoding error. -/
def DecodeError.message (error : DecodeError) : String :=
  "decoding OSC packet: " ++ error.detail

/-- Reads a number of 32 bits, the highest byte first. -/
def readWord : List UInt8 → Except DecodeError (UInt32 × List UInt8)
  | a :: b :: c :: d :: rest =>
    let high := a.toUInt32 <<< 24 ||| b.toUInt32 <<< 16
    .ok (high ||| c.toUInt32 <<< 8 ||| d.toUInt32, rest)
  | _ => .error .truncated

/-- Reads a text up to its zeros. -/
def readText (bytes : List UInt8) : Except DecodeError (String × List UInt8) :=
  let body := bytes.takeWhile (· ≠ 0)
  match String.fromUTF8? (ByteArray.mk body.toArray) with
  | none =>
    let raw := bytes.take (body.length + 1)
    .error (.notText raw (Text.firstFault raw))
  | some value => .ok (value, bytes.drop (4 * (body.length / 4 + 1)))

/-- Reads bytes of a number that is written before them, or those that are left. -/
def readBlob (bytes : List UInt8) : Except DecodeError (List UInt8 × List UInt8) := do
  let (size, rest) ← readWord bytes
  return (rest.take size.toNat, rest.drop (4 * ((size.toNat + 3) / 4)))

/-- Reads the bytes of a value of a kind that always takes up so many. -/
def readOther (kind : Char) (width : Nat) (bytes : List UInt8) :
    Except DecodeError (Argument × List UInt8) :=
  if bytes.length < width then .error .truncated
  else .ok (.other kind (bytes.take width), bytes.drop width)

/-- Reads a value of a given kind. -/
def readArgument (tag : Char) (bytes : List UInt8) :
    Except DecodeError (Argument × List UInt8) := do
  match tag with
  | 'i' =>
    let (value, rest) ← readWord bytes
    return (.int value.toInt32, rest)
  | 'f' =>
    let (value, rest) ← readWord bytes
    return (.float (Float32.ofBits value), rest)
  | 's' =>
    let (value, rest) ← readText bytes
    return (.text value, rest)
  | 'b' =>
    let (content, rest) ← readBlob bytes
    return (.blob content, rest)
  | 'c' =>
    let (code, _) ← readWord bytes
    if code.isValidChar then readOther tag 4 bytes else throw .notCharacter
  | 'r' | 'm' => if bytes.length < 4 then throw .brokenRecord else readOther tag 4 bytes
  | 'd' | 'h' | 't' => readOther tag 8 bytes
  | 'T' | 'F' | 'N' | 'I' => readOther tag 0 bytes
  | _ => throw (.unknownTag tag)

/-- Reads values of given kinds, after the values of the arrays around them and of their own array,
each in reverse. An array that stays open takes the place of the whole. -/
def readArguments (outer : List (List Argument)) (read : List Argument) :
    List Char → List UInt8 → Except DecodeError (List Argument)
  | [], _ => .ok read.reverse
  | '[' :: tags, bytes => readArguments (read :: outer) [] tags bytes
  | ']' :: tags, bytes =>
    match outer with
    | [] => .error .strayBracket
    | before :: outer => readArguments outer (.array read.reverse :: before) tags bytes
  | tag :: tags, bytes => do
    let (value, rest) ← readArgument tag bytes
    readArguments outer (value :: read) tags rest

/-- Reads a message, whose values may be left out together with their kinds. -/
def decodeMessage (bytes : List UInt8) : Except DecodeError Message := do
  let (address, rest) ← readText bytes
  let (tags, rest) ← readText rest
  return ⟨address, ← readArguments [] [] (tags.toList.drop 1) rest⟩

mutual

/-- Reads a packet in which at most a given number of sizes are followed. -/
def decodeWithin (fuel : Nat) (bytes : List UInt8) : Except DecodeError Packet := do
  match fuel, bytes with
  | 0, _ => .error .truncated
  | _, [] => .error .empty
  | fuel + 1, first :: more =>
    if first = '/'.toUInt8 then
      return .message (← decodeMessage (first :: more))
    else if first = '#'.toUInt8 then
      let (name, rest) ← readText (first :: more)
      if name ≠ "#bundle" then .error (.unknownBundle name)
      let (seconds, rest) ← readWord rest
      let (fraction, rest) ← readWord rest
      let content ← if rest.isEmpty then pure [] else decodeContent fuel rest
      return .bundle ⟨seconds.toNat, fraction.toNat⟩ content
    else .error .unknownFormat

/-- Reads the packets of a bundle up to a size that exceeds what is left. -/
def decodeContent (fuel : Nat) (bytes : List UInt8) : Except DecodeError (List Packet) := do
  match fuel with
  | 0 => .error .truncated
  | fuel + 1 =>
    let (size, rest) ← readWord bytes
    if rest.length < size.toNat then return []
    let packet ← decodeWithin fuel (rest.take size.toNat)
    match rest.drop size.toNat with
    | [] => return [packet]
    | later => return packet :: (← decodeContent fuel later)

end

/-- Reads a packet. -/
def decode (bytes : List UInt8) : Except DecodeError Packet :=
  -- Every step into a bundle takes up at least one byte.
  decodeWithin (bytes.length + 1) bytes

end Melody.Osc
