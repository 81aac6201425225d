import Melody.Osc.Packet

/-! Packets as bytes, every part of which fills whole words of four bytes. -/

namespace Melody.Osc

/-- A number of 32 bits, the highest byte first. -/
def word (value : UInt32) : List UInt8 :=
  [(value >>> 24).toUInt8, (value >>> 16).toUInt8, (value >>> 8).toUInt8, value.toUInt8]

/-- The zeros that fill up the last word of so many bytes. -/
def padding (length : Nat) : List UInt8 :=
  List.replicate ((4 - length % 4) % 4) 0

/-- A text that ends with one to four zeros. -/
def text (value : String) : List UInt8 :=
  let bytes := value.toUTF8.toList ++ [0]
  bytes ++ padding bytes.length

mutual

/-- The characters that stand for the kind of a value. -/
def Argument.tags : Argument → List Char
  | .int _ => ['i']
  | .text _ => ['s']
  | .float _ => ['f']
  | .blob _ => ['b']
  | .other kind _ => [kind]
  | .array content => '[' :: tagsOf content ++ [']']

/-- The characters that stand for the kinds of values. -/
def tagsOf : List Argument → List Char
  | [] => []
  | value :: later => value.tags ++ tagsOf later

end

mutual

/-- The bytes of a value. -/
def Argument.encode : Argument → List UInt8
  | .int value => word value.toUInt32
  | .text value => text value
  | .float value => word value.toBits
  | .blob content => word (UInt32.ofNat content.length) ++ content ++ padding content.length
  | .other _ bytes => bytes
  | .array content => encodeValues content

/-- The bytes of values one after the other. -/
def encodeValues : List Argument → List UInt8
  | [] => []
  | value :: later => value.encode ++ encodeValues later

end

/-- The bytes of a message: its address, the kinds of its values, and the values. -/
def Message.encode (message : Message) : List UInt8 :=
  text message.address ++ text (String.ofList (',' :: tagsOf message.arguments)) ++
    encodeValues message.arguments

/-- The bytes of a timetag. -/
def Timetag.encode (time : Timetag) : List UInt8 :=
  word (UInt32.ofNat time.seconds) ++ word (UInt32.ofNat time.fraction)

/-- A part of a bundle with its length before it. -/
def sized (bytes : List UInt8) : List UInt8 :=
  word (UInt32.ofNat bytes.length) ++ bytes

mutual

/-- The bytes of a packet. -/
def Packet.encode : Packet → List UInt8
  | .message message => message.encode
  | .bundle time content => text "#bundle" ++ time.encode ++ encodeContent content

/-- The bytes of the packets of a bundle. -/
def encodeContent : List Packet → List UInt8
  | [] => []
  | packet :: later => sized packet.encode ++ encodeContent later

end

end Melody.Osc
