/-! Open Sound Control packets: messages, and bundles that take effect at a given time. -/

namespace Melody.Osc

/-- A value in a message. -/
inductive Argument where
  | int (value : Int32)
  | text (value : String)
  | float (value : Float32)
  /-- Bytes of any number. -/
  | blob (content : List UInt8)
  /-- A value of some other kind, which is kept as the bytes it takes up. -/
  | other (kind : Char) (bytes : List UInt8)
  | array (content : List Argument)

/-- A message to an address. -/
structure Message where
  address : String
  arguments : List Argument

/-- A time in seconds since the year 1900, the fraction in units of a second over 2 to the 32. -/
structure Timetag where
  seconds : Nat
  fraction : Nat
deriving DecidableEq, Repr

/-- A message, or packets that take effect together. -/
inductive Packet where
  | message (message : Message)
  | bundle (time : Timetag) (content : List Packet)

end Melody.Osc
