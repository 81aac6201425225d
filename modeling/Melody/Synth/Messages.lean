import Melody.Binary64
import Melody.Osc.Timetag
import Melody.Synth.Generator

/-! What is sent to a synthesis server, as packets. -/

namespace Melody

/-- The sound that nodes play, the group they join, and the wall clock time of second zero. -/
structure Patch where
  name : String := "tone"
  target : Int32 := 1
  /-- Nanoseconds since 1970. -/
  epoch : Int
deriving DecidableEq

namespace NodeCommand

open Osc

/-- The message of a command. -/
def message (patch : Patch) : NodeCommand Float → Message
  | new node frequency pan =>
    { address := "/s_new"
      arguments := [
        .text patch.name, .int node, .int 0, .int patch.target,
        .text "freq", .float frequency.toFloat32,
        .text "amp", .float 0.0,
        .text "pan", .float pan.toFloat32] }
  | slide node value lag _ =>
    { address := "/n_set"
      arguments := [
        .int node, .text "amp", .float value.toFloat32, .text "lag", .float lag.toFloat32] }
  | free node _ => { address := "/n_free", arguments := [.int node] }

/-- The packet of a command, a timed one going into a bundle, if its time has a timetag. -/
def packet? (patch : Patch) (command : NodeCommand Float) : Option Packet :=
  match command.time? with
  | none => some (.message (command.message patch))
  | some time =>
    (Timetag.ofTime? patch.epoch time).map fun tag =>
      .bundle tag [.message (command.message patch)]

end NodeCommand

end Melody
