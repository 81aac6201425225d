import Melody.Voice.Basic

/-! Nodes of a synthesis server, and what is sent to them. -/

namespace Melody

/-- One message to the server, with the time at which it takes effect if that is not at once. -/
inductive NodeCommand (α : Type) where
  /-- A silent node is created. -/
  | new (node : Int32) (frequency pan : α)
  /-- The amplitude starts to slide to a value, which it reaches after a lag. -/
  | slide (node : Int32) (value lag time : α)
  /-- A node is freed. -/
  | free (node : Int32) (time? : Option α)
deriving DecidableEq

namespace NodeCommand

variable {α : Type}

/-- The node that a message is about. -/
def node : NodeCommand α → Int32
  | new node _ _ => node
  | slide node _ _ _ => node
  | free node _ => node

/-- The time at which a message takes effect, if it has one. -/
def time? : NodeCommand α → Option α
  | new _ _ _ => none
  | slide _ _ _ time => some time
  | free _ time? => time?

end NodeCommand

/-- A node with the time of its last change. -/
structure Node (α : Type) where
  id : Int32
  lastTime : α
  freed : Bool := false
deriving DecidableEq

namespace Node

variable {α : Type}

section Automation

variable [Scalar α]

/-- The message for a change of amplitude, where a slide starts at the change before it. -/
def message (node : Node α) (event : ControlEvent α) : NodeCommand α :=
  match event with
  | .jump value time => .slide node.id value 0.0 time
  | .ramp value time =>
    let start := Scalar.smaller node.lastTime time
    .slide node.id value (time - start) start

/-- Changes the amplitude of a node, of which a freed one only learns the time of a ramp. -/
def automate (node : Node α) (event : ControlEvent α) : Node α × List (NodeCommand α) :=
  if node.freed then
    match event with
    | .jump _ _ => (node, [])
    | .ramp _ time => ({ node with lastTime := time }, [])
  else ({ node with lastTime := event.time }, [node.message event])

/-- Changes the amplitude of a node event by event. -/
def automateAll (node : Node α) : List (ControlEvent α) → Node α × List (NodeCommand α)
  | [] => (node, [])
  | event :: later =>
    let (node, first) := node.automate event
    let (node, rest) := node.automateAll later
    (node, first ++ rest)

end Automation

/-- Releases of nodes are given this many points for each radian of turn. -/
def fidelity [Scalar α] : α := 10.0

/-- Fades a node out along an envelope and frees it where the envelope ends. -/
def release [Analytic α] (node : Node α) (time : α) (envelope : Envelope α) :
    Node α × List (NodeCommand α) :=
  if node.freed then (node, [])
  else
    let events := envelope.events (.startingAt time) fidelity
    let (node, slides) := { node with lastTime := time }.automateAll events
    (node, slides ++ [.free node.id (some (time + envelope.maxX))])

/-- Frees a node at once, unless that has been done. -/
def destroy (node : Node α) : Node α × List (NodeCommand α) :=
  if node.freed then (node, []) else ({ node with freed := true }, [.free node.id none])

/-- The messages by which a node follows a command. -/
def obey [Analytic α] (node : Node α) : Command α → Node α × List (NodeCommand α)
  | .gain event => node.automate event
  | .release time envelope => node.release time envelope
  | .destroy => node.destroy

/-- A node in short. -/
def summary [Readout α] (node : Node α) : String :=
  "SynthNode \x7b node_id: " ++ toString node.id.toInt ++
    ", last_time: " ++ Readout.pointed node.lastTime ++
    ", freed: " ++ toString node.freed ++ " \x7d"

end Node

end Melody
