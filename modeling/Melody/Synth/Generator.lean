import Melody.Synth.Node

/-! A generator whose voices are nodes of a synthesis server. -/

namespace Melody

/-- A message with the answer to whether it reached the server. -/
structure Delivery (α : Type) where
  command : NodeCommand α
  delivered : Bool
deriving DecidableEq

/-- The nodes of a server, the messages tried so far, and the rule for which attempts succeed. -/
structure Synth (α : Type) where
  nextId : Int32 := 1000
  nodes : List (Node α) := []
  deliveries : List (Delivery α) := []
  delivers : Nat → Bool := fun _ => true

namespace Synth

variable {α : Type}

/-- The synth with a limit on further messages. -/
def withBudget (synth : Synth α) (budget : Option Nat) : Synth α :=
  { synth with delivers := allowance synth.deliveries.length budget }

/-- A node has the last number that there is, and counting on from it has ended the program. -/
def hasRunOut (synth : Synth α) : Bool :=
  synth.nodes.any fun node => node.id == Int32.maxValue

/-- The messages that reached the server, in order. -/
def sent (synth : Synth α) : List (NodeCommand α) :=
  (synth.deliveries.filter (·.delivered)).map (·.command)

/-- Tries to send a message. -/
def send (synth : Synth α) (command : NodeCommand α) : Synth α × Bool :=
  let delivered := synth.delivers synth.deliveries.length
  ({ synth with deliveries := synth.deliveries ++ [⟨command, delivered⟩] }, delivered)

/-- The notice that a message did not reach the server. -/
def undelivered (command : NodeCommand α) : Notice :=
  let deed := match command with
    | .new _ _ _ => "creating node "
    | .slide _ _ _ _ => "setting amp of node "
    | .free _ _ => "freeing node "
  ⟨.error, deed ++ toString command.node.toInt ++ ": sending packet to server"⟩

/-- Tries to send messages one after the other, and gives a notice for each that fails. -/
def sendAll (synth : Synth α) : List (NodeCommand α) → Synth α × List Notice
  | [] => (synth, [])
  | command :: later =>
    let (synth, delivered) := synth.send command
    let (synth, notices) := synth.sendAll later
    (synth, if delivered then notices else undelivered command :: notices)

/-- Creates a node, which takes the next number if the server is reached. -/
def create (synth : Synth α) (tone : Tone α) : Synth α × Except CreationFault Nat :=
  let (tried, delivered) := synth.send (.new synth.nextId tone.frequency tone.pan)
  if delivered then
    let nodes := synth.nodes ++ [⟨synth.nextId, tone.start, false⟩]
    ({ tried with nodes, nextId := synth.nextId + 1 }, .ok synth.nodes.length)
  else (tried, .error .undelivered)

/-- Has the node of a voice follow a command. -/
def obey [Analytic α] (synth : Synth α) (voice : Nat) (command : Command α) :
    Synth α × List Notice :=
  match synth.nodes[voice]? with
  | none => (synth, [])
  | some node =>
    let (node, messages) := node.obey command
    { synth with nodes := synth.nodes.set voice node }.sendAll messages

instance [Analytic α] : ToneGenerator (Synth α) α where
  create := create
  obey := obey

end Synth

end Melody
