import Melody.Voice.Basic

/-! A generator that sounds nothing and records what it is told. -/

namespace Melody

/-- One entry of a record. -/
inductive Record (α : Type) where
  | created (voice : Nat) (tone : Tone α)
  | commanded (voice : Nat) (command : Command α)
deriving DecidableEq

/-- A record in the order of its entries, with the rule for which attempts at a voice succeed. -/
structure Recorder (α : Type) where
  records : List (Record α) := []
  attempts : Nat := 0
  created : Nat := 0
  admits : Nat → Bool := fun _ => true

namespace Recorder

variable {α : Type}

/-- The recorder with a limit on further voices. -/
def withBudget (recorder : Recorder α) (budget : Option Nat) : Recorder α :=
  { recorder with admits := allowance recorder.attempts budget }

/-- Records a new voice, if the attempt is one that succeeds. -/
def create (recorder : Recorder α) (tone : Tone α) :
    Recorder α × Except CreationFault Nat :=
  -- An attempt counts whether it succeeds or not.
  let tried := { recorder with attempts := recorder.attempts + 1 }
  if recorder.admits recorder.attempts then
    let records := recorder.records ++ [.created recorder.created tone]
    ({ tried with records, created := recorder.created + 1 }, .ok recorder.created)
  else (tried, .error .exhausted)

/-- Records a command. -/
def obey (recorder : Recorder α) (voice : Nat) (command : Command α) :
    Recorder α × List Notice :=
  ({ recorder with records := recorder.records ++ [.commanded voice command] }, [])

instance : ToneGenerator (Recorder α) α where
  create := create
  obey := obey

end Recorder

end Melody
