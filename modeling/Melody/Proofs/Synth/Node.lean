import Melody.Proofs.Envelope.Extent
import Melody.Synth.Node

/-! What a node sends by one call: messages about itself, and none once it has been destroyed. -/

namespace Melody

namespace NodeCommand

variable {α : Type}

/-- The node that a message creates, if it creates one. -/
def created? : NodeCommand α → Option Int32
  | new node _ _ => some node
  | _ => none

/-- The node that a message frees at once, if it does that. -/
def freed? : NodeCommand α → Option Int32
  | free node none => some node
  | _ => none

/-- A message changes the amplitude of a node at a time from one to another. -/
def SlidesWithin (id : Int32) (low high : α) [LE α] (command : NodeCommand α) : Prop :=
  ∃ value lag time, command = .slide id value lag time ∧ low ≤ time ∧ time ≤ high

end NodeCommand

namespace Node

section Automation

variable {α : Type} [Scalar α] {node : Node α} {command : NodeCommand α}

/-- A message for a change of amplitude is a slide of the node. -/
theorem message_eq (node : Node α) (event : ControlEvent α) :
    ∃ value lag time, node.message event = .slide node.id value lag time := by
  cases event with
  | jump value time => exact ⟨_, _, _, rfl⟩
  | ramp value time => exact ⟨_, _, _, rfl⟩

/-- A node that has not been destroyed sends a message for each change. -/
theorem automate_live (live : node.freed = false) (event : ControlEvent α) :
    node.automate event = ({ node with lastTime := event.time }, [node.message event]) := by
  obtain ⟨id, lastTime, _⟩ := node
  cases live
  rfl

/-- Changes leave a node its number. -/
theorem automate_id (node : Node α) (event : ControlEvent α) :
    (node.automate event).1.id = node.id := by
  cases node with
  | mk id lastTime freed => cases freed <;> cases event <;> rfl

/-- Changes do not tell whether a node has been destroyed. -/
theorem automate_freed (node : Node α) (event : ControlEvent α) :
    (node.automate event).1.freed = node.freed := by
  cases node with
  | mk id lastTime freed => cases freed <;> cases event <;> rfl

/-- A change sends slides only. -/
theorem slide_of_mem_automate {event : ControlEvent α}
    (member : command ∈ (node.automate event).2) :
    ∃ value lag time, command = .slide node.id value lag time := by
  -- A node that has been freed sends nothing.
  cases live : node.freed with
  | false =>
    rw [automate_live live] at member
    obtain rfl := List.mem_singleton.mp member
    exact node.message_eq event
  | true =>
    obtain ⟨id, lastTime, _⟩ := node
    cases live
    cases event <;> contradiction

/-- Changes one after the other leave a node what one change leaves it. -/
theorem automateAll_keeps (node : Node α) (events : List (ControlEvent α)) :
    (node.automateAll events).1.id = node.id ∧
      (node.automateAll events).1.freed = node.freed := by
  induction events generalizing node with
  | nil => exact ⟨rfl, rfl⟩
  | cons event later ih =>
    obtain ⟨id, freed⟩ := ih (node.automate event).1
    exact ⟨id.trans (node.automate_id event), freed.trans (node.automate_freed event)⟩

/-- Changes one after the other send slides only. -/
theorem slide_of_mem_automateAll {events : List (ControlEvent α)}
    (member : command ∈ (node.automateAll events).2) :
    ∃ value lag time, command = .slide node.id value lag time := by
  -- Events leave the number of the node as it is.
  induction events generalizing node with
  | nil => contradiction
  | cons event later ih =>
    rcases List.mem_append.mp member with first | rest
    · exact slide_of_mem_automate first
    · rw [← node.automate_id event]
      exact ih rest

end Automation

section Following

variable {α : Type} [Analytic α] {node : Node α}

/-- A node that has been destroyed sends nothing more and stays destroyed. -/
theorem obey_freed (freed : node.freed = true) (command : Command α) :
    (node.obey command).2 = [] ∧ (node.obey command).1.freed = true := by
  -- A node that is freed answers nothing and stays freed.
  obtain ⟨id, lastTime, _⟩ := node
  cases freed
  cases command with
  | gain event => cases event <;> exact ⟨rfl, rfl⟩
  | release time envelope => exact ⟨rfl, rfl⟩
  | destroy => exact ⟨rfl, rfl⟩

/-- A release sends what plays the envelope, and a message that frees the node at its end. -/
theorem release_live (live : node.freed = false) (time : α) (envelope : Envelope α) :
    (node.release time envelope).2 =
      ({ node with lastTime := time }.automateAll
        (envelope.events (.startingAt time) fidelity)).2 ++
      [.free node.id (some (time + envelope.maxX))] := by
  -- The events of the release are followed by the message that frees the node at its end.
  obtain ⟨id, lastTime, _⟩ := node
  cases live
  have kept := (automateAll_keeps ⟨id, time, false⟩
    (envelope.events (.startingAt time) fidelity)).1
  show _ ++ [NodeCommand.free _ _] = _
  rw [kept]

/-- A command leaves a node its number. -/
theorem obey_id (node : Node α) (command : Command α) : (node.obey command).1.id = node.id := by
  -- No command touches the number of a node.
  cases command with
  | gain event => exact node.automate_id event
  | release time envelope =>
    rw [obey, release]
    split
    · rfl
    · exact ({ node with lastTime := time }.automateAll_keeps _).1
  | destroy =>
    rw [obey, destroy]
    split <;> rfl

/-- A node is marked when it is destroyed. -/
theorem destroy_freed (node : Node α) : (node.obey .destroy).1.freed = true := by
  rw [obey, destroy]
  split
  · assumption
  · rfl

/-- A node sends slides of itself, frees itself at a time, or is freed at once when destroyed. -/
theorem cases_of_mem_obey {command : Command α} {message : NodeCommand α}
    (member : message ∈ (node.obey command).2) :
    (∃ value lag time, message = .slide node.id value lag time) ∨
      (∃ time, message = .free node.id (some time)) ∨
      command = .destroy ∧ message = .free node.id none := by
  -- A live node slides, frees itself at the end of a release, or is destroyed.
  cases live : node.freed with
  | true =>
    rw [(obey_freed live command).1] at member
    contradiction
  | false =>
    cases command with
    | gain event => exact Or.inl (slide_of_mem_automate member)
    | release time envelope =>
      rw [obey, release_live live] at member
      rcases List.mem_append.mp member with slides | frees
      · obtain ⟨value, lag, time, same⟩ := slide_of_mem_automateAll slides
        exact Or.inl ⟨value, lag, time, same⟩
      · exact Or.inr (Or.inl ⟨_, List.mem_singleton.mp frees⟩)
    | destroy =>
      rw [obey, destroy, live] at member
      exact Or.inr (Or.inr ⟨rfl, List.mem_singleton.mp member⟩)

/-- All that is sent by a command is about the node, which is not created by it. -/
theorem node_of_mem_obey {command : Command α} {message : NodeCommand α}
    (member : message ∈ (node.obey command).2) :
    message.node = node.id ∧ message.created? = none := by
  rcases cases_of_mem_obey member with ⟨_, _, _, rfl⟩ | ⟨_, rfl⟩ | ⟨_, rfl⟩
  · exact ⟨rfl, rfl⟩
  · exact ⟨rfl, rfl⟩
  · exact ⟨rfl, rfl⟩

/-- A command frees a node at once when it destroys a live one, and that once only. -/
theorem frees_of_obey (node : Node α) (command : Command α) :
    (node.obey command).2.filterMap NodeCommand.freed? = [] ∨
      node.freed = false ∧ (node.obey command).1.freed = true ∧
        (node.obey command).2.filterMap NodeCommand.freed? = [node.id] := by
  -- A release frees its node later, so only destroying frees it at once.
  by_cases destroys : command = .destroy
  · subst destroys
    cases live : node.freed with
    | true => exact Or.inl (by rw [(obey_freed live _).1]; rfl)
    | false =>
      rw [obey, destroy, live]
      exact Or.inr ⟨rfl, rfl, rfl⟩
  · refine Or.inl (List.filterMap_eq_nil_iff.mpr fun message member => ?_)
    rcases cases_of_mem_obey member with ⟨_, _, _, rfl⟩ | ⟨_, rfl⟩ | ⟨same, _⟩
    · rfl
    · rfl
    · exact absurd same destroys

end Following

section Exact

variable {α : Type} [ExactScalar α] {node : Node α} {low high : α}

/-- Changes at times within bounds send slides that begin within them, if the last change did. -/
theorem automateAll_within {events : List (ControlEvent α)} (live : node.freed = false)
    (last : low ≤ node.lastTime) (within : ∀ event ∈ events, low ≤ event.time ∧ event.time ≤ high) :
    ∀ message ∈ (node.automateAll events).2, message.SlidesWithin node.id low high := by
  -- The last time moves on with the events, and so stays within.
  induction events generalizing node with
  | nil => exact List.forall_mem_nil _
  | cons event later ih =>
    obtain ⟨⟨first, bound⟩, rest⟩ := List.forall_mem_cons.mp within
    rw [automateAll, automate_live live]
    refine List.forall_mem_cons.mpr ⟨?_, ih live first rest⟩
    cases event with
    | jump value time => exact ⟨_, _, _, rfl, first, bound⟩
    | ramp value time =>
      refine ⟨_, _, _, rfl, ?_⟩
      rw [Scalar.smaller_eq_min]
      exact ⟨le_min last first, (min_le_right _ _).trans bound⟩

/-- A release sends slides that begin between its time and the end of its envelope, where it frees
the node. -/
theorem release_within (live : node.freed = false) (time : α) {envelope : Envelope α}
    (made : envelope.Made) :
    ∃ slides, (node.release time envelope).2 =
        slides ++ [.free node.id (some (time + envelope.maxX))] ∧
      ∀ message ∈ slides, message.SlidesWithin node.id time (time + envelope.maxX) := by
  refine ⟨_, release_live live time envelope, automateAll_within live le_rfl ?_⟩
  intro event member
  obtain ⟨low, high⟩ := made.events_within time fidelity event member
  exact ⟨(le_add_of_nonneg_right made.minX_nonneg).trans low, high⟩

end Exact

end Node

end Melody
