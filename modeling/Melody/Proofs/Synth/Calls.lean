import Melody.Proofs.Synth.Node
import Melody.Synth.Messages

/-! The nodes of a synth from their creation to the message that frees them, over every sequence of
calls and every pattern of messages that do not reach the server. -/

namespace Melody

section Calls

variable {α : Type}

/-- What may be asked of a synth: a new node, or that the node of a voice follows a command. -/
inductive Call (α : Type) where
  | create (tone : Tone α)
  | tell (voice : Nat) (command : Command α)

namespace Delivery

/-- The node whose creation has reached the server by a message, if that is what it did. -/
def created? (delivery : Delivery α) : Option Int32 :=
  if delivery.delivered then delivery.command.created? else none

/-- The node that a message would free at once, if it does that. -/
def freed? (delivery : Delivery α) : Option Int32 :=
  delivery.command.freed?

end Delivery

namespace Synth

/-- A synth that has not been asked for anything, with the number of its first node. -/
def starting (first : Int32) (delivers : Nat → Bool) : Synth α :=
  { nextId := first, delivers }

/-- Answers one call. -/
def answer [Analytic α] (synth : Synth α) : Call α → Synth α
  | .create tone => (synth.create tone).1
  | .tell voice command => (synth.obey voice command).1

/-- Answers calls one after the other. -/
def answerAll [Analytic α] (synth : Synth α) (calls : List (Call α)) : Synth α :=
  calls.foldl answer synth

end Synth

end Calls

/-- The number of the node that is created behind so many others. -/
def numberFrom (first : Int32) (place : Nat) : Int32 :=
  Int32.ofInt (first.toInt + place)

/-- The first node has the number that is given for it. -/
theorem numberFrom_zero (first : Int32) : numberFrom first 0 = first := by
  rw [numberFrom, Int.ofNat_zero, Int.add_zero, Int32.ofInt_toInt]

/-- Numbers go up by one. -/
theorem numberFrom_succ (first : Int32) (place : Nat) :
    numberFrom first (place + 1) = numberFrom first place + 1 := by
  -- Conversion from the integers respects addition, wrapping included.
  rw [numberFrom, Int.natCast_succ, ← Int.add_assoc, Int32.ofInt_add]
  rfl

/-- Within the range of numbers none is passed over. -/
theorem toInt_numberFrom {first : Int32} {place : Nat} (room : first.toInt + place < 2 ^ 31) :
    (numberFrom first place).toInt = first.toInt + place := by
  -- Both bounds are known: the room above, and the least number below.
  have least := first.le_toInt
  exact Int32.toInt_ofInt_of_le (by omega) room

/-- Within the range of numbers none is given twice. -/
theorem numberFrom_inj {first : Int32} {place other : Nat} (room : first.toInt + place < 2 ^ 31)
    (also_room : first.toInt + other < 2 ^ 31)
    (same : numberFrom first place = numberFrom first other) : place = other := by
  -- Numbers within the range tell their places.
  have equal := congrArg Int32.toInt same
  rw [toInt_numberFrom room, toInt_numberFrom also_room] at equal
  omega

namespace Osc

/-- The nodes that a message is about: one that is created or changed, or any that are freed. -/
def Message.nodes (message : Message) : List Int32 :=
  match message.address, message.arguments with
  | "/s_new", _ :: .int node :: _ => [node]
  | "/n_set", .int node :: _ => [node]
  | "/n_free", freed => freed.filterMap fun
    | .int node => some node
    | _ => none
  | _, _ => []

mutual

/-- The nodes that a packet is about. -/
def Packet.nodes : Packet → List Int32
  | .message only => only.nodes
  | .bundle _ content => Packet.nodesOf content

/-- The nodes that packets are about, one packet after the other. -/
def Packet.nodesOf : List Packet → List Int32
  | [] => []
  | packet :: later => packet.nodes ++ nodesOf later

end

end Osc

/-- A packet is about one node, the one that its command is about. -/
theorem NodeCommand.nodes_of_packet? {patch : Patch} {command : NodeCommand Float}
    {packet : Osc.Packet} (encoded : command.packet? patch = some packet) :
    packet.nodes = [command.node] := by
  have about : (command.message patch).nodes = [command.node] := by
    cases command <;> rfl
  -- A timed command is wrapped in a bundle of its own, which adds no node.
  unfold packet? at encoded
  split at encoded
  · cases encoded
    exact about
  · obtain ⟨tag, _, rfl⟩ := Option.map_eq_some_iff.mp encoded
    rw [Osc.Packet.nodes, Osc.Packet.nodesOf, Osc.Packet.nodesOf, Osc.Packet.nodes,
      List.append_nil]
    exact about

namespace Synth

section Steps

variable {α : Type} {synth : Synth α}

/-- Messages are tried one after the other, and nothing else changes. -/
theorem sendAll_eq (synth : Synth α) (commands : List (NodeCommand α)) :
    ∃ more, more.map Delivery.command = commands ∧
      (synth.sendAll commands).1 = { synth with deliveries := synth.deliveries ++ more } := by
  -- Sending touches the record of deliveries only, so the rest may start from any synth.
  induction commands generalizing synth with
  | nil => exact ⟨[], rfl, by rw [List.append_nil]; rfl⟩
  | cons command later ih =>
    obtain ⟨more, same, rest⟩ := ih (synth.send command).1
    refine ⟨⟨command, (synth.send command).2⟩ :: more, congrArg _ same, ?_⟩
    show ((synth.send command).1.sendAll later).1 = _
    rw [rest]
    simp [send]

/-- A creation that does not reach the server uses up no number. -/
theorem create_cases (synth : Synth α) (tone : Tone α) :
    (∃ fault, synth.create tone =
      ({ synth with
        deliveries := synth.deliveries ++ [⟨.new synth.nextId tone.frequency tone.pan, false⟩] },
        .error fault)) ∨
    synth.create tone =
      ({ synth with
        nextId := synth.nextId + 1
        nodes := synth.nodes ++ [⟨synth.nextId, tone.start, false⟩]
        deliveries := synth.deliveries ++ [⟨.new synth.nextId tone.frequency tone.pan, true⟩] },
        .ok synth.nodes.length) := by
  -- The one message of a creation decides about its number and its node.
  cases delivered : synth.delivers synth.deliveries.length with
  | false => exact Or.inl ⟨.undelivered, by simp [create, send, delivered]⟩
  | true => exact Or.inr (by simp [create, send, delivered])

variable [Analytic α]

/-- A voice without a node sends nothing. -/
theorem obey_none {voice : Nat} (none : synth.nodes[voice]? = none) (command : Command α) :
    (synth.obey voice command).1 = synth := by
  simp [obey, none]

/-- The node of a voice follows a command, and its messages are tried. -/
theorem obey_some {voice : Nat} {node : Node α} (found : synth.nodes[voice]? = some node)
    (command : Command α) :
    ∃ more, more.map Delivery.command = (node.obey command).2 ∧
      (synth.obey voice command).1 =
        { synth with
          nodes := synth.nodes.set voice (node.obey command).1
          deliveries := synth.deliveries ++ more } := by
  -- The node is replaced first, and the messages are tried from there.
  obtain ⟨more, same, sent⟩ := sendAll_eq
    { synth with nodes := synth.nodes.set voice (node.obey command).1 } (node.obey command).2
  refine ⟨more, same, ?_⟩
  rw [obey, found]
  exact sent

/-- Calls are answered behind others. -/
theorem answerAll_append (synth : Synth α) (calls later : List (Call α)) :
    synth.answerAll (calls ++ later) = (synth.answerAll calls).answerAll later :=
  List.foldl_append ..

/-- No node is lost by a call. -/
theorem length_answer (synth : Synth α) (call : Call α) :
    synth.nodes.length ≤ (synth.answer call).nodes.length := by
  -- A creation may add a node, and a command only replaces one.
  cases call with
  | create tone =>
    rcases synth.create_cases tone with ⟨fault, created⟩ | created
    · rw [answer, created]
    · rw [answer, created, List.length_append]
      exact Nat.le_add_right _ _
  | tell voice command =>
    cases found : synth.nodes[voice]? with
    | none => rw [answer, obey_none found]
    | some node =>
      obtain ⟨more, _, obeyed⟩ := obey_some found command
      rw [answer, obeyed, List.length_set]

/-- No node is lost by calls. -/
theorem length_answerAll (synth : Synth α) (calls : List (Call α)) :
    synth.nodes.length ≤ (synth.answerAll calls).nodes.length := by
  induction calls generalizing synth with
  | nil => exact Nat.le_refl _
  | cons call later ih => exact (synth.length_answer call).trans (ih _)

end Steps

section Numbering

variable {α : Type} {first : Int32} {synth : Synth α}

/-- A message that creates a node has the number behind those of the nodes created before, and any
other message is about one of these. -/
def Announced (first : Int32) (before : List (Delivery α)) (delivery : Delivery α) : Prop :=
  match delivery.command.created? with
  | some node => node = numberFrom first (before.filterMap Delivery.created?).length
  | none => delivery.command.node ∈ before.filterMap Delivery.created?

/-- The nodes of a synth are numbered in the order of their creation, as they are announced. -/
structure Numbered (first : Int32) (synth : Synth α) : Prop where
  next : synth.nextId = numberFrom first synth.nodes.length
  ids : synth.nodes.map Node.id = (List.range synth.nodes.length).map (numberFrom first)
  created : synth.deliveries.filterMap Delivery.created? = synth.nodes.map Node.id
  announced : ∀ before delivery, before ++ [delivery] <+: synth.deliveries →
    Announced first before delivery

namespace Numbered

/-- A synth that has not been asked for anything has no nodes yet. -/
theorem starting (first : Int32) (delivers : Nat → Bool) :
    Numbered first (.starting first delivers : Synth α) where
  next := (numberFrom_zero first).symm
  ids := rfl
  created := rfl
  -- Nothing has been sent yet, so nothing is a prefix of it.
  announced := by
    intro before delivery starts
    have none : before ++ [delivery] = [] := List.prefix_nil.mp starts
    simp at none

/-- The number of a node tells its place. -/
theorem id_eq (numbered : Numbered first synth) {voice : Nat} {node : Node α}
    (found : synth.nodes[voice]? = some node) :
    voice < synth.nodes.length ∧ node.id = numberFrom first voice := by
  obtain ⟨bound, _⟩ := List.getElem?_eq_some_iff.mp found
  -- Numbers are listed by place, so both lists are read at the place of the voice.
  have listed := congrArg (·[voice]?) numbered.ids
  simp only [List.getElem?_map, found, List.getElem?_range bound, Option.map_some] at listed
  exact ⟨bound, Option.some.inj listed⟩

/-- Within the range of numbers no two nodes have the same. -/
theorem nodup (numbered : Numbered first synth)
    (room : first.toInt + synth.nodes.length < 2 ^ 31) : (synth.nodes.map Node.id).Nodup := by
  rw [numbered.ids]
  -- Places are not repeated, and within the range numbers tell places.
  refine List.nodup_range.map_on fun place inside other within same => ?_
  have low := List.mem_range.mp inside
  have high := List.mem_range.mp within
  exact numberFrom_inj (by omega) (by omega) same

/-- Numbers run out exactly when there are nodes beyond their range. -/
theorem hasRunOut_iff (numbered : Numbered first synth) :
    synth.hasRunOut = true ↔ 2 ^ 31 ≤ first.toInt + synth.nodes.length := by
  -- A synth has run out when one of its nodes has the last number.
  have listed : synth.hasRunOut = true ↔
      ∃ place < synth.nodes.length, numberFrom first place = Int32.maxValue := by
    have inside : synth.hasRunOut = true ↔ Int32.maxValue ∈ synth.nodes.map Node.id := by
      simp [hasRunOut]
    rw [inside, numbered.ids]
    simp
  have most : Int32.maxValue.toInt = 2 ^ 31 - 1 := rfl
  have upper := first.toInt_lt
  rw [listed]
  constructor
  · rintro ⟨place, within, last⟩
    by_contra room
    -- Within the range the last number is that of a node behind all that there are.
    have number : (numberFrom first place).toInt = first.toInt + place :=
      toInt_numberFrom (by omega)
    rw [last, most] at number
    omega
  · intro beyond
    refine ⟨(2 ^ 31 - 1 - first.toInt).toNat, by omega, Int32.toInt_inj.mp ?_⟩
    rw [toInt_numberFrom (by omega), most]
    omega

/-- A node may be replaced by one of the same number. -/
theorem replace (numbered : Numbered first synth) {voice : Nat} {node next : Node α}
    (found : synth.nodes[voice]? = some node) (same : next.id = node.id) :
    Numbered first { synth with nodes := synth.nodes.set voice next } := by
  obtain ⟨bound, rfl⟩ := List.getElem?_eq_some_iff.mp found
  -- The list of numbers is all that is said about the nodes, and it stays.
  have kept : (synth.nodes.set voice next).map Node.id = synth.nodes.map Node.id := by
    rw [List.map_set, same, ← List.map_set, List.set_getElem_self]
  exact {
    next := by rw [List.length_set]; exact numbered.next
    ids := by rw [kept, List.length_set]; exact numbered.ids
    created := by rw [kept]; exact numbered.created
    announced := numbered.announced }

/-- Messages about nodes that are there may be tried. -/
theorem record (numbered : Numbered first synth) {more : List (Delivery α)}
    (known : ∀ delivery ∈ more, delivery.command.created? = none ∧
      delivery.command.node ∈ synth.nodes.map Node.id) :
    Numbered first { synth with deliveries := synth.deliveries ++ more } := by
  -- Messages that create nothing leave the nodes that are known as they were.
  have none : ∀ rest ⊆ more, rest.filterMap Delivery.created? = [] := by
    intro rest subset
    refine List.filterMap_eq_nil_iff.mpr fun delivery member => ?_
    rw [Delivery.created?, (known delivery (subset member)).1, ite_self]
  refine ⟨numbered.next, numbered.ids, ?_, ?_⟩
  · rw [List.filterMap_append, none more (List.Subset.refl _), List.append_nil]
    exact numbered.created
  · -- The induction is on the messages, the last of which comes behind all the others.
    induction more using List.reverseRecOn with
    | nil =>
      rw [List.append_nil]
      exact numbered.announced
    | append_singleton front last ih =>
      intro before delivery starts
      have earlier : ∀ rest ⊆ front, rest ⊆ front ++ [last] := fun rest subset =>
        List.Subset.trans subset (List.subset_append_left _ _)
      dsimp only at starts
      rw [← List.append_assoc, List.prefix_concat_iff] at starts
      rcases starts with whole | part
      · obtain ⟨rfl, only⟩ := List.append_inj' whole rfl
        obtain rfl := List.singleton_inj.mp only
        obtain ⟨follows, present⟩ := known delivery (by simp)
        rw [Announced, follows]
        dsimp only
        rw [List.filterMap_append, none front (earlier front (List.Subset.refl _)),
          List.append_nil, numbered.created]
        exact present
      · exact ih (fun other member => known other (List.mem_append_left _ member))
          (fun rest subset => none rest (earlier rest subset)) before delivery part

/-- Nodes stay numbered by a call. -/
theorem answer [Analytic α] (numbered : Numbered first synth) (call : Call α) :
    Numbered first (synth.answer call) := by
  -- A message that tries to create a node has the next number, whether it gets through or not.
  have tried : ∀ frequency pan delivered before delivery,
      before ++ [delivery] <+:
        synth.deliveries ++ [⟨.new synth.nextId frequency pan, delivered⟩] →
      Announced first before delivery := by
    intro frequency pan delivered before delivery starts
    rcases List.prefix_concat_iff.mp starts with whole | part
    · obtain ⟨rfl, only⟩ := List.append_inj' whole rfl
      obtain rfl := List.singleton_inj.mp only
      show synth.nextId = _
      rw [numbered.created, List.length_map]
      exact numbered.next
    · exact numbered.announced before delivery part
  cases call with
  | create tone =>
    rcases synth.create_cases tone with ⟨fault, created⟩ | created
    · rw [Synth.answer, created]
      refine ⟨numbered.next, numbered.ids, ?_, tried _ _ _⟩
      simpa [Delivery.created?] using numbered.created
    · rw [Synth.answer, created]
      refine ⟨?_, ?_, ?_, tried _ _ _⟩
      · rw [List.length_append, List.length_singleton, numberFrom_succ, ← numbered.next]
      · rw [List.map_append, List.length_append, List.length_singleton, List.range_succ,
          List.map_append, ← numbered.ids, List.map_singleton, List.map_singleton, numbered.next]
      · rw [List.filterMap_append, List.map_append, numbered.created]
        rfl
  | tell voice command =>
    cases found : synth.nodes[voice]? with
    | none =>
      rw [Synth.answer, obey_none found]
      exact numbered
    | some node =>
      obtain ⟨more, same, obeyed⟩ := obey_some found command
      rw [Synth.answer, obeyed]
      have replaced := numbered.replace found (node.obey_id command)
      refine replaced.record fun delivery member => ?_
      have sent : delivery.command ∈ (node.obey command).2 := by
        rw [← same]
        exact List.mem_map_of_mem member
      obtain ⟨about, follows⟩ := Node.node_of_mem_obey sent
      refine ⟨follows, ?_⟩
      rw [about, replaced.ids, List.length_set, (numbered.id_eq found).2]
      exact List.mem_map_of_mem (List.mem_range.mpr (numbered.id_eq found).1)

/-- Nodes stay numbered by calls. -/
theorem answerAll [Analytic α] (numbered : Numbered first synth) (calls : List (Call α)) :
    Numbered first (synth.answerAll calls) := by
  induction calls generalizing synth with
  | nil => exact numbered
  | cons call later ih => exact ih (numbered.answer call)

end Numbered

end Numbering

section Destroying

variable {α : Type} [Analytic α] {first : Int32} {synth : Synth α}

/-- A destroyed node is still there when the node of a voice has followed a command. -/
theorem freed_set {voice : Nat} {node : Node α} (found : synth.nodes[voice]? = some node)
    (command : Command α) {id : Int32}
    (freed : ∃ node ∈ synth.nodes, node.id = id ∧ node.freed = true) :
    ∃ other ∈ synth.nodes.set voice (node.obey command).1,
      other.id = id ∧ other.freed = true := by
  obtain ⟨other, member, same, gone⟩ := freed
  obtain ⟨place, bound, rfl⟩ := List.mem_iff_getElem.mp member
  obtain ⟨inside, rfl⟩ := List.getElem?_eq_some_iff.mp found
  -- A node that has been freed stays so, whether the command is for it or not.
  by_cases here : voice = place
  · subst here
    exact ⟨_, List.mem_set inside _, (Node.obey_id _ command).trans same,
      (Node.obey_freed gone command).2⟩
  · refine ⟨synth.nodes[place], List.mem_iff_getElem.mpr ⟨place, ?_, ?_⟩, same, gone⟩
    · rw [List.length_set]
      exact bound
    · exact List.getElem_set_ne here _

/-- No node is freed at once again, and each that has been is marked as destroyed. -/
structure Spent (synth : Synth α) : Prop where
  once : (synth.deliveries.filterMap Delivery.freed?).Nodup
  marked : ∀ id ∈ synth.deliveries.filterMap Delivery.freed?,
    ∃ node ∈ synth.nodes, node.id = id ∧ node.freed = true

/-- A call frees a node at once only when it destroys one that had not been destroyed. -/
theorem Spent.answer (spent : Spent synth) (distinct : (synth.nodes.map Node.id).Nodup)
    (call : Call α) : Spent (synth.answer call) := by
  cases call with
  | create tone =>
    -- Creating a node frees none.
    have same : ∀ delivered, (synth.deliveries ++ [(⟨.new synth.nextId tone.frequency tone.pan,
        delivered⟩ : Delivery α)]).filterMap Delivery.freed? =
          synth.deliveries.filterMap Delivery.freed? := by
      intro delivered
      rw [List.filterMap_append]
      exact List.append_nil _
    rcases synth.create_cases tone with ⟨fault, created⟩ | created
    · rw [Synth.answer, created]
      exact ⟨(same _).symm ▸ spent.once, (same _).symm ▸ spent.marked⟩
    · rw [Synth.answer, created]
      refine ⟨(same _).symm ▸ spent.once, fun id member => ?_⟩
      obtain ⟨node, present, marked⟩ := spent.marked id (same _ ▸ member)
      exact ⟨node, List.mem_append_left _ present, marked⟩
  | tell voice command =>
    cases found : synth.nodes[voice]? with
    | none =>
      rw [Synth.answer, obey_none found]
      exact spent
    | some node =>
      obtain ⟨more, same, obeyed⟩ := obey_some found command
      -- What a command frees comes behind what was freed before.
      have split : (synth.deliveries ++ more).filterMap Delivery.freed? =
          synth.deliveries.filterMap Delivery.freed? ++
            (node.obey command).2.filterMap NodeCommand.freed? := by
        rw [← same, List.filterMap_map, List.filterMap_append]
        rfl
      have marked : ∀ id ∈ synth.deliveries.filterMap Delivery.freed?,
          ∃ other ∈ synth.nodes.set voice (node.obey command).1,
            other.id = id ∧ other.freed = true :=
        fun id member => freed_set found command (spent.marked id member)
      rw [Synth.answer, obeyed]
      -- A command frees its node at once or not at all.
      rcases node.frees_of_obey command with none | ⟨live, destroyed, frees⟩
      · rw [none, List.append_nil] at split
        exact ⟨split.symm ▸ spent.once, split.symm ▸ marked⟩
      · rw [frees] at split
        refine ⟨?_, ?_⟩
        · -- A node of this number that has been freed would have been marked, and be this one.
          rw [split]
          refine List.nodup_append.mpr ⟨spent.once, List.nodup_singleton _, ?_⟩
          rintro id member _ only rfl
          obtain rfl := List.mem_singleton.mp only
          obtain ⟨other, present, equal, gone⟩ := spent.marked _ member
          have one := List.inj_on_of_nodup_map distinct present (List.mem_of_getElem? found) equal
          rw [one, live] at gone
          contradiction
        · rw [split]
          intro id member
          rcases List.mem_append.mp member with before | now
          · exact marked id before
          · obtain rfl := List.mem_singleton.mp now
            obtain ⟨bound, _⟩ := List.getElem?_eq_some_iff.mp found
            exact ⟨_, List.mem_set bound _, node.obey_id command, destroyed⟩

/-- Calls free each node at once one time at most. -/
theorem Spent.answerAll (spent : Spent synth) (numbered : Numbered first synth)
    {calls : List (Call α)}
    (room : first.toInt + (synth.answerAll calls).nodes.length < 2 ^ 31) :
    Spent (synth.answerAll calls) := by
  induction calls generalizing synth with
  | nil => exact spent
  | cons call later ih =>
    have grows := synth.length_answerAll (call :: later)
    -- There are no more nodes now than in the end, so their numbers differ.
    have distinct := numbered.nodup (by omega)
    exact ih (spent.answer distinct call) (numbered.answer call) room

/-- Once all nodes of a number have been destroyed, no call sends anything about it, as long as the
number is not given to another node. -/
theorem quiet_answer {id : Int32} (gone : ∀ node ∈ synth.nodes, node.id = id → node.freed = true)
    (fresh : id ≠ synth.nextId) (call : Call α) :
    ∃ now, (synth.answer call).deliveries = synth.deliveries ++ now ∧
      (∀ delivery ∈ now, delivery.command.node ≠ id) ∧
      ∀ node ∈ (synth.answer call).nodes, node.id = id → node.freed = true := by
  -- A creation is about a new number, and a command about the node of its voice.
  cases call with
  | create tone =>
    rcases synth.create_cases tone with ⟨fault, created⟩ | created
    · rw [answer, created]
      exact ⟨_, rfl, List.forall_mem_singleton.mpr fresh.symm, gone⟩
    · rw [answer, created]
      refine ⟨_, rfl, List.forall_mem_singleton.mpr fresh.symm, fun node member same => ?_⟩
      rcases List.mem_append.mp member with before | last
      · exact gone node before same
      · obtain rfl := List.mem_singleton.mp last
        exact absurd same.symm fresh
  | tell voice command =>
    cases found : synth.nodes[voice]? with
    | none =>
      rw [answer, obey_none found]
      exact ⟨[], (List.append_nil _).symm, List.forall_mem_nil _, gone⟩
    | some node =>
      obtain ⟨more, same, obeyed⟩ := obey_some found command
      have inside := List.mem_of_getElem? found
      rw [answer, obeyed]
      refine ⟨more, rfl, fun delivery member equal => ?_, fun other member equal => ?_⟩
      · -- A node of this number has been destroyed and sends nothing.
        have message : delivery.command ∈ (node.obey command).2 := by
          rw [← same]
          exact List.mem_map_of_mem member
        rw [(Node.node_of_mem_obey message).1] at equal
        rw [(Node.obey_freed (gone node inside equal) command).1] at message
        contradiction
      · rcases List.mem_or_eq_of_mem_set member with before | rfl
        · exact gone other before equal
        · rw [node.obey_id command] at equal
          exact (Node.obey_freed (gone node inside equal) command).2

/-- Once all nodes of a number have been destroyed, calls send nothing about it. -/
theorem quiet_answerAll (numbered : Numbered first synth) {place : Nat}
    (created : place < synth.nodes.length)
    (gone : ∀ node ∈ synth.nodes, node.id = numberFrom first place → node.freed = true)
    {calls : List (Call α)}
    (room : first.toInt + (synth.answerAll calls).nodes.length < 2 ^ 31) :
    ∃ later, (synth.answerAll calls).deliveries = synth.deliveries ++ later ∧
      ∀ delivery ∈ later, delivery.command.node ≠ numberFrom first place := by
  induction calls generalizing synth with
  | nil => exact ⟨[], (List.append_nil _).symm, List.forall_mem_nil _⟩
  | cons call rest ih =>
    have step := synth.length_answer call
    have grows := synth.length_answerAll (call :: rest)
    -- The next number belongs to a place behind that of the node.
    have fresh : numberFrom first place ≠ synth.nextId := by
      rw [numbered.next]
      intro same
      exact created.ne (numberFrom_inj (by omega) (by omega) same)
    obtain ⟨now, sent, apart, still⟩ := quiet_answer gone fresh call
    obtain ⟨later, others, behind⟩ := ih (numbered.answer call) (by omega) still room
    refine ⟨now ++ later, ?_, fun delivery member => ?_⟩
    · rw [← List.append_assoc, ← sent]
      exact others
    · rcases List.mem_append.mp member with first | second
      · exact apart delivery first
      · exact behind delivery second

/-- The nodes of the number of a voice have been destroyed when the voice has been. -/
theorem gone_of_destroy (numbered : Numbered first synth)
    (room : first.toInt + synth.nodes.length < 2 ^ 31) {voice : Nat} {node : Node α}
    (found : synth.nodes[voice]? = some node) :
    ∀ other ∈ (synth.answer (.tell voice .destroy)).nodes, other.id = node.id →
      other.freed = true := by
  obtain ⟨more, _, obeyed⟩ := obey_some found .destroy
  obtain ⟨inside, number⟩ := numbered.id_eq found
  rw [answer, obeyed]
  intro other member same
  obtain ⟨place, bound, rfl⟩ := List.mem_iff_getElem.mp member
  rw [List.length_set] at bound
  -- The node of this voice is marked by the call itself.
  by_cases here : voice = place
  · subst here
    rw [List.getElem_set_self]
    exact node.destroy_freed
  · -- Another node has another number.
    have other_number := (numbered.id_eq (List.getElem?_eq_getElem bound)).2
    rw [List.getElem_set_ne here, number, other_number] at same
    exact absurd (numberFrom_inj (by omega) (by omega) same).symm here

end Destroying

/-- A release of a live node tries slides of it that begin between its time and the end of its
envelope, and then a message that frees it at this end. -/
theorem release_deliveries {α : Type} [ExactScalar α] {synth : Synth α} {voice : Nat}
    {node : Node α} (found : synth.nodes[voice]? = some node) (live : node.freed = false) (time : α)
    {envelope : Envelope α} (made : envelope.Made) :
    ∃ slides last,
      (synth.answer (.tell voice (.release time envelope))).deliveries =
        synth.deliveries ++ slides ++ [last] ∧
      (∀ slide ∈ slides, slide.command.SlidesWithin node.id time (time + envelope.maxX)) ∧
      last.command = .free node.id (some (time + envelope.maxX)) := by
  obtain ⟨messages, released, within⟩ := Node.release_within live time made
  obtain ⟨more, same, obeyed⟩ := obey_some found (.release time envelope)
  -- The messages that are tried are those of the release, its slides before the one that frees.
  rw [Node.obey, released] at same
  obtain ⟨slides, rest, rfl, begun, ended⟩ := List.map_eq_append_iff.mp same
  obtain ⟨last, rfl, frees⟩ := List.map_eq_singleton_iff.mp ended
  refine ⟨slides, last, ?_, fun slide member => ?_, frees⟩
  · rw [answer, obeyed, ← List.append_assoc]
  · refine within _ ?_
    rw [← begun]
    exact List.mem_map_of_mem member

/-- Over every sequence of calls and every pattern of messages that do not reach the server, the
nodes are numbered one after the other in the order of their creation, a creation that fails taking
up no number; every other message is about a node that was created before; none is about a node
that has been destroyed, and none frees a node at once again; a release of a live node consists of
slides within its envelope and of a message that frees the node at its end; and each packet is about
one node only. -/
theorem answerAll_lifeCycle {α β : Type} [Analytic α] [ExactScalar β] (first : Int32)
    (delivers : Nat → Bool) (calls : List (Call α))
    (room : first.toInt + ((starting first delivers).answerAll calls).nodes.length < 2 ^ 31) :
    let synth := (starting first delivers).answerAll calls
    synth.deliveries.filterMap Delivery.created? = synth.nodes.map Node.id ∧
    synth.nodes.map (·.id.toInt) =
      (List.range synth.nodes.length).map (fun place : Nat => first.toInt + place) ∧
    (∀ before delivery, before ++ [delivery] <+: synth.deliveries →
      (∀ node, delivery.command.created? = some node →
        node.toInt = first.toInt + (before.filterMap Delivery.created?).length) ∧
      (delivery.command.created? = none →
        delivery.command.node ∈ before.filterMap Delivery.created?)) ∧
    (∀ before voice after node, calls = before ++ .tell voice .destroy :: after →
      ((starting first delivers).answerAll before).nodes[voice]? = some node →
      ∃ later, synth.deliveries = ((starting first delivers).answerAll
          (before ++ [.tell voice .destroy])).deliveries ++ later ∧
        ∀ delivery ∈ later, delivery.command.node ≠ node.id) ∧
    (synth.deliveries.filterMap Delivery.freed?).Nodup ∧
    (∀ (played : Synth β) voice node time envelope, played.nodes[voice]? = some node →
      node.freed = false → envelope.Made →
      ∃ slides last,
        (played.answer (.tell voice (.release time envelope))).deliveries =
          played.deliveries ++ slides ++ [last] ∧
        (∀ slide ∈ slides, slide.command.SlidesWithin node.id time (time + envelope.maxX)) ∧
        last.command = .free node.id (some (time + envelope.maxX))) ∧
    ∀ patch command packet, NodeCommand.packet? patch command = some packet →
      packet.nodes = [command.node] := by
  intro synth
  replace room : first.toInt + synth.nodes.length < 2 ^ 31 := room
  have numbered : Numbered first synth := (Numbered.starting first delivers).answerAll calls
  have fresh : Spent (starting first delivers : Synth α) := ⟨List.nodup_nil, List.forall_mem_nil _⟩
  -- All parts about the run follow from the numbering and from what has been freed.
  refine ⟨numbered.created, ?_,
    fun before delivery starts => ⟨fun node creates => ?_, fun other => ?_⟩, ?_,
    (fresh.answerAll (Numbered.starting first delivers) room).once, ?_, ?_⟩
  · have listed := congrArg (List.map Int32.toInt) numbered.ids
    rw [List.map_map, List.map_map] at listed
    refine listed.trans (List.map_congr_left fun place member => ?_)
    have bound := List.mem_range.mp member
    exact toInt_numberFrom (by omega)
  · -- No more nodes have been created before than there are in the end.
    have announced := numbered.announced before delivery starts
    rw [Announced, creates] at announced
    have fewer := ((List.prefix_append before [delivery]).trans starts).filterMap Delivery.created?
    have count := fewer.length_le
    rw [numbered.created, List.length_map] at count
    rw [show node = _ from announced]
    exact toInt_numberFrom (by omega)
  · have announced := numbered.announced before delivery starts
    rw [Announced, other] at announced
    exact announced
  · rintro before voice after node rfl found
    have earlier := (Numbered.starting first delivers).answerAll before
    obtain ⟨created, number⟩ := earlier.id_eq found
    have split : synth = (((starting first delivers).answerAll before).answer
        (.tell voice .destroy)).answerAll after := answerAll_append ..
    have step := ((starting first delivers).answerAll before).length_answer (.tell voice .destroy)
    have grows := (((starting first delivers).answerAll before).answer
      (.tell voice .destroy)).length_answerAll after
    rw [split] at room ⊢
    -- The node is destroyed by its call, and what comes behind says nothing about its number.
    have gone := gone_of_destroy earlier (by omega) found
    rw [number] at gone ⊢
    rw [answerAll_append]
    exact quiet_answerAll (earlier.answer _) (by omega) gone room
  · intro played voice node time envelope found live made
    exact release_deliveries found live time made
  · intro patch command packet encoded
    exact NodeCommand.nodes_of_packet? encoded

/-- A second creation that does not reach the server leaves its number to the third, and a node that
is destroyed twice is freed once. -/
theorem answerAll_lifeCycle_sample :
    let tone : Tone ℝ := ⟨440, 0, .never, 1, 0⟩
    let calls : List (Call ℝ) := [.create tone, .create tone, .create tone, .tell 0 .destroy,
      .tell 1 (.gain (.ramp 1 2)), .tell 0 .destroy]
    let synth := (starting 1000 fun attempt => attempt != 1).answerAll calls
    synth.deliveries.length = 5 ∧ synth.nodes.map (·.id.toInt) = [1000, 1001] ∧
      (synth.deliveries.filterMap Delivery.freed?).Nodup := by
  intro tone calls synth
  have count : synth.nodes.length = 2 := rfl
  -- Two nodes were created, far from the end of the numbers.
  have room : (1000 : Int32).toInt + synth.nodes.length < 2 ^ 31 := by
    rw [count]
    decide
  obtain ⟨_, numbers, _, _, once, _⟩ :=
    answerAll_lifeCycle (β := ℝ) 1000 (fun attempt => attempt != 1) calls room
  refine ⟨rfl, ?_, once⟩
  exact numbers.trans (by rw [count]; rfl)

end Synth

end Melody
