import Melody.Proofs.Synth.Calls

/-! What a server makes of the slides it is sent is what the changes of loudness mean. -/

namespace Melody

/-- A slide of the amplitude to a value, from a time on and over a lag. -/
structure Slide (α : Type) where
  value : α
  lag : α
  time : α

namespace Slide

section Definitions

variable {α : Type}

/-- The message that sends a slide to a node. -/
def command (id : Int32) (slide : Slide α) : NodeCommand α :=
  .slide id slide.value slide.lag slide.time

variable [Scalar α]

/-- The amplitude over time that a slide makes of the one before it: from the time of the slide on
it leads straight from what it has there to the new value, at once if there is no lag. -/
def bend (slide : Slide α) (before : α → α) (t : α) : α :=
  if t < slide.time then before t
  else if slide.time + slide.lag ≤ t then slide.value
  else before slide.time + (slide.value - before slide.time) * ((t - slide.time) / slide.lag)

/-- The amplitude over time under slides that take effect one after the other. -/
def bendAll (before : α → α) (slides : List (Slide α)) : α → α :=
  slides.foldl (fun before slide => slide.bend before) before

/-- The amplitude over time of a node that starts with one value and is sent slides, which take
effect in the order of their times, and those of one time in the order in which they are sent. -/
def heard (amp : α) (slides : List (Slide α)) : α → α :=
  bendAll (fun _ => amp) (slides.mergeSort fun first second => decide (first.time ≤ second.time))

end Definitions

variable {α : Type} [ExactScalar α] {slide : Slide α} {slides : List (Slide α)}

/-- Before its time a slide changes nothing. -/
theorem bend_early {before : α → α} {t : α} (early : t < slide.time) :
    slide.bend before t = before t :=
  if_pos early

/-- After its lag a slide has reached its value. -/
theorem bend_late {before : α → α} {t : α} (begun : slide.time ≤ t)
    (late : slide.time + slide.lag ≤ t) : slide.bend before t = slide.value := by
  rw [bend, if_neg (not_lt.mpr begun), if_pos late]

/-- Slides that are sent in the order of their times take effect as they are sent. -/
theorem heard_of_ordered (ordered : (slides.map time).Pairwise (· ≤ ·)) (amp : α) :
    heard amp slides = bendAll (fun _ => amp) slides := by
  rw [List.pairwise_map] at ordered
  rw [heard, List.mergeSort_of_pairwise (ordered.imp fun before => decide_eq_true before)]

end Slide

namespace ControlEvent

section Definitions

variable {α : Type} [Scalar α]

/-- The slide that is sent for an event behind another one at a given time: a jump takes effect at
its time, and a ramp begins where the event before has left off. -/
def slide (since : α) : ControlEvent α → Slide α
  | jump value time => ⟨value, 0.0, time⟩
  | ramp value time =>
    let start := Scalar.smaller since time
    ⟨value, time - start, start⟩

/-- The slides that are sent for events one after the other. -/
def slides (since : α) : List (ControlEvent α) → List (Slide α)
  | [] => []
  | event :: later => event.slide since :: slides event.time later

end Definitions

variable {α : Type} [ExactScalar α] {since : α} {event : ControlEvent α}
  {events : List (ControlEvent α)}

/-- A slide for an event begins between the event before and its own, and lasts until that. -/
theorem slide_spec (before : since ≤ event.time) :
    0 ≤ (event.slide since).lag ∧ since ≤ (event.slide since).time ∧
      (event.slide since).time + (event.slide since).lag = event.time := by
  -- A jump takes no time, and a ramp takes the time since the last event.
  cases event with
  | jump value time =>
    simp only [slide, Scalar.zero_eq, add_zero]
    exact ⟨le_rfl, before, rfl⟩
  | ramp value time =>
    have begins : Scalar.smaller since time = since := by
      rw [Scalar.smaller_eq_min]
      exact min_eq_left before
    simp only [slide, begins, add_sub_cancel]
    exact ⟨sub_nonneg.mpr before, le_rfl, rfl⟩

/-- The slides for events in the order of time are in the order of time and have no negative lag. -/
theorem slides_ordered (ordered : (events.map time).Pairwise (· ≤ ·))
    (behind : ∀ event ∈ events, since ≤ event.time) :
    (∀ slide ∈ slides since events, 0 ≤ slide.lag ∧ since ≤ slide.time) ∧
      ((slides since events).map Slide.time).Pairwise (· ≤ ·) := by
  induction events generalizing since with
  | nil => exact ⟨List.forall_mem_nil _, .nil⟩
  | cons event later ih =>
    obtain ⟨first, _⟩ := List.forall_mem_cons.mp behind
    obtain ⟨before, rest⟩ := List.pairwise_cons.mp ordered
    obtain ⟨lag, begins, ends⟩ := slide_spec first
    obtain ⟨fine, row⟩ := ih rest (List.forall_mem_map.mp before)
    -- A slide begins no later than its event, at which those behind begin at the earliest.
    have until_event : (event.slide since).time ≤ event.time := by
      rw [← ends]
      exact le_add_of_nonneg_right lag
    constructor
    · refine List.forall_mem_cons.mpr ⟨⟨lag, begins⟩, fun slide member => ?_⟩
      obtain ⟨still, after⟩ := fine slide member
      exact ⟨still, first.trans after⟩
    · refine List.pairwise_cons.mpr ⟨List.forall_mem_map.mpr fun slide member => ?_, row⟩
      exact until_event.trans (fine slide member).2

/-- Slides for events lead to the values that the events mean, from one that has been reached. -/
theorem bendAll_slides (ordered : (events.map time).Pairwise (· ≤ ·))
    (behind : ∀ event ∈ events, since ≤ event.time) {before : α → α} {value : α}
    (reached : ∀ t, since ≤ t → before t = value) (t : α) :
    Slide.bendAll before (slides since events) t =
      if t < since then before t else read value since events t := by
  -- The induction is on the events, the first of which makes another value of the one before.
  induction events generalizing since before value with
  | nil =>
    by_cases early : t < since
    · rw [if_pos early]
      rfl
    · rw [if_neg early]
      exact reached t (not_lt.mp early)
  | cons event later ih =>
    obtain ⟨first, _⟩ := List.forall_mem_cons.mp behind
    obtain ⟨next, rest⟩ := List.pairwise_cons.mp ordered
    obtain ⟨lag, begins, ends⟩ := slide_spec first
    have onward : ∀ t, event.time ≤ t → (event.slide since).bend before t = event.value := by
      intro t past
      have late : (event.slide since).time + (event.slide since).lag ≤ t := ends.trans_le past
      refine (Slide.bend_late ((le_add_of_nonneg_right lag).trans late) late).trans ?_
      cases event <;> rfl
    show Slide.bendAll ((event.slide since).bend before) (slides event.time later) t = _
    rw [ih rest (List.forall_mem_map.mp next) onward]
    by_cases past : event.time ≤ t
    · rw [if_neg (not_lt.mpr past), if_neg (not_lt.mpr (first.trans past)), read_cons_of_le past]
    · rw [if_pos (not_le.mp past)]
      by_cases early : t < since
      · rw [if_pos early, Slide.bend_early (early.trans_le begins)]
      · -- The event is on its way, a jump from the value before and a ramp along a straight line.
        have now := not_lt.mp early
        rw [if_neg early]
        cases event with
        | jump target time =>
          have still : ¬ time ≤ t := past
          rw [read, if_neg still, ← reached t now]
          exact Slide.bend_early (not_le.mp still)
        | ramp target time =>
          have still : ¬ time ≤ t := past
          have start : Scalar.smaller since time = since := by
            rw [Scalar.smaller_eq_min]
            exact min_eq_left first
          rw [read, if_neg still, slide, Slide.bend]
          simp only [start, add_sub_cancel]
          rw [if_neg early, if_neg still, reached since le_rfl]

end ControlEvent

section Meaning

variable {α : Type}

/-- Slides without a negative lag, in the order of their times, that a server makes the same
amplitudes of as events mean from a time on, with any amplitude before. -/
structure Slide.Meant [ExactScalar α] (since : α) (events : List (ControlEvent α))
    (slides : List (Slide α)) : Prop where
  lags : ∀ slide ∈ slides, 0 ≤ slide.lag
  ordered : (slides.map time).Pairwise (· ≤ ·)
  heard : ∀ amp t, Slide.heard amp slides t =
    if t < since then amp else ControlEvent.read amp since events t

/-- The slides for events in the order of time have their meaning. -/
theorem ControlEvent.slides_meant [ExactScalar α] {since : α} {events : List (ControlEvent α)}
    (ordered : (events.map time).Pairwise (· ≤ ·)) (behind : ∀ event ∈ events, since ≤ event.time) :
    Slide.Meant since events (slides since events) := by
  obtain ⟨fine, row⟩ := slides_ordered ordered behind
  refine ⟨fun slide member => (fine slide member).1, row, fun amp t => ?_⟩
  rw [Slide.heard_of_ordered row]
  exact bendAll_slides ordered behind (fun _ _ => rfl) t

/-- The message for an event is its slide. -/
theorem Node.message_eq_slide [Scalar α] (node : Node α) (event : ControlEvent α) :
    node.message event = (event.slide node.lastTime).command node.id := by
  cases event <;> rfl

/-- A live node sends the slides for events. -/
theorem Node.automateAll_eq_slides [Scalar α] {node : Node α} (live : node.freed = false)
    (events : List (ControlEvent α)) : (node.automateAll events).2 =
      (ControlEvent.slides node.lastTime events).map (Slide.command node.id) := by
  -- A node that lives answers each event by one message and remembers its time.
  induction events generalizing node with
  | nil => rfl
  | cons event later ih =>
    rw [automateAll, automate_live live, message_eq_slide]
    have still : { node with lastTime := event.time }.freed = false := live
    exact congrArg (_ :: ·) (ih still)

end Meaning

namespace Synth

section Reliable

variable {α : Type} {synth : Synth α}

/-- Every message reaches the server. -/
def Reliable (synth : Synth α) : Prop :=
  ∀ attempt, synth.delivers attempt = true

/-- A message that has reached the server. -/
def arrived (command : NodeCommand α) : Delivery α :=
  ⟨command, true⟩

/-- Messages to a server that is always reached are sent. -/
theorem Reliable.sendAll_eq (reliable : synth.Reliable) (commands : List (NodeCommand α)) :
    (synth.sendAll commands).1 =
      { synth with deliveries := synth.deliveries ++ commands.map arrived } := by
  -- Each message arrives, and is recorded behind the others.
  induction commands generalizing synth with
  | nil => simp [sendAll]
  | cons command later ih =>
    have sent : (synth.send command).1 =
        { synth with deliveries := synth.deliveries ++ [arrived command] } := by
      rw [send, reliable]
      rfl
    have onward : (synth.send command).1.Reliable := reliable
    show ((synth.send command).1.sendAll later).1 = _
    rw [ih onward, sent]
    simp

/-- What is sent with a result is added to what has been sent before. -/
theorem sent_append (synth : Synth α) (commands : List (NodeCommand α)) :
    { synth with deliveries := synth.deliveries ++ commands.map arrived }.sent =
      synth.sent ++ commands := by
  -- All of the new messages have been delivered.
  have all : (commands.map arrived).filter Delivery.delivered = commands.map arrived :=
    List.filter_eq_self.mpr (List.forall_mem_map.mpr fun _ _ => rfl)
  have back : (commands.map arrived).map Delivery.command = commands := by
    rw [List.map_map]
    exact List.map_id commands
  show ((synth.deliveries ++ commands.map arrived).filter _).map _ = _
  rw [List.filter_append, List.map_append, all, back]
  rfl

/-- A creation on a server that is always reached sends its message and gives a node. -/
theorem Reliable.create_eq (reliable : synth.Reliable) (tone : Tone α) :
    (synth.create tone).1 =
      { synth with
        nextId := synth.nextId + 1
        nodes := synth.nodes ++ [⟨synth.nextId, tone.start, false⟩]
        deliveries := synth.deliveries ++
          [NodeCommand.new synth.nextId tone.frequency tone.pan].map arrived } := by
  simp [create, send, reliable _, arrived]

/-- The node of a voice follows a command, and all of its messages are sent. -/
theorem Reliable.obey_eq [Analytic α] (reliable : synth.Reliable) {voice : Nat} {node : Node α}
    (found : synth.nodes[voice]? = some node) (command : Command α) :
    (synth.obey voice command).1 =
      { synth with
        nodes := synth.nodes.set voice (node.obey command).1
        deliveries := synth.deliveries ++ (node.obey command).2.map arrived } := by
  have onward : { synth with nodes := synth.nodes.set voice (node.obey command).1 }.Reliable :=
    reliable
  rw [obey, found]
  exact onward.sendAll_eq _

/-- Changes of the loudness of a voice send the slides of its node. -/
theorem Reliable.sent_gains [Analytic α] (reliable : synth.Reliable) {voice : Nat} {node : Node α}
    (found : synth.nodes[voice]? = some node) (live : node.freed = false)
    (events : List (ControlEvent α)) :
    (synth.answerAll (events.map fun event => .tell voice (.gain event))).sent =
      synth.sent ++ (ControlEvent.slides node.lastTime events).map (Slide.command node.id) := by
  induction events generalizing synth node with
  | nil => exact (List.append_nil _).symm
  | cons event later ih =>
    have answered := reliable.obey_eq found (.gain event)
    rw [Node.obey, Node.automate_live live, Node.message_eq_slide] at answered
    obtain ⟨inside, _⟩ := List.getElem?_eq_some_iff.mp found
    have onward : (synth.answer (.tell voice (.gain event))).Reliable := by
      rw [answer, answered]
      exact reliable
    -- The node is where it was, with its last time moved on.
    have next : (synth.answer (.tell voice (.gain event))).nodes[voice]? =
        some { node with lastTime := event.time } := by
      rw [answer, answered]
      exact List.getElem?_set_self inside
    have sent : (synth.answer (.tell voice (.gain event))).sent =
        synth.sent ++ [(event.slide node.lastTime).command node.id] := by
      rw [answer, answered]
      exact sent_append synth _
    show ((synth.answer (.tell voice (.gain event))).answerAll _).sent = _
    rw [ih onward next live, sent, List.append_assoc]
    rfl

end Reliable

variable {α : Type} [ExactScalar α]

/-- On a server that is always reached, changes of the loudness of a live node, in the order of time
and none before the last one, are sent as slides that mean the same: they have no negative lags,
their times never decrease, and the server makes the same amplitude of them at every time. From the
creation of a node on this is its whole amplitude, which starts with zero where its tone starts. -/
theorem heard_gains {synth : Synth α} (reliable : synth.Reliable) (voice : Nat)
    {events : List (ControlEvent α)}
    (ordered : (events.map ControlEvent.time).Pairwise (· ≤ ·)) :
    (∀ node, synth.nodes[voice]? = some node → node.freed = false →
      (∀ event ∈ events, node.lastTime ≤ event.time) →
      ∃ slides, Slide.Meant node.lastTime events slides ∧
        (synth.answerAll (events.map fun event => .tell voice (.gain event))).sent =
          synth.sent ++ slides.map (Slide.command node.id)) ∧
    ∀ tone, synth.nodes.length = voice → (∀ event ∈ events, tone.start ≤ event.time) →
      ∃ slides, Slide.Meant tone.start events slides ∧
        (synth.answerAll
            (.create tone :: events.map fun event => .tell voice (.gain event))).sent =
          synth.sent ++
            (.new synth.nextId tone.frequency tone.pan :: slides.map (Slide.command synth.nextId)) ∧
        ∀ t, Slide.heard 0 slides t =
          if t < tone.start then 0 else ControlEvent.read 0 tone.start events t := by
  -- A node that exists goes on from its last time, and a new one from its start.
  constructor
  · intro node found live behind
    exact ⟨_, ControlEvent.slides_meant ordered behind, reliable.sent_gains found live events⟩
  · rintro tone rfl behind
    have created := reliable.create_eq tone
    have onward : (synth.answer (.create tone)).Reliable := by
      rw [answer, created]
      exact reliable
    have found : (synth.answer (.create tone)).nodes[synth.nodes.length]? =
        some ⟨synth.nextId, tone.start, false⟩ := by
      rw [answer, created]
      exact List.getElem?_concat_length
    have sent : (synth.answer (.create tone)).sent =
        synth.sent ++ [.new synth.nextId tone.frequency tone.pan] := by
      rw [answer, created]
      exact sent_append synth _
    have meant := ControlEvent.slides_meant ordered behind
    refine ⟨_, meant, ?_, meant.heard 0⟩
    show ((synth.answer (.create tone)).answerAll _).sent = _
    rw [onward.sent_gains found rfl, sent, List.append_assoc]
    rfl

/-- A node that jumps to full scale and fades behind that is heard at half scale halfway. -/
theorem heard_gains_fading :
    let tone : Tone ℝ := ⟨440, 1, .never, 1, 0⟩
    let events : List (ControlEvent ℝ) := [.jump 1 2, .ramp 0 4]
    ∃ slides, (({} : Synth ℝ).answerAll
        (.create tone :: events.map fun event => .tell 0 (.gain event))).sent =
          .new 1000 440 0 :: slides.map (Slide.command 1000) ∧
      Slide.heard 0 slides 3 = 1 / 2 := by
  intro tone events
  have ordered : (events.map ControlEvent.time).Pairwise (· ≤ ·) := by
    norm_num [events, ControlEvent.time]
  have behind : ∀ event ∈ events, tone.start ≤ event.time := by
    norm_num [events, tone, ControlEvent.time]
  have reliable : ({} : Synth ℝ).Reliable := fun _ => rfl
  -- The slides are heard as the events are read, half way down the ramp.
  obtain ⟨slides, _, sent, heard⟩ := (heard_gains reliable 0 ordered).2 tone rfl behind
  refine ⟨slides, sent, ?_⟩
  rw [heard]
  norm_num [tone, events, ControlEvent.read]

end Synth

end Melody
