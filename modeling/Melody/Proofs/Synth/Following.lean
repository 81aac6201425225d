import Melody.Proofs.Scheduler.Conducting
import Melody.Proofs.Synth.Hearing

/-! The messages about each node are what it makes of the commands that its voice has been told. -/

namespace Melody

/-- The slides that play an envelope from a time on. -/
def Envelope.slides {α : Type} [Analytic α] (envelope : Envelope α) (time fidelity : α) :
    List (Slide α) :=
  ControlEvent.slides time (envelope.events (.startingAt time) fidelity)

namespace NodeCommand

variable {α : Type}

/-- The slide that a message sends. -/
def slide? : NodeCommand α → Option (Slide α)
  | slide _ value lag time => some ⟨value, lag, time⟩
  | _ => none

/-- The time for which a message has a node freed, or none if it does so at once. -/
def frees? : NodeCommand α → Option (Option α)
  | free _ time? => some time?
  | _ => none

end NodeCommand

namespace Slide

variable {α : Type} (id : Int32) (slides : List (Slide α))

/-- The messages that send slides send these slides. -/
theorem filterMap_slide? : (slides.map (command id)).filterMap NodeCommand.slide? = slides := by
  rw [List.filterMap_map]
  exact List.filterMap_some

/-- The messages that send slides free no node. -/
theorem filterMap_frees? : (slides.map (command id)).filterMap NodeCommand.frees? = [] := by
  rw [List.filterMap_map]
  exact List.filterMap_eq_nil_iff.mpr fun _ _ => rfl

end Slide

namespace Node

variable {α : Type} [Analytic α]

/-- What a node is sent that is released at a time. -/
def fadeOut (id : Int32) (envelope : Envelope α) (time : α) : List (NodeCommand α) :=
  (envelope.slides time fidelity).map (Slide.command id) ++
    [.free id (some (time + envelope.maxX))]

/-- A release sends the slides of its envelope. -/
theorem filterMap_slide?_fadeOut (id : Int32) (envelope : Envelope α) (time : α) :
    (fadeOut id envelope time).filterMap NodeCommand.slide? = envelope.slides time fidelity := by
  rw [fadeOut, List.filterMap_append, Slide.filterMap_slide?]
  exact List.append_nil _

/-- A release has the node freed where its envelope ends. -/
theorem filterMap_frees?_fadeOut (id : Int32) (envelope : Envelope α) (time : α) :
    (fadeOut id envelope time).filterMap NodeCommand.frees? = [some (time + envelope.maxX)] := by
  rw [fadeOut, List.filterMap_append, Slide.filterMap_frees?]
  rfl

end Node

namespace Tone

variable {α : Type} [Analytic α]

/-- The envelope that the voice of a tone follows from its start on. -/
def attack (tone : Tone α) (settings : Settings α) : Envelope α :=
  settings.attack.scaleY tone.velocity

/-- The envelope that the voice of a tone follows from a release on. -/
def release (tone : Tone α) (settings : Settings α) : Envelope α :=
  settings.release.scaleY (tone.velocity * settings.attack.lastValue)

/-- A tone is played by its attack and released at its end and at further times. -/
theorem score_eq (settings : Settings α) (tone : Tone α) (times : List α) :
    Scheduler.score settings tone times =
      ((tone.attack settings).events (.startingAt tone.start) settings.resolution).map .gain ++
        (tone.finish.finite?.toList ++ times).map (.release · (tone.release settings)) :=
  rfl

end Tone

namespace Node

variable {α : Type} [Analytic α]

/-- Follows commands one after the other, with all that is sent for them. -/
def obeyAll (node : Node α) : List (Command α) → Node α × List (NodeCommand α)
  | [] => (node, [])
  | command :: later =>
    let (node, first) := node.obey command
    let (node, rest) := node.obeyAll later
    (node, first ++ rest)

/-- Commands are followed behind others. -/
theorem obeyAll_append (node : Node α) (commands later : List (Command α)) :
    node.obeyAll (commands ++ later) =
      (((node.obeyAll commands).1.obeyAll later).1,
        (node.obeyAll commands).2 ++ ((node.obeyAll commands).1.obeyAll later).2) := by
  induction commands generalizing node with
  | nil => rfl
  | cons command rest ih =>
    simp only [List.cons_append, obeyAll, ih, List.append_assoc]

variable {node : Node α}

/-- A live node sends the slides for changes of its loudness, and lives on. -/
theorem obeyAll_gains (live : node.freed = false) (events : List (ControlEvent α)) :
    ∃ next, next.id = node.id ∧ next.freed = false ∧ node.obeyAll (events.map .gain) =
      (next, (ControlEvent.slides node.lastTime events).map (Slide.command node.id)) := by
  -- Each event moves the last time of the node on, from where the next one slides.
  induction events generalizing node with
  | nil => exact ⟨node, rfl, live, rfl⟩
  | cons event later ih =>
    obtain ⟨next, same, alive, followed⟩ := @ih { node with lastTime := event.time } live
    refine ⟨next, same, alive, ?_⟩
    rw [List.map_cons, obeyAll, obey, automate_live live, message_eq_slide]
    simp only [followed]
    rfl

/-- A live node that is released sends the slides of its envelope, and lives on until a message
frees it. -/
theorem obey_release (live : node.freed = false) (time : α) (envelope : Envelope α) :
    ∃ next, next.id = node.id ∧ next.freed = false ∧ node.obey (.release time envelope) =
      (next, fadeOut node.id envelope time) := by
  have still : { node with lastTime := time }.freed = false := live
  -- A release slides the node without freeing it at once.
  have kept := { node with lastTime := time }.automateAll_keeps
    (envelope.events (.startingAt time) fidelity)
  refine ⟨(node.release time envelope).1, node.obey_id (.release time envelope), ?_, ?_⟩
  · rw [release, if_neg (by simp [live])]
    exact kept.2.trans live
  · refine Prod.ext rfl ?_
    rw [obey, release_live live, automateAll_eq_slides still]
    rfl

/-- A live node fades out as often as it is released, and lives on. -/
theorem obeyAll_releases (live : node.freed = false) (times : List α) (envelope : Envelope α) :
    ∃ next, next.id = node.id ∧ next.freed = false ∧
      node.obeyAll (times.map (.release · envelope)) =
        (next, times.flatMap (fadeOut node.id envelope)) := by
  -- The induction is on the releases, each of which leaves the node alive.
  induction times generalizing node with
  | nil => exact ⟨node, rfl, live, rfl⟩
  | cons time later ih =>
    obtain ⟨middle, same, alive, first⟩ := obey_release live time envelope
    obtain ⟨next, still, onward, rest⟩ := ih alive
    refine ⟨next, still.trans same, onward, ?_⟩
    rw [List.map_cons, obeyAll, first]
    simp only [rest, same]
    rfl

/-- A node is sent the attack of a tone and the releases behind it. -/
theorem obeyAll_score (id : Int32) (settings : Settings α) (tone : Tone α) (times : List α) :
    ∃ next, next.id = id ∧ next.freed = false ∧
      Node.obeyAll ⟨id, tone.start, false⟩ (Scheduler.score settings tone times) =
        (next, ((tone.attack settings).slides tone.start settings.resolution).map
            (Slide.command id) ++
          (tone.finish.finite?.toList ++ times).flatMap (fadeOut id (tone.release settings))) := by
  have live : (⟨id, tone.start, false⟩ : Node α).freed = false := rfl
  -- The attack comes first, then the releases in their order.
  obtain ⟨middle, same, alive, attack⟩ := obeyAll_gains live
    ((tone.attack settings).events (.startingAt tone.start) settings.resolution)
  obtain ⟨next, still, onward, releases⟩ := obeyAll_releases alive
    (tone.finish.finite?.toList ++ times) (tone.release settings)
  refine ⟨next, still.trans same, onward, ?_⟩
  rw [Tone.score_eq, obeyAll_append, attack]
  simp only [releases, same]
  rfl

end Node

namespace Record

variable {α : Type} [Analytic α]

/-- The node of a voice and the messages about it, behind one more line of a record about that: a
creation gives a silent node, and a command is followed by the node that there is. -/
def follow (id : Int32) :
    Option (Node α) × List (NodeCommand α) → Record α → Option (Node α) × List (NodeCommand α)
  | (_, sent), .created _ tone =>
    (some ⟨id, tone.start, false⟩, sent ++ [.new id tone.frequency tone.pan])
  | (some node, sent), .commanded _ command =>
    (some (node.obey command).1, sent ++ (node.obey command).2)
  | (none, sent), .commanded _ _ => (none, sent)

/-- The node of a voice and the messages about it, by the lines of a record about that voice. -/
def followAll (id : Int32) (lines : List (Record α)) : Option (Node α) × List (NodeCommand α) :=
  lines.foldl (follow id) (none, [])

/-- One more line is followed behind the others. -/
theorem followAll_concat (id : Int32) (lines : List (Record α)) (line : Record α) :
    followAll id (lines ++ [line]) = follow id (followAll id lines) line :=
  List.foldl_concat ..

/-- A voice that has been created and told commands has a node that has followed them. -/
theorem followAll_created (id : Int32) (voice : Nat) (tone : Tone α)
    (commands : List (Command α)) :
    followAll id (.created voice tone :: commands.map (.commanded voice)) =
      let followed := Node.obeyAll ⟨id, tone.start, false⟩ commands
      (some followed.1, .new id tone.frequency tone.pan :: followed.2) := by
  -- The induction is on the commands, the last of which is followed behind all the others.
  induction commands using List.reverseRecOn with
  | nil => rfl
  | append_singleton commands last ih =>
    rw [List.map_append, ← List.cons_append, List.map_singleton, followAll_concat, ih]
    simp [follow, Node.obeyAll_append, Node.obeyAll]

end Record

namespace Synth

section About

variable {α : Type}

/-- The messages about a node that have reached the server, in order. -/
def about (synth : Synth α) (id : Int32) : List (NodeCommand α) :=
  synth.sent.filter (·.node == id)

/-- The slides that a node has been sent, in order. -/
def slidesOf (synth : Synth α) (id : Int32) : List (Slide α) :=
  (synth.about id).filterMap NodeCommand.slide?

/-- The times for which a node has been sent to be freed, in order. -/
def freesOf (synth : Synth α) (id : Int32) : List (Option α) :=
  (synth.about id).filterMap NodeCommand.frees?

/-- Messages that are sent are added to those about their nodes. -/
theorem about_of_arrived {synth next : Synth α} {commands : List (NodeCommand α)}
    (grown : next.deliveries = synth.deliveries ++ commands.map arrived) (id : Int32) :
    next.about id = synth.about id ++ commands.filter (·.node == id) := by
  have sent : next.sent = synth.sent ++ commands := by
    rw [← sent_append, sent, grown]
    rfl
  rw [about, sent, List.filter_append]
  rfl

end About

end Synth

/-- The command that an effect gives to a voice. -/
def Effect.toldTo? {α : Type} (voice : Nat) : Effect α → Option (Command α)
  | .commanded _ _ other command => if other = voice then some command else none
  | _ => none

/-- The command that a line of a record is about. -/
def Record.command? {α : Type} : Record α → Option (Command α)
  | .commanded _ command => some command
  | .created _ _ => none

/-- What a voice is told by effects is what is written down of it. -/
theorem filterMap_toldTo? {α : Type} (voice : Nat) (effects : List (Effect α)) :
    effects.filterMap (Effect.toldTo? voice) =
      ((effects.filterMap Effect.record?).filter (·.voice == voice)).filterMap
        Record.command? := by
  rw [List.filterMap_filter, List.filterMap_filterMap]
  refine congrArg (effects.filterMap ·) (funext fun effect => ?_)
  cases effect with
  | fired timer => rfl
  | created id tone voice? =>
    -- A creation is written down if there is a voice, and is no command.
    cases voice? with
    | none => rfl
    | some other => simp [Effect.toldTo?, Effect.record?, Record.command?]
  | commanded cause owner other command =>
    simp [Effect.toldTo?, Effect.record?, Record.command?, Record.voice]

/-- A creation that is written down has taken place. -/
theorem Effect.eq_created {α : Type} {effect : Effect α} {voice : Nat} {tone : Tone α}
    (written : effect.record? = some (.created voice tone)) :
    ∃ owner, effect = .created owner tone (some voice) := by
  -- Timers and commands are recorded otherwise, or not at all.
  cases effect with
  | fired timer => simp [Effect.record?] at written
  | commanded cause owner other command => simp [Effect.record?] at written
  | created owner other voice? =>
    obtain ⟨number, rfl, same⟩ := Option.map_eq_some_iff.mp written
    cases same
    exact ⟨owner, rfl⟩

/-- What a synth is asked for by an effect. -/
def Effect.call? {α : Type} : Effect α → Option (Call α)
  | .fired _ => none
  | .created _ tone _ => some (.create tone)
  | .commanded _ _ voice command => some (.tell voice command)

namespace Synth

variable {α : Type} [Analytic α]

/-- A synth hears of effects by what it is asked for. -/
theorem hear_eq_answerAll (synth : Synth α) (effects : List (Effect α)) :
    hear synth effects = synth.answerAll (effects.filterMap Effect.call?) := by
  -- An effect that asks for nothing is not heard.
  induction effects generalizing synth with
  | nil => rfl
  | cons effect later ih =>
    show hear (effect.heardBy synth) later = _
    rw [ih]
    cases effect <;> rfl

/-- On a server that is always reached a voice that is asked for gets a node. -/
theorem Reliable.heardBy {synth : Synth α} (reliable : synth.Reliable) (effect : Effect α) :
    (effect.heardBy synth).Reliable ∧ (effect.heardBy synth).nodes.length =
      synth.nodes.length + if effect.asks = true then 1 else 0 := by
  -- Only a creation adds a node, and commands leave their number.
  cases effect with
  | fired timer => exact ⟨reliable, rfl⟩
  | created id tone voice? =>
    show (synth.create tone).1.Reliable ∧ (synth.create tone).1.nodes.length = _
    rw [reliable.create_eq tone, List.length_append]
    exact ⟨reliable, rfl⟩
  | commanded cause owner voice command =>
    show (synth.obey voice command).1.Reliable ∧ (synth.obey voice command).1.nodes.length = _
    cases found : synth.nodes[voice]? with
    | none =>
      rw [obey_none found]
      exact ⟨reliable, rfl⟩
    | some node =>
      rw [reliable.obey_eq found command, List.length_set]
      exact ⟨reliable, rfl⟩

/-- On a server that is always reached every voice that is asked for gets a node. -/
theorem Reliable.length_hear {synth : Synth α} (reliable : synth.Reliable)
    (effects : List (Effect α)) :
    (Melody.hear synth effects).nodes.length = synth.nodes.length + effects.countP Effect.asks := by
  -- Each effect that asks for a node gives one, and no other does.
  induction effects generalizing synth with
  | nil => rfl
  | cons effect later ih =>
    obtain ⟨onward, grown⟩ := reliable.heardBy effect
    show (Melody.hear (effect.heardBy synth) later).nodes.length = _
    rw [ih onward, grown, List.countP_cons]
    omega

/-- A synth and a recorder have been told the same, the synth on a server that is always reached:
to each voice of the recorder belongs a node, about which what that voice has been told was sent. -/
structure Follows (first : Int32) (synth : Synth α) (recorder : Recorder α) : Prop where
  reliable : synth.Reliable
  generous : ∀ attempt, recorder.admits attempt = true
  numbered : Numbered first synth
  count : synth.nodes.length = recorder.created
  voiced : ∀ voice : Nat, first.toInt + voice < 2 ^ 31 →
    Record.followAll (numberFrom first voice) (recorder.lines voice) =
      (synth.nodes[voice]?, synth.about (numberFrom first voice))

namespace Follows

variable {first : Int32} {synth : Synth α} {recorder : Recorder α}

/-- Nothing has been told to a synth and a recorder that have not been asked for anything. -/
theorem starting (first : Int32) :
    Follows first (.starting first fun _ => true) ({} : Recorder α) where
  reliable _ := rfl
  generous _ := rfl
  numbered := .starting first _
  count := rfl
  voiced _ _ := rfl

/-- A voice that is asked for is created under the same number on both sides. -/
theorem create (follows : Follows first synth recorder) (tone : Tone α) :
    (synth.create tone).2 = .ok recorder.created ∧
      recorder.create tone =
        ({ recorder.add [.created recorder.created tone] with
          attempts := recorder.attempts + 1, created := recorder.created + 1 },
          .ok recorder.created) := by
  constructor
  · simp [Synth.create, send, follows.reliable _, follows.count]
  · simp [Recorder.create, follows.generous _, Recorder.add]

/-- A voice that is created is followed from then on, as the others are. -/
theorem created (follows : Follows first synth recorder) (tone : Tone α)
    (room : first.toInt + (synth.create tone).1.nodes.length < 2 ^ 31) :
    Follows first (synth.create tone).1 (recorder.create tone).1 := by
  have made := follows.reliable.create_eq tone
  have numbered := follows.numbered.answer (.create tone)
  rw [answer, made] at numbered
  rw [made, (follows.create tone).2]
  rw [made] at room
  dsimp only at room
  rw [List.length_append, List.length_singleton] at room
  refine ⟨follows.reliable, follows.generous, numbered, ?_, fun voice inside => ?_⟩
  · rw [List.length_append, List.length_singleton, follows.count]
  · have before := follows.voiced voice inside
    rw [about_of_arrived rfl, follows.numbered.next]
    show Record.followAll _ ((recorder.add [.created recorder.created tone]).lines voice) = _
    by_cases own : voice = synth.nodes.length
    · -- There has been no node of the voice before.
      subst own
      have about : ∀ record ∈ [Record.created recorder.created tone],
          record.voice = synth.nodes.length := by simp [Record.voice, follows.count]
      rw [Recorder.lines_add about, Record.followAll_concat, before,
        List.getElem?_eq_none (Nat.le_refl _), List.getElem?_concat_length]
      simp [Record.follow, NodeCommand.node]
    · have others : ∀ record ∈ [Record.created recorder.created tone], record.voice ≠ voice := by
        simpa [Record.voice, ← follows.count] using Ne.symm own
      have apart : numberFrom first synth.nodes.length ≠ numberFrom first voice :=
        fun same => own (numberFrom_inj (by omega) inside same).symm
      have kept : (synth.nodes ++ [(⟨numberFrom first synth.nodes.length, tone.start, false⟩ :
          Node α)])[voice]? = synth.nodes[voice]? := by
        rcases Nat.lt_or_gt_of_ne own with below | above
        · exact List.getElem?_append_left below
        · rw [List.getElem?_eq_none (by simpa using above), List.getElem?_eq_none above.le]
      rw [Recorder.lines_add_other others, before, kept]
      simp [NodeCommand.node, apart]

/-- A voice that is told a command has its node follow it, and the others are left alone. -/
theorem commanded (follows : Follows first synth recorder) (voice : Nat) (command : Command α)
    (room : first.toInt + synth.nodes.length < 2 ^ 31) :
    Follows first (synth.obey voice command).1 (recorder.obey voice command).1 := by
  have numbered := follows.numbered.answer (.tell voice command)
  rw [answer] at numbered
  show Follows first _ (recorder.add [.commanded voice command])
  have others : ∀ other, voice ≠ other →
      ∀ record ∈ [Record.commanded voice command], record.voice ≠ other := by
    simp [Record.voice]
  have about : ∀ record ∈ [Record.commanded voice command], record.voice = voice := by
    simp [Record.voice]
  cases found : synth.nodes[voice]? with
  | none =>
    -- A voice without a node sends nothing and is told nothing that would be followed.
    rw [obey_none found]
    refine ⟨follows.reliable, follows.generous, follows.numbered, follows.count,
      fun other inside => ?_⟩
    have before := follows.voiced other inside
    by_cases own : voice = other
    · subst own
      rw [Recorder.lines_add about, Record.followAll_concat, before, found]
      rfl
    · rw [Recorder.lines_add_other (others other own), before]
  | some node =>
    have obeyed := follows.reliable.obey_eq found command
    rw [obeyed] at numbered ⊢
    obtain ⟨bound, number⟩ := follows.numbered.id_eq found
    refine ⟨follows.reliable, follows.generous, numbered, ?_, fun other inside => ?_⟩
    · rw [List.length_set]
      exact follows.count
    · have before := follows.voiced other inside
      rw [about_of_arrived rfl]
      by_cases own : voice = other
      · subst own
        have all : (node.obey command).2.filter (·.node == numberFrom first voice) =
            (node.obey command).2 := by
          refine List.filter_eq_self.mpr fun message member => ?_
          rw [(Node.node_of_mem_obey member).1, number]
          exact beq_self_eq_true _
        rw [Recorder.lines_add about, Record.followAll_concat, before, found, all,
          List.getElem?_set_self bound]
        rfl
      · have apart : numberFrom first voice ≠ numberFrom first other :=
          fun same => own (numberFrom_inj (by omega) inside same)
        have none : (node.obey command).2.filter (·.node == numberFrom first other) = [] := by
          refine List.filter_eq_nil_iff.mpr fun message member => ?_
          rw [(Node.node_of_mem_obey member).1, number]
          simpa using apart
        rw [Recorder.lines_add_other (others other own), before, none, List.append_nil,
          List.getElem?_set_ne own]

/-- A synth and a recorder that have been told the same hear of the same effects, if numbers do not
run out, and then the recorder creates what the synth has created. -/
theorem hear {effects : List (Effect α)} (follows : Follows first synth recorder)
    (granted : Granted synth effects)
    (room : first.toInt + (Melody.hear synth effects).nodes.length < 2 ^ 31) :
    Follows first (Melody.hear synth effects) (Melody.hear recorder effects) ∧
      Granted recorder effects := by
  induction effects generalizing synth recorder with
  | nil => exact ⟨follows, trivial⟩
  | cons effect later ih =>
    -- No node is lost on the way, so there is room for those that there are by now.
    have more := length_answerAll (effect.heardBy synth) (later.filterMap Effect.call?)
    rw [← hear_eq_answerAll] at more
    have room_yet : first.toInt + (effect.heardBy synth).nodes.length < 2 ^ 31 :=
      lt_of_le_of_lt (Int.add_le_add_left (Int.ofNat_le.mpr more) _) room
    have step : Follows first (effect.heardBy synth) (effect.heardBy recorder) ∧
        effect.GrantedBy recorder := by
      cases effect with
      | fired timer => exact ⟨follows, trivial⟩
      | created id tone voice? =>
        have given : (synth.create tone).2.toOption = voice? := granted.1
        obtain ⟨numbered, made⟩ := follows.create tone
        refine ⟨follows.created tone room_yet, ?_⟩
        show (recorder.create tone).2.toOption = voice?
        rw [← given, made, numbered]
      | commanded cause owner voice command =>
        have kept : synth.nodes.length ≤ (synth.obey voice command).1.nodes.length :=
          synth.length_answer (.tell voice command)
        have still : first.toInt + synth.nodes.length < 2 ^ 31 :=
          lt_of_le_of_lt (Int.add_le_add_left (Int.ofNat_le.mpr kept) _) room_yet
        exact ⟨follows.commanded voice command still, trivial⟩
    obtain ⟨onward, granted⟩ := ih step.1 granted.2 room
    exact ⟨onward, step.2, granted⟩

end Follows

end Synth

namespace Scheduler

variable {α : Type} [Analytic α] [Std.Commutative (fun x y : α => x * y)]

/-- A run of a scheduler on a server that is always reached, unless numbers run out, has told each
voice to play the tone that it was created for, to fade out ever earlier and perhaps to stop, and
what was sent about its node is what that makes of these commands. -/
theorem run_follows (first : Int32) (now : α) (settings : Settings α)
    (requests : List (Request α)) :
    let start := new (Synth.starting first fun _ => true : Synth α) now settings
    let server := (start.run requests).generator
    first.toInt + server.nodes.length < 2 ^ 31 → ∀ voice < server.nodes.length,
      let id := numberFrom first voice
      ∃ owner tone commands, .created owner tone (some voice) ∈ start.history requests ∧
        (start.history requests).filterMap (Effect.toldTo? voice) = commands ∧
        WellFormed settings tone commands ∧
        server.about id = .new id tone.frequency tone.pan ::
          (Node.obeyAll ⟨id, tone.start, false⟩ commands).2 := by
  intro start server room voice inside id
  have regular : start.lanes.Regular := ⟨List.Pairwise.nil, by simp [start, new]⟩
  obtain ⟨conducts, heard, granted⟩ := run_conducts regular requests
  have heard : server = hear (Synth.starting first fun _ => true) (start.history requests) := heard
  -- A recorder that hears of the same effects has been told what the server is sent.
  obtain ⟨follows, written⟩ := (Synth.Follows.starting first).hear granted (heard ▸ room)
  rw [← heard] at follows
  have conducted := conducts.onward written (Conducted.initial (fun _ => true) now settings)
  obtain ⟨tone, commands, lines, formed⟩ := conducted.told voice (follows.count ▸ inside)
  have records : (hear ({} : Recorder α) (start.history requests)).records =
      (start.history requests).filterMap Effect.record? := by
    rw [Recorder.records_hear written]
    rfl
  have created : Record.created voice tone ∈ (start.history requests).filterMap Effect.record? := by
    have member : Record.created voice tone ∈
        (hear ({} : Recorder α) (start.history requests)).lines voice := by
      rw [lines]
      exact List.mem_cons_self ..
    rw [← records]
    exact List.mem_of_mem_filter member
  obtain ⟨effect, happened, same⟩ := List.mem_filterMap.mp created
  obtain ⟨owner, rfl⟩ := Effect.eq_created same
  refine ⟨owner, tone, commands, happened, ?_, formed, ?_⟩
  · rw [filterMap_toldTo?, ← records]
    show ((hear ({} : Recorder α) (start.history requests)).lines voice).filterMap _ = _
    rw [lines, List.filterMap_cons, List.filterMap_map]
    exact List.filterMap_some
  · have voiced := follows.voiced voice (by omega)
    rw [lines, Record.followAll_created] at voiced
    exact (congrArg Prod.snd voiced).symm

end Scheduler

end Melody
