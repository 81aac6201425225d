import Mathlib
import Melody.Proofs.Sorting
import Melody.Proofs.Synth.Following

/-! A node follows its last release unless its attack or a later release reaches into it. -/

namespace Melody

namespace Slide

variable {α : Type} [ExactScalar α] {slides : List (Slide α)} {before other : α → α} {t : α}

/-- Slides that have not begun change nothing. -/
theorem bendAll_early (early : ∀ slide ∈ slides, t < slide.time) :
    bendAll before slides t = before t := by
  -- A slide changes nothing before it begins.
  induction slides generalizing before with
  | nil => rfl
  | cons slide later ih =>
    obtain ⟨first, rest⟩ := List.forall_mem_cons.mp early
    show bendAll (slide.bend before) later t = _
    rw [ih rest, bend_early first]

/-- Of slides in the order of their times only those matter that have begun. -/
theorem bendAll_filter (ordered : (slides.map time).Pairwise (· ≤ ·)) :
    bendAll before slides t = bendAll before (slides.filter fun slide => slide.time ≤ t) t := by
  induction slides generalizing before with
  | nil => rfl
  | cons slide later ih =>
    obtain ⟨behind, row⟩ := List.pairwise_cons.mp ordered
    by_cases begun : slide.time ≤ t
    · rw [List.filter_cons_of_pos (by simpa using begun)]
      exact ih row
    · -- Nor have those begun that come behind one that has not.
      have early : ∀ next ∈ slide :: later, t < next.time := by
        refine List.forall_mem_cons.mpr ⟨not_le.mp begun, fun next member => ?_⟩
        exact (not_le.mp begun).trans_le (behind next.time (List.mem_map_of_mem member))
      have none : (slide :: later).filter (fun slide => slide.time ≤ t) = [] :=
        List.filter_eq_nil_iff.mpr fun next member => by simpa using early next member
      rw [none, bendAll_early early]
      rfl

/-- What was before a time does not matter to slides from that time on. -/
theorem bendAll_congr {since : α} (behind : ∀ slide ∈ slides, since ≤ slide.time)
    (agree : ∀ t, since ≤ t → before t = other t) (begun : since ≤ t) :
    bendAll before slides t = bendAll other slides t := by
  -- Each slide takes from before it only the value at its time, on which both agree.
  induction slides generalizing before other with
  | nil => exact agree t begun
  | cons slide later ih =>
    obtain ⟨first, rest⟩ := List.forall_mem_cons.mp behind
    refine ih rest fun t begun => ?_
    simp only [bend, agree t begun, agree slide.time first]

/-- Slides in the order in which they take effect. -/
def sorted (slides : List (Slide α)) : List (Slide α) :=
  slides.mergeSort fun first second => decide (first.time ≤ second.time)

section Sorting

/-- Slides are in order across one between them. -/
theorem order_trans (one two three : Slide α) (first : decide (one.time ≤ two.time) = true)
    (second : decide (two.time ≤ three.time) = true) : decide (one.time ≤ three.time) = true :=
  decide_eq_true ((of_decide_eq_true first).trans (of_decide_eq_true second))

/-- Of two slides one is in order before the other. -/
theorem order_total (one two : Slide α) :
    (decide (one.time ≤ two.time) || decide (two.time ≤ one.time)) = true := by
  simpa using le_total one.time two.time

/-- Sorting keeps the slides. -/
theorem mem_sorted {slide : Slide α} : slide ∈ sorted slides ↔ slide ∈ slides :=
  List.mem_mergeSort

/-- Sorted slides are in the order of their times. -/
theorem sorted_ordered (slides : List (Slide α)) :
    ((sorted slides).map time).Pairwise (· ≤ ·) :=
  List.pairwise_map.mpr
    ((List.pairwise_mergeSort order_trans order_total slides).imp of_decide_eq_true)

/-- It does not matter whether slides are sorted or picked first. -/
theorem filter_sorted (keep : Slide α → Bool) (slides : List (Slide α)) :
    (sorted slides).filter keep = sorted (slides.filter keep) :=
  filter_mergeSort order_trans order_total keep slides

/-- Slides whose times do not overlap are sorted apart from each other. -/
theorem sorted_append {front back : List (Slide α)}
    (apart : ∀ first ∈ front, ∀ second ∈ back, first.time ≤ second.time) :
    sorted (front ++ back) = sorted front ++ sorted back :=
  mergeSort_append order_trans order_total fun first early second late =>
    decide_eq_true (apart first early second late)

/-- One slide is sorted. -/
theorem sorted_singleton (slide : Slide α) : sorted [slide] = [slide] :=
  List.mergeSort_singleton slide

end Sorting

/-- What is heard at a time comes of the slides that have begun. -/
theorem heard_filter (amp : α) (slides : List (Slide α)) (t : α) :
    heard amp slides t = heard amp (slides.filter fun slide => slide.time ≤ t) t := by
  show bendAll _ (sorted slides) t = bendAll _ (sorted _) t
  rw [bendAll_filter (sorted_ordered slides), filter_sorted]

/-- A jump before all others comes first, whatever comes before it. -/
theorem heard_jump {jump : Slide α} {own others : List (Slide α)}
    (behind : ∀ slide ∈ own, jump.time ≤ slide.time)
    (before : ∀ slide ∈ others, slide.time ≤ jump.time) (amp : α) :
    heard amp (others ++ jump :: own) = bendAll (jump.bend (heard amp others)) (sorted own) := by
  have whole : ∀ slide ∈ jump :: own, jump.time ≤ slide.time :=
    List.forall_mem_cons.mpr ⟨le_rfl, behind⟩
  -- All others come before the jump, and its own slides behind it.
  have split := sorted_append fun one early two late => (before one early).trans (whole two late)
  have first : sorted (jump :: own) = jump :: sorted own := by
    have led := sorted_append (show ∀ one ∈ [jump], ∀ two ∈ own, one.time ≤ two.time by simpa)
    rwa [sorted_singleton] at led
  show bendAll _ (sorted _) = _
  rw [split, first]
  exact List.foldl_append

/-- Behind a jump nothing is heard of the slides before it, nor of slides that have not begun. -/
theorem heard_restart {jump : Slide α} {own others : List (Slide α)} {finish : α}
    (sudden : jump.lag = 0) (behind : ∀ slide ∈ own, jump.time ≤ slide.time)
    (clear : ∀ slide ∈ others, slide.time ≤ jump.time ∨ finish ≤ slide.time)
    (begun : jump.time ≤ t) (going : t < finish) (amp level : α) :
    heard amp (others ++ jump :: own) t = heard level (jump :: own) t := by
  have here : ∀ slides : List (Slide α), (jump :: slides).filter (fun slide => slide.time ≤ t) =
      jump :: slides.filter fun slide => slide.time ≤ t :=
    fun slides => List.filter_cons_of_pos (by simpa using begun)
  rw [heard_filter amp, heard_filter level, List.filter_append, here]
  have early : ∀ slide ∈ others.filter fun slide => slide.time ≤ t, slide.time ≤ jump.time := by
    intro slide member
    obtain ⟨inside, past⟩ := List.mem_filter.mp member
    -- A slide that has begun is none of those that begin behind the end.
    rcases clear slide inside with done | ahead
    · exact done
    · exact absurd ((of_decide_eq_true past).trans_lt going) (not_lt.mpr ahead)
  have late : ∀ slide ∈ own.filter fun slide => slide.time ≤ t, jump.time ≤ slide.time :=
    fun slide member => behind slide (List.mem_of_mem_filter member)
  have alone := heard_jump late (List.forall_mem_nil _) level
  rw [List.nil_append] at alone
  rw [heard_jump late early, alone]
  -- The jump has the same value whatever it leaves, and all the others build on that.
  refine bendAll_congr (fun slide member => late slide (mem_sorted.mp member)) ?_ begun
  intro t begun
  have reached : jump.time + jump.lag ≤ t := by rwa [sudden, add_zero]
  rw [bend_late begun reached, bend_late begun reached]

/-- No slide begins strictly between two times. -/
def Clear (low high : α) (slides : List (Slide α)) : Prop :=
  ∀ slide ∈ slides, ¬(low < slide.time ∧ slide.time < high)

end Slide

section Slides

variable {α : Type} [ExactScalar α]

/-- Slides for events within bounds begin within them, if the event before did. -/
theorem ControlEvent.slides_within {since low high : α} {events : List (ControlEvent α)}
    (last : low ≤ since) (within : ∀ event ∈ events, low ≤ event.time ∧ event.time ≤ high) :
    ∀ slide ∈ slides since events, low ≤ slide.time ∧ slide.time ≤ high := by
  intro slide member
  -- They are what a live node sends.
  have live : (⟨0, since, false⟩ : Node α).freed = false := rfl
  have sent : slide.command 0 ∈ ((⟨0, since, false⟩ : Node α).automateAll events).2 := by
    rw [Node.automateAll_eq_slides live]
    exact List.mem_map_of_mem member
  obtain ⟨_, _, _, same, within⟩ := Node.automateAll_within live last within _ sent
  cases same
  exact within

namespace Envelope

variable {envelope : Envelope α}

/-- Automation that plays an envelope jumps to where it starts and goes on to where it ends. -/
theorem Made.slides_spec (made : envelope.Made) (time fidelity : α) :
    ∃ value rest, envelope.slides time fidelity = ⟨value, 0, time + envelope.minX⟩ :: rest ∧
      ∀ slide ∈ rest, time + envelope.minX ≤ slide.time ∧ slide.time ≤ time + envelope.maxX := by
  -- The first point of an envelope is always kept, and is where it begins.
  obtain ⟨value, rest, events⟩ : ∃ value rest, envelope.events (.startingAt time) fidelity =
      .jump value (time + envelope.minX) :: rest := by
    obtain ⟨p, later, points, start⟩ := envelope.approximation_head fidelity
    rw [Envelope.events, points, eventsAfter, Transform.time_startingAt, start]
    exact ⟨_, _, rfl⟩
  have within := made.events_within time fidelity
  rw [events, List.forall_mem_cons] at within
  refine ⟨value, ControlEvent.slides (time + envelope.minX) rest, ?_,
    ControlEvent.slides_within le_rfl within.2⟩
  rw [slides, events, ControlEvent.slides, ControlEvent.slide, Scalar.zero_eq]
  rfl

/-- Automation that plays an envelope stays within its extent. -/
theorem Made.slides_within (made : envelope.Made) (time fidelity : α) :
    ∀ slide ∈ envelope.slides time fidelity,
      time + envelope.minX ≤ slide.time ∧ slide.time ≤ time + envelope.maxX := by
  obtain ⟨value, rest, slides, within⟩ := made.slides_spec time fidelity
  rw [slides]
  exact List.forall_mem_cons.mpr ⟨⟨le_rfl, add_le_add_right made.minX_le_maxX time⟩, within⟩

/-- A node that is sent other slides, some of which come of earlier releases along an envelope, and
then those of its release along the envelope from a time on. -/
structure Fades (envelope : Envelope α) (attack : List (Slide α)) (earlier : List α) (time : α)
    (sent : List (Slide α)) : Prop where
  sent_eq : sent = attack ++ earlier.flatMap (envelope.slides · Node.fidelity) ++
    envelope.slides time Node.fidelity
  /-- No other slide begins while the release lasts if and only if none of the attack does and every
  earlier release starts when it is over. -/
  clear_iff : Slide.Clear time (time + envelope.maxX)
      (attack ++ earlier.flatMap (envelope.slides · Node.fidelity)) ↔
    Slide.Clear time (time + envelope.maxX) attack ∧
      ∀ other ∈ earlier, time + envelope.maxX ≤ other + envelope.minX
  /-- In that case the release is heard from its start to its end, whatever was heard before. -/
  heard : Slide.Clear time (time + envelope.maxX)
      (attack ++ earlier.flatMap (envelope.slides · Node.fidelity)) →
    ∀ t, time + envelope.minX ≤ t → t < time + envelope.maxX →
      (∀ amp, Slide.heard 0 sent t = Slide.heard amp (envelope.slides time Node.fidelity) t) ∧
      ((∀ s ∈ envelope.segments, s.shape = .linear) →
        Slide.heard 0 sent t = envelope.valueAt (t - time))

/-- The automation that plays an envelope of straight lines is heard as its curve. -/
theorem Made.heard_slides (made : envelope.Made)
    (linear : ∀ s ∈ envelope.segments, s.shape = .linear) (amp time fidelity : α) {t : α}
    (low : time + envelope.minX ≤ t) (high : t ≤ time + envelope.maxX) :
    Slide.heard amp (envelope.slides time fidelity) t = envelope.valueAt (t - time) := by
  have whole : (0 : α) < (Transform.startingAt time).scale := by
    rw [Transform.startingAt, Scalar.one_eq]
    exact one_pos
  obtain ⟨read, ordered⟩ := read_events made linear whole fidelity
  have begins : time ≤ time + envelope.minX := le_add_of_nonneg_right made.minX_nonneg
  have behind : ∀ event ∈ envelope.events (.startingAt time) fidelity, time ≤ event.time :=
    fun event member => begins.trans (made.events_within time fidelity event member).1
  have here : (Transform.startingAt time).time (t - time) = t := by
    rw [Transform.time_startingAt, add_sub_cancel]
  -- The slides are heard as the events are read, and these follow the envelope.
  have meant := ControlEvent.slides_meant ordered behind
  have height := read amp time (t - time) (le_sub_iff_add_le'.mpr low) (sub_le_iff_le_add'.mpr high)
  rw [slides, meant.heard, if_neg (not_lt.mpr (begins.trans low)), ← height, here]

/-- Releases ever earlier fade out as the last of them does where nothing else reaches into it. -/
theorem Made.fades (made : envelope.Made) (attack : List (Slide α)) {earlier : List α} {time : α}
    (later : ∀ other ∈ earlier, time < other) :
    Fades envelope attack earlier time (attack ++
      earlier.flatMap (envelope.slides · Node.fidelity) ++ envelope.slides time Node.fidelity) where
  sent_eq := rfl
  clear_iff := by
    rw [Slide.Clear, List.forall_mem_append]
    refine and_congr_right fun _ => ⟨fun clear other member => ?_, fun clear slide member => ?_⟩
    · -- An earlier release starts with a jump, which is not heard only if it comes behind.
      obtain ⟨value, rest, slides, _⟩ := made.slides_spec other Node.fidelity
      have first := clear ⟨value, 0, other + envelope.minX⟩
        (List.mem_flatMap.mpr ⟨other, member, slides ▸ List.mem_cons_self ..⟩)
      have begins := (later other member).trans_le (le_add_of_nonneg_right made.minX_nonneg)
      exact not_lt.mp fun inside => first ⟨begins, inside⟩
    · obtain ⟨other, inside, sent⟩ := List.mem_flatMap.mp member
      have begins := (clear other inside).trans (made.slides_within other _ slide sent).1
      exact fun within => not_lt.mpr begins within.2
  heard := by
    intro clear t begun going
    obtain ⟨value, rest, slides, within⟩ := made.slides_spec time Node.fidelity
    have aside : ∀ slide ∈ attack ++ earlier.flatMap (envelope.slides · Node.fidelity),
        slide.time ≤ time + envelope.minX ∨ time + envelope.maxX ≤ slide.time := by
      intro slide member
      by_cases done : slide.time ≤ time
      · exact Or.inl (done.trans (le_add_of_nonneg_right made.minX_nonneg))
      · exact Or.inr (not_lt.mp fun inside => clear slide member ⟨not_le.mp done, inside⟩)
    have alone : ∀ amp, Slide.heard 0 (attack ++
        earlier.flatMap (envelope.slides · Node.fidelity) ++ envelope.slides time Node.fidelity) t =
          Slide.heard amp (envelope.slides time Node.fidelity) t := by
      intro amp
      rw [slides]
      exact Slide.heard_restart rfl (fun slide member => (within slide member).1) aside begun going
        0 amp
    refine ⟨alone, fun linear => ?_⟩
    rw [alone 0]
    exact made.heard_slides linear 0 time Node.fidelity begun going.le

end Envelope

end Slides

section Parts

variable {α : Type} [ExactScalar α]

/-- Times before an end, each before the one ahead of it, go down from that end if it is known. -/
theorem Ending.Descends.pairwise {ending : Ending α} {times : List α}
    (descends : ending.Descends times) :
    (ending.finite?.toList ++ times).Pairwise (· > ·) := by
  -- Each time is before the one ahead, and by induction before all of those.
  have from_time : ∀ (times : List α) (time : α), (Ending.at time).Descends times →
      (time :: times).Pairwise (· > ·) := by
    intro times
    induction times with
    | nil => exact fun _ _ => List.pairwise_singleton _ _
    | cons next later ih =>
      intro time descends
      have before : next < time := by simpa [Ending.isAfter] using descends.1
      have rest := ih next descends.2
      refine List.pairwise_cons.mpr ⟨?_, rest⟩
      refine List.forall_mem_cons.mpr ⟨before, fun other member => ?_⟩
      exact ((List.pairwise_cons.mp rest).1 other member).trans before
  cases ending with
  | «at» time =>
    rw [finite?, if_pos (ExactScalar.finite time)]
    exact from_time times time descends
  | never =>
    cases times with
    | nil => exact .nil
    | cons next later => exact from_time later next descends.2

end Parts

namespace Scheduler

variable {α : Type} [ExactScalar α]

/-- What a run makes of a voice: it is created for a tone and told to play the attack of that, to
fade out from times on that lie ever earlier, and perhaps to stop, and its node is sent the slides
of the attack and of the releases, and to be freed at the end of each release and when it stops. -/
structure Played (settings : Settings α) (history : List (Effect α)) (voice : Nat)
    (server : Synth α) (id : Int32) (tone : Tone α) (releases : List α) (last : List (Command α)) :
    Prop where
  created : ∃ owner, .created owner tone (some voice) ∈ history
  told : history.filterMap (Effect.toldTo? voice) =
    ((tone.attack settings).events (.startingAt tone.start) settings.resolution).map .gain ++
      releases.map (.release · (tone.release settings)) ++ last
  descends : releases.Pairwise (· > ·)
  ends : last = [] ∨ last = [.destroy]
  slides : server.slidesOf id =
    (tone.attack settings).slides tone.start settings.resolution ++
      releases.flatMap ((tone.release settings).slides · Node.fidelity)
  frees : server.freesOf id =
    releases.map (fun time => some (time + (tone.release settings).maxX)) ++
      last.map fun _ => none

/-- Every voice that a run creates is played. -/
theorem run_played (first : Int32) (now : α) (settings : Settings α)
    (requests : List (Request α)) :
    let start := new (Synth.starting first fun _ => true : Synth α) now settings
    let server := (start.run requests).generator
    first.toInt + server.nodes.length < 2 ^ 31 → ∀ voice < server.nodes.length,
      ∃ tone releases last, Played settings (start.history requests) voice server
        (numberFrom first voice) tone releases last := by
  intro start server room voice inside
  obtain ⟨owner, tone, commands, created, told, ⟨times, last, descends, ends, rfl⟩, sent⟩ :=
    run_follows first now settings requests room voice inside
  obtain ⟨next, same, live, played⟩ :=
    Node.obeyAll_score (numberFrom first voice) settings tone times
  -- What is said last is nothing, or that the voice is destroyed.
  have ending : (next.obeyAll last).2 =
      last.map fun _ => .free (numberFrom first voice) none := by
    rcases ends with rfl | rfl
    · rfl
    · simp [Node.obeyAll, Node.obey, Node.destroy, live, same]
  rw [Node.obeyAll_append, played] at sent
  dsimp only at sent
  rw [ending] at sent
  refine ⟨tone, tone.finish.finite?.toList ++ times, last, ⟨owner, created⟩, told,
    descends.pairwise, ends, ?_, ?_⟩
  · have none : (last.map fun _ => NodeCommand.free (numberFrom first voice) none).filterMap
        (NodeCommand.slide? : NodeCommand α → _) = [] := by
      rcases ends with rfl | rfl <;> rfl
    rw [Synth.slidesOf, sent, List.filterMap_cons_none rfl, List.filterMap_append,
      List.filterMap_append, Slide.filterMap_slide?, List.filterMap_flatMap, none, List.append_nil]
    simp only [Node.filterMap_slide?_fadeOut]
  · have stop : (last.map fun _ => NodeCommand.free (numberFrom first voice) none).filterMap
        (NodeCommand.frees? : NodeCommand α → _) = last.map fun _ => none := by
      rcases ends with rfl | rfl <;> rfl
    rw [Synth.freesOf, sent, List.filterMap_cons_none rfl, List.filterMap_append,
      List.filterMap_append, Slide.filterMap_frees?, List.filterMap_flatMap, stop]
    simp only [Node.filterMap_frees?_fadeOut, ← List.map_eq_flatMap, List.nil_append]

namespace Played

variable {settings : Settings α} {history : List (Effect α)} {voice : Nat} {server : Synth α}
  {id : Int32} {tone : Tone α} {releases earlier : List α} {last : List (Command α)} {time : α}

/-- The last release is for an earlier time than all others. -/
theorem later (played : Played settings history voice server id tone releases last)
    (split : releases = earlier ++ [time]) : ∀ other ∈ earlier, time < other := by
  have descends := played.descends
  rw [split, List.pairwise_append] at descends
  exact fun other member => descends.2.2 other member time (List.mem_singleton.mpr rfl)

/-- The node is sent the automation of its attack, of earlier releases and of the last one. -/
theorem fades (played : Played settings history voice server id tone releases last)
    (release : settings.release.Made) (split : releases = earlier ++ [time]) :
    (tone.release settings).Fades ((tone.attack settings).slides tone.start settings.resolution)
      earlier time (server.slidesOf id) := by
  have made : (tone.release settings).Made := release.scaleY _
  have sent := played.slides
  rw [split, List.flatMap_append, ← List.append_assoc, List.flatMap_singleton] at sent
  rw [sent]
  exact made.fades _ (played.later split)

/-- Of all the times for which the node is to be freed the end of the last release is the first. -/
theorem freed_first (played : Played settings history voice server id tone releases last)
    (split : releases = earlier ++ [time]) :
    IsLeast {t | some t ∈ server.freesOf id} (time + (tone.release settings).maxX) := by
  constructor
  · show some _ ∈ server.freesOf id
    rw [played.frees, split]
    simp
  · intro t freed
    have freed : some t ∈ server.freesOf id := freed
    rw [played.frees] at freed
    rcases List.mem_append.mp freed with timed | stopped
    · -- What is timed belongs to a release, and the others are later.
      obtain ⟨other, member, same⟩ := List.mem_map.mp timed
      cases same
      rw [split] at member
      refine add_le_add_left ?_ (tone.release settings).maxX
      rcases List.mem_append.mp member with before | only
      · exact (played.later split other before).le
      · exact (List.mem_singleton.mp only).ge
    · obtain ⟨_, _, same⟩ := List.mem_map.mp stopped
      cases same

end Played

section Solo

/-- The part of a cue plays its tone and releases it at its end. -/
theorem part_eq_score {γ : Type} (scheduler : Scheduler γ α) (cue : Cue α) :
    scheduler.part cue = score scheduler.settings (scheduler.tone cue) [] := by
  unfold part script score Scheduler.tone
  cases cue.finish.finite? <;> rfl

variable {settings : Settings α} {now : α} {note : Note α}

/-- The first note is created and told to play, unless it is over or far ahead. -/
theorem history_solo (first : Int32) (going : now ≤ note.finish)
    (near : note.start ≤ now + 2.0 * settings.leadTime) :
    let start := new (Synth.starting first fun _ => true : Synth α) now settings
    start.history [.schedule note none] = .created ⟨0⟩ (start.tone note.cue) (some 0) ::
      (score settings (start.tone note.cue) []).map (.commanded ⟨0⟩ ⟨0⟩ 0) := by
  intro start
  have ended : ¬note.finish < start.freshId.1.now := not_lt.mpr going
  have far : ¬start.freshId.1.now + 2.0 * start.freshId.1.settings.leadTime < note.start :=
    not_lt.mpr near
  have given : (ToneGenerator.create start.freshId.1.generator
      (start.freshId.1.tone note.cue)).2 = .ok 0 := rfl
  -- The scheduler is new, so the note is made at once and displaces nothing.
  have none : (start.freshId.1.lanes.laneOf note.cue.pitch).active = none := rfl
  show start.freshId.1.placeEffects ⟨0⟩ note ++ [] = _
  rw [List.append_nil, placeEffects, if_neg ended, if_neg far, prepareEffects_created _ given,
    none, ite_self]
  show _ :: ((start.part note.cue).map _ ++ []) = _
  rw [List.append_nil, part_eq_score]
  rfl

/-- The first note gets one node. -/
theorem length_solo (first : Int32) (going : now ≤ note.finish)
    (near : note.start ≤ now + 2.0 * settings.leadTime) :
    let start := new (Synth.starting first fun _ => true : Synth α) now settings
    (start.run [.schedule note none]).generator.nodes.length = 1 := by
  intro start
  have regular : start.lanes.Regular := ⟨List.Pairwise.nil, by simp [start, new]⟩
  have reliable : (Synth.starting first fun _ => true : Synth α).Reliable := fun _ => rfl
  -- Commands ask for no node.
  have commands : ∀ told : List (Command α),
      (told.map (Effect.commanded ⟨0⟩ ⟨0⟩ 0)).countP Effect.asks = 0 := by
    intro told
    rw [List.countP_map]
    exact List.countP_eq_zero.mpr fun _ _ => Bool.false_ne_true
  rw [(run_conducts regular _).2.1, history_solo first going near]
  refine (reliable.length_hear _).trans ?_
  rw [List.countP_cons_of_pos rfl, commands]
  rfl

/-- The first note is released at its end and not again. -/
theorem Played.solo {only tone : Tone α} {server : Synth α} {id : Int32} {releases : List α}
    {last : List (Command α)} (played : Played settings (.created ⟨0⟩ only (some 0) ::
      (score settings only []).map (.commanded ⟨0⟩ ⟨0⟩ 0)) 0 server id tone releases last) :
    tone = only ∧ releases = only.finish.finite?.toList := by
  obtain rfl : tone = only := by
    obtain ⟨owner, created⟩ := played.created
    exact (by simpa using created : owner = ⟨0⟩ ∧ tone = only).2
  refine ⟨rfl, ?_⟩
  have told := played.told
  have all : Effect.toldTo? 0 ∘ Effect.commanded ⟨0⟩ ⟨0⟩ 0 = (some : Command α → _) := rfl
  rw [List.filterMap_cons_none rfl, List.filterMap_map, all, List.filterMap_some, Tone.score_eq,
    List.append_assoc, List.append_nil] at told
  have same := List.append_cancel_left told
  rcases played.ends with rfl | rfl
  · rw [List.append_nil] at same
    have apart : Function.Injective fun time => Command.release time (tone.release settings) :=
      fun _ _ same => (Command.release.inj same).1
    exact (List.map_injective_iff.mpr apart same).symm
  · -- A note that has only been scheduled has not been told to stop.
    have stop : Command.destroy ∈ tone.finish.finite?.toList.map
        fun time => Command.release time (tone.release settings) := by
      rw [same]
      simp
    simp at stop

end Solo

section Standard

/-- The standard envelopes can be made. -/
theorem standard_made :
    (Settings.standard : Settings ℝ).attack.Made ∧
      (Settings.standard : Settings ℝ).release.Made := by
  -- Both are lines through points in order.
  constructor
  · refine .polyline ?_ ?_
    · norm_num
    · norm_num
  · refine .polyline ?_ ?_
    · norm_num
    · norm_num

/-- The standard envelopes are over after a tenth of a second. -/
theorem standard_maxX :
    (Settings.standard : Settings ℝ).attack.maxX = 1 / 10 ∧
      (Settings.standard : Settings ℝ).release.maxX = 1 / 10 := by
  norm_num [Settings.standard, Envelope.polyline, Envelope.lines, Envelope.maxX, Envelope.last]

/-- The standard attack falls to four fifths. -/
theorem standard_lastValue : (Settings.standard : Settings ℝ).attack.lastValue = 4 / 5 := by
  -- Between lines the last value is the height of the last point.
  have linear : ∀ s ∈ (Settings.standard : Settings ℝ).attack.segments, s.shape = .linear := by
    simp [Settings.standard, Envelope.polyline, Envelope.lines]
  have made := standard_made.1
  rw [Envelope.lastValue,
    Envelope.valueAt_eq made.joined linear made.minX_le_maxX le_rfl ⟨0, 0⟩, standard_maxX.1]
  norm_num [Settings.standard, Envelope.polyline, Envelope.lines, Envelope.heightFrom,
    Segment.valueAt, Segment.width, Segment.lerp, Scalar.clampUnit]

/-- The standard attack rises at once and falls from a hundredth of a second on. -/
theorem standard_slides :
    ((Settings.standard : Settings ℝ).attack.scaleY 1).slides 0
        (Settings.standard : Settings ℝ).resolution =
      [⟨0, 0, 0⟩, ⟨1, 1 / 100, 0⟩, ⟨4 / 5, 9 / 100, 1 / 100⟩] := by
  norm_num [Settings.standard, Envelope.polyline, Envelope.lines, Envelope.scaleY, Segment.scaleY,
    Point.scaleY, Envelope.slides, Envelope.events, Envelope.approximation,
    Segment.approximate_linear, Envelope.distinct, Envelope.distinctAfter, Point.same, Scalar.same,
    Envelope.eventsAfter, Transform.startingAt, Transform.time, ControlEvent.slides,
    ControlEvent.slide, ControlEvent.time, Scalar.smaller]

end Standard

/-- Over every run of a scheduler on a server that is always reached, unless numbers run out, the
node of a voice follows the last of its releases where nothing else reaches into that: no slide but
its own begins while the release lasts exactly if none of the attack does, as when the attack is
over by then, and every release asked for before starts when this one is over. In that case the
server hears the envelope of the release from its start to its end, which is the first time for
which the node has been sent to be freed. -/
theorem run_fades {settings : Settings α} (attack : settings.attack.Made)
    (release : settings.release.Made) (first : Int32) (now : α) (requests : List (Request α)) :
    let start := new (Synth.starting first fun _ => true : Synth α) now settings
    let server := (start.run requests).generator
    first.toInt + server.nodes.length < 2 ^ 31 → ∀ voice < server.nodes.length,
      let id := numberFrom first voice
      ∃ tone releases last,
        Played settings (start.history requests) voice server id tone releases last ∧
        ∀ earlier time, releases = earlier ++ [time] →
          let rise := (tone.attack settings).slides tone.start settings.resolution
          let fall := tone.release settings
          fall.Fades rise earlier time (server.slidesOf id) ∧
          (tone.start + (tone.attack settings).maxX ≤ time →
            Slide.Clear time (time + fall.maxX) rise) ∧
          IsLeast {t | some t ∈ server.freesOf id} (time + fall.maxX) := by
  intro start server room voice inside id
  obtain ⟨tone, releases, last, played⟩ :=
    run_played first now settings requests room voice inside
  refine ⟨tone, releases, last, played, ?_⟩
  intro earlier time split rise fall
  refine ⟨played.fades release split, fun past slide member within => ?_, played.freed_first split⟩
  -- The slides of the attack end with it.
  have ended := ((attack.scaleY tone.velocity).slides_within _ _ slide member).2
  exact not_lt.mpr (ended.trans past) within.1

/-- A note of a second in the standard settings is heard at half of its level halfway through its
release, and its node is freed at the end of that. -/
theorem run_fades_standard :
    let note : Note ℝ := ⟨⟨57⟩, 0, 1, 1, 0⟩
    let start := new (Synth.starting 1000 fun _ => true : Synth ℝ) 0 .standard
    let server := (start.run [.schedule note none]).generator
    Slide.heard 0 (server.slidesOf 1000) (21 / 20) = 2 / 5 ∧
      IsLeast {t | some t ∈ server.freesOf 1000} (11 / 10) := by
  intro note start server
  have going : 0 ≤ note.finish := by norm_num [Note.finish, note]
  have near : note.start ≤ 0 + 2.0 * (Settings.standard : Settings ℝ).leadTime := by
    norm_num [note, Settings.standard]
  have count : server.nodes.length = 1 := length_solo 1000 going near
  have room : (1000 : Int32).toInt + server.nodes.length < 2 ^ 31 := by
    rw [count]
    decide
  obtain ⟨tone, releases, last, played, fades⟩ := run_fades standard_made.1 standard_made.2 1000 0
    [.schedule note none] room 0 (count ▸ Nat.zero_lt_one)
  rw [numberFrom_zero] at fades
  rw [history_solo 1000 going near] at played
  obtain ⟨rfl, ended⟩ := played.solo
  have finish : (start.tone note.cue).finish.finite?.toList = [1] := by
    norm_num [Scheduler.tone, note, Note.cue, Note.finish, Ending.finite?, ExactScalar.finite]
  obtain ⟨follows, clear, least⟩ := fades [] 1 (ended.trans finish)
  have fall : (start.tone note.cue).release .standard = .polyline ⟨0, 4 / 5⟩ ⟨1 / 10, 0⟩ [] := by
    rw [Tone.release, standard_lastValue]
    norm_num [Scheduler.tone, note, Note.cue, Settings.standard, Envelope.polyline, Envelope.lines,
      Envelope.scaleY, Segment.scaleY, Point.scaleY]
  have past : (start.tone note.cue).start + ((start.tone note.cue).attack .standard).maxX ≤ 1 := by
    rw [Tone.attack, Envelope.maxX_scaleY, standard_maxX.1]
    norm_num [Scheduler.tone, note, Note.cue, start, new]
  -- The release comes after the whole attack, and so is heard as it is drawn.
  have whole := follows.clear_iff.mpr ⟨clear past, List.forall_mem_nil _⟩
  rw [fall] at follows whole least
  have ends : (Envelope.polyline ⟨0, 4 / 5⟩ ⟨1 / 10, 0⟩ [] : Envelope ℝ).maxX = 1 / 10 := rfl
  rw [ends, show (1 : ℝ) + 1 / 10 = 11 / 10 by norm_num] at least
  refine ⟨?_, least⟩
  have heard := (follows.heard whole (21 / 20)
    (by norm_num [Envelope.polyline, Envelope.lines, Envelope.minX, Envelope.first])
    (by norm_num [ends])).2 (by simp [Envelope.polyline, Envelope.lines])
  refine heard.trans ?_
  norm_num [Envelope.valueAt, Scalar.smaller, Scalar.larger, Envelope.segmentAt, Envelope.polyline,
    Envelope.lines, Envelope.minX, Envelope.first, Envelope.maxX, Envelope.last, Segment.valueAt,
    Segment.width, Segment.lerp, Scalar.clampUnit]

/-- The release of a note that ends before its peak is not all that is heard while it lasts: in the
standard settings the fall of the attack begins within it. -/
theorem standard_reaches {duration : ℝ} (some : 0 < duration) (short : duration < 1 / 100) :
    let note : Note ℝ := ⟨⟨57⟩, 0, duration, 1, 0⟩
    let start := new (Synth.starting 1000 fun _ => true : Synth ℝ) 0 .standard
    let tone := start.tone note.cue
    let rise := (tone.attack .standard).slides tone.start Settings.standard.resolution
    let fall := tone.release .standard
    (start.run [.schedule note none]).generator.slidesOf 1000 =
        rise ++ fall.slides duration Node.fidelity ∧
      ¬Slide.Clear duration (duration + fall.maxX) rise := by
  intro note start tone rise fall
  have going : 0 ≤ note.finish := by simpa [Note.finish, note] using some.le
  have near : note.start ≤ 0 + 2.0 * (Settings.standard : Settings ℝ).leadTime := by
    norm_num [note, Settings.standard]
  have count : (start.run [.schedule note none]).generator.nodes.length = 1 :=
    length_solo 1000 going near
  have room : (1000 : Int32).toInt +
      (start.run [.schedule note none]).generator.nodes.length < 2 ^ 31 := by
    rw [count]
    decide
  obtain ⟨own, releases, last, played⟩ :=
    run_played 1000 0 .standard [.schedule note none] room 0 (count ▸ Nat.zero_lt_one)
  rw [numberFrom_zero, history_solo 1000 going near] at played
  obtain ⟨rfl, ended⟩ := played.solo
  have finish : (start.tone note.cue).finish.finite?.toList = [duration] := by
    norm_num [Scheduler.tone, note, Note.cue, Note.finish, Ending.finite?, ExactScalar.finite]
  refine ⟨?_, fun clear => ?_⟩
  · have sent := played.slides
    rwa [ended, finish, List.flatMap_singleton] at sent
  · -- The fall from the peak begins a hundredth of a second after the start.
    have begins : tone.start = 0 := by norm_num [tone, Scheduler.tone, note, Note.cue, start, new]
    have lasts : fall.maxX = 1 / 10 := (Envelope.maxX_scaleY ..).trans standard_maxX.2
    have sent : ⟨4 / 5, 9 / 100, 1 / 100⟩ ∈ rise := by
      show _ ∈ (tone.attack .standard).slides tone.start _
      rw [begins, Tone.attack, show tone.velocity = 1 from rfl, standard_slides]
      simp
    refine clear _ sent ⟨short, ?_⟩
    rw [lasts]
    show (1 / 100 : ℝ) < duration + 1 / 10
    linarith

end Scheduler

end Melody
