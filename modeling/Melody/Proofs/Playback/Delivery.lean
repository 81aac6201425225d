import Melody.Proofs.Playback.Prompt
import Melody.Proofs.Playback.Window
import Melody.Proofs.Note.Lasting

/-! A playback whose ticks look ahead far enough plays every note once and on time. -/

namespace Melody

namespace Playback

variable {γ α : Type} [ExactScalar α] {playback : Playback γ α} {tick : Tick α}

/-- The tone that a note of a playback stands for. -/
def planned (playback : Playback γ α) (note : Note α) : Tone α where
  frequency := playback.scheduler.settings.mapping.frequency note.pitch
  start := playback.tempo.toAbsolute note.start
  finish := .at (playback.tempo.toAbsolute note.finish)
  velocity := note.velocity
  pan := note.pan

/-- The notes of a playback that start within a window of seconds. -/
def within (playback : Playback γ α) (window : Window α) : List (Note α) :=
  playback.group.notes.filter fun note => window.contains (playback.tempo.toAbsolute note.start)

/-- The notes that are handed over are those that start in seconds from the cursor on. -/
theorem chosen_eq (positive : playback.tempo.Positive) (limit : α) :
    playback.chosen limit =
      (playback.within ⟨playback.cursor, some limit⟩).map playback.tempo.noteToAbsolute := by
  simp only [chosen, within, Window.contains_toBeats positive]

/-- A tick that looks ahead from the cursor, no further than twice the lead time. -/
structure Meets (playback : Playback γ α) (tick : Tick α) : Prop where
  ahead : tick.limit ≤ tick.now + 2 * playback.scheduler.settings.leadTime
  begins : ∀ note ∈ playback.within ⟨playback.cursor, some tick.limit⟩,
    tick.now ≤ playback.tempo.toAbsolute note.start
  onward : ∀ low ∈ playback.cursor, low ≤ tick.limit

/-- A playback is finished only when its limit has passed the start of every note. -/
theorem passed_of_isFinished (positive : playback.tempo.Positive)
    (lasting : playback.group.Lasting) (finished : playback.isFinished = true) :
    ∀ note ∈ playback.group.notes,
      ∃ limit ∈ playback.cursor, playback.tempo.toAbsolute note.start < limit := by
  intro note member
  unfold isFinished at finished
  cases ends : playback.group.finish? with
  | none =>
    rw [Group.finish?_eq_none.mp ends] at member
    cases member
  | some finish =>
    rw [ends] at finished
    -- The limit has reached the latest end, which lies beyond the start of the note.
    have passed := (Bool.and_eq_true_iff.mp finished).1
    obtain ⟨limit, cursor, reached⟩ := (Option.any_eq_true _ _).mp passed
    have lasts : note.start < note.finish := lt_add_of_pos_right _ (lasting note member)
    have before := lasts.trans_le (Group.finish_le ends note member)
    exact ⟨limit, cursor,
      (positive.toAbsolute_lt_iff.mpr before).trans_le (of_decide_eq_true reached)⟩

/-- The playback that a step leaves when it succeeds, with what has become of the scheduler. -/
def after (playback : Playback γ α) (next : Scheduler γ α) (tick : Tick α) : Playback γ α :=
  { playback with scheduler := next, cursor := some tick.limit }

/-- Ticks that look ahead by twice the lead time at most, each at a time covered by the last one. -/
structure Ticking (lead : α) (ticks : List (Tick α)) : Prop where
  ahead : ∀ tick ∈ ticks, tick.limit ≤ tick.now + 2 * lead
  linked : ticks.IsChain fun tick next => next.now ≤ tick.limit ∧ tick.limit ≤ next.limit

namespace Ticking

variable {lead : α} {later : List (Tick α)}

/-- Ticks behind the first are ticking, too. -/
theorem tail (ticking : Ticking lead (tick :: later)) : Ticking lead later :=
  ⟨fun other member => ticking.ahead other (List.mem_cons_of_mem _ member), ticking.linked.tail⟩

/-- The tick after a step starts no later than the notes that are left. -/
theorem meets {next : Scheduler γ α} (ticking : Ticking next.settings.leadTime (tick :: later)) :
    ∀ second ∈ later.head?, (playback.after next tick).Meets second := by
  intro second member
  obtain ⟨rest, rfl⟩ := List.head?_eq_some_iff.mp member
  obtain ⟨covered, onward⟩ := (List.isChain_cons_cons.mp ticking.linked).1
  refine ⟨ticking.ahead second (by simp), fun note inside => ?_, fun low same => ?_⟩
  · -- A note that is left starts from the old limit on, which covers the clock of this tick.
    have above := (Window.contains_iff.mp (List.mem_filter.mp inside).2).1 tick.limit rfl
    exact covered.trans above
  · exact (Option.some.inj same) ▸ onward

end Ticking

variable [ToneGenerator γ α]

/-- Notes that lie ahead have their voices created when they are handed over. -/
theorem handOver_clear (clear : playback.scheduler.Clear) {limit : α}
    (ahead : ∀ note ∈ playback.chosen limit, playback.scheduler.Ahead note) :
    ∃ next, playback.handOver limit = (next, .ok ()) ∧
      voiced (playback.handOverEffects limit) =
        (playback.chosen limit).map (fun note => playback.scheduler.tone note.cue) ∧
      next.Clear ∧ next.settings = playback.scheduler.settings := by
  -- All notes are taken first, and the advance after them makes no voice.
  obtain ⟨next, ids, scheduled, created, still, settings⟩ := clear.scheduleNotes ahead
  obtain ⟨ok, silent, after, same⟩ := still.advance
  refine ⟨next.advance.1, ?_, ?_, after, same.trans settings⟩
  · rw [handOver_eq, scheduled]
    exact Prod.ext rfl ok
  · rw [handOverEffects, scheduled, voiced_append, created]
    exact (congrArg _ silent).trans (List.append_nil _)

/-- A step whose notes lie ahead of its clock succeeds, and creates a voice for each of them. -/
theorem step_clear (clear : playback.scheduler.Clear)
    (ahead : ∀ note ∈ playback.chosen tick.limit,
      (playback.scheduler.setClock tick.now).Ahead note) :
    ∃ next, playback.step tick = (playback.after next tick, .ok ()) ∧
      voiced (playback.effects tick) = (playback.chosen tick.limit).map
        (fun note => (playback.scheduler.setClock tick.now).tone note.cue) ∧
      next.Clear ∧ next.settings = playback.scheduler.settings := by
  -- The clock decides on nothing that the scheduler has been asked for already.
  have present : (playback.setClock tick.now).scheduler.Clear :=
    ⟨clear.coherent.of_move (.clock trivial), clear.forward, clear.unfailing⟩
  obtain ⟨next, handed, created, still, settings⟩ := handOver_clear present ahead
  refine ⟨next, ?_, ?_, still, settings⟩
  · rw [Playback.step, scheduleUntil, handed]
    rfl
  · rw [Playback.effects, scheduleUntilEffects, handed, voiced_append, created, voiced_nil,
      List.append_nil]
    rfl

/-- A playback of notes that last, in which no note is put off. -/
structure Plays (playback : Playback γ α) : Prop where
  clear : playback.scheduler.Clear
  positive : playback.tempo.Positive
  lasting : playback.group.Lasting

namespace Plays

/-- The notes of a tick lie ahead of the clock that it sets. -/
theorem ahead (plays : playback.Plays) (meets : playback.Meets tick) :
    ∀ note ∈ (playback.setClock tick.now).chosen tick.limit,
      (playback.scheduler.setClock tick.now).Ahead note := by
  intro note member
  have positive : (playback.setClock tick.now).tempo.Positive := plays.positive
  rw [chosen_eq positive] at member
  obtain ⟨source, inside, rfl⟩ := List.mem_map.mp member
  obtain ⟨present, window⟩ := List.mem_filter.mp inside
  -- The limit is within the lead of the clock, and so is what starts before it.
  have below := (Window.contains_iff.mp window).2 tick.limit rfl
  have lasts : source.start < source.finish := lt_add_of_pos_right _ (plays.lasting source present)
  refine ⟨meets.begins source inside, below.le.trans meets.ahead, ?_⟩
  rw [Tempo.finish_noteToAbsolute]
  exact (plays.positive.toAbsolute_lt_iff.mpr lasts).le

/-- The tones of the notes of a tick are those that are planned. -/
theorem tones (plays : playback.Plays) (meets : playback.Meets tick) :
    ((playback.setClock tick.now).chosen tick.limit).map
        (fun note => (playback.scheduler.setClock tick.now).tone note.cue) =
      (playback.within ⟨playback.cursor, some tick.limit⟩).map playback.planned := by
  have positive : (playback.setClock tick.now).tempo.Positive := plays.positive
  rw [chosen_eq positive, List.map_map]
  refine List.map_congr_left fun note member => ?_
  -- The note is not late, and its end is converted as its start is.
  have start : Scalar.larger (playback.tempo.toAbsolute note.start) tick.now =
      playback.tempo.toAbsolute note.start := by
    rw [Scalar.larger_eq_max, max_eq_left (meets.begins note member)]
  have finish := Tempo.finish_noteToAbsolute playback.tempo note
  show Tone.mk _ (Scalar.larger (playback.tempo.toAbsolute note.start) tick.now)
    (.at (playback.tempo.noteToAbsolute note).finish) _ _ = _
  rw [start, finish]
  rfl

/-- A step creates a voice for each note of its window. -/
theorem step (plays : playback.Plays) (meets : playback.Meets tick) :
    ∃ next, playback.step tick = (playback.after next tick, .ok ()) ∧
      voiced (playback.effects tick) =
        (playback.within ⟨playback.cursor, some tick.limit⟩).map playback.planned ∧
      next.Clear ∧ next.settings = playback.scheduler.settings := by
  obtain ⟨next, stepped, created, rest⟩ := step_clear plays.clear (plays.ahead meets)
  exact ⟨next, stepped, created.trans (plays.tones meets), rest⟩

end Plays

/-- What has come of ticks, given the last one. -/
structure Reaches (playback : Playback γ α) (ticks : List (Tick α)) (last : Tick α) : Prop where
  cursor : (playback.run ticks).cursor = some last.limit
  onward : ∀ low ∈ playback.cursor, low ≤ last.limit
  created : (voiced (playback.history ticks)).Perm
    ((playback.within ⟨playback.cursor, some last.limit⟩).map playback.planned)

/-- Nothing is left to come of a tick whose limit the cursor has reached. -/
theorem Reaches.nil (reached : playback.cursor = some tick.limit) : playback.Reaches [] tick where
  cursor := reached
  onward low member := by
    rw [reached] at member
    exact (Option.some.inj member).ge
  created := by
    -- The window that is left is empty.
    have none : playback.within ⟨playback.cursor, some tick.limit⟩ = [] := by
      refine List.filter_eq_nil_iff.mpr fun note _ inside => ?_
      obtain ⟨above, below⟩ := Window.contains_iff.mp inside
      exact absurd (below tick.limit rfl) (not_lt.mpr (above tick.limit reached))
    rw [none]
    exact List.Perm.refl _

/-- The notes of a step come before those of the steps after it. -/
theorem Reaches.cons {next : Playback γ α} {later : List (Tick α)} {last : Tick α}
    (reaches : next.Reaches later last) (meets : playback.Meets tick)
    (stepped : playback.step tick = (next, .ok ()))
    (created : voiced (playback.effects tick) =
      (playback.within ⟨playback.cursor, some tick.limit⟩).map playback.planned)
    (cursor : next.cursor = some tick.limit) (within : next.within = playback.within)
    (planned : next.planned = playback.planned) : playback.Reaches (tick :: later) last where
  cursor := by
    show ((playback.step tick).1.run later).cursor = _
    rw [stepped]
    exact reaches.cursor
  onward low member :=
    (meets.onward low member).trans (reaches.onward tick.limit cursor)
  created := by
    -- The window of this step and those of the others stand side by side.
    have upper : tick.limit ≤ last.limit := reaches.onward tick.limit cursor
    have rest := reaches.created
    rw [cursor, within, planned] at rest
    show (voiced (playback.effects tick ++ (playback.step tick).1.history later)).Perm _
    rw [voiced_append, created, stepped]
    refine (rest.append_left _).trans ?_
    rw [← List.map_append]
    exact (Window.filter_append_perm _ meets.onward upper _).map _

/-- Ticks in their order create a voice for each note that starts before the limit of the last. -/
theorem Plays.run (plays : playback.Plays) {ticks : List (Tick α)}
    (ticking : Ticking playback.scheduler.settings.leadTime ticks)
    (first : ∀ tick ∈ ticks.head?, playback.Meets tick) :
    (∀ early tick late, ticks = early ++ tick :: late →
      ((playback.run early).step tick).2 = .ok ()) ∧
    (∀ last ∈ ticks.getLast?, playback.Reaches ticks last) ∧
    (playback.run ticks).group = playback.group ∧ (playback.run ticks).tempo = playback.tempo := by
  -- Each step moves the cursor to its limit, from where the playback that it leaves goes on.
  induction ticks generalizing playback with
  | nil => exact ⟨by simp, by simp, rfl, rfl⟩
  | cons tick later ih =>
    obtain ⟨next, stepped, created, clear, settings⟩ := plays.step (first tick rfl)
    rw [← settings] at ticking
    have still : (playback.after next tick).Plays := ⟨clear, plays.positive, plays.lasting⟩
    obtain ⟨ok, reaches, group, tempo⟩ := ih still ticking.tail ticking.meets
    have run : playback.run (tick :: later) = (playback.after next tick).run later := by
      show (playback.step tick).1.run later = _
      rw [stepped]
    have planned : (playback.after next tick).planned = playback.planned := by
      funext note
      show Tone.mk (next.settings.mapping.frequency note.pitch) _ _ _ _ = _
      rw [settings]
      rfl
    refine ⟨?_, ?_, run ▸ group, run ▸ tempo⟩
    · rintro (_ | ⟨early, before⟩) other late split
      · obtain ⟨rfl, rfl⟩ := List.cons.inj split
        exact congrArg Prod.snd stepped
      · obtain ⟨rfl, rfl⟩ := List.cons.inj split
        show (((playback.step tick).1.run before).step other).2 = _
        rw [stepped]
        exact ok before other late rfl
    · intro last member
      refine Reaches.cons ?_ (first tick rfl) stepped created rfl rfl planned
      rw [List.getLast?_cons] at member
      obtain rfl := Option.some.inj member
      cases ends : later.getLast? with
      | none =>
        obtain rfl := List.getLast?_eq_none_iff.mp ends
        exact .nil rfl
      | some last => exact reaches last ends

/-- Ticks deliver the notes of a playback: none of them fails, and each voice is created once. -/
structure Delivers (playback : Playback γ α) (ticks : List (Tick α)) : Prop where
  /-- No step fails. -/
  ok : ∀ early tick late, ticks = early ++ tick :: late →
    ((playback.run early).step tick).2 = .ok ()
  /-- The generator has heard of the effects and of nothing else. -/
  heard : (playback.run ticks).scheduler.generator =
    hear playback.scheduler.generator (playback.history ticks)
  /-- The voices are those of the notes that start before the last limit, one for each. -/
  created : ∀ last ∈ ticks.getLast?, (voiced (playback.history ticks)).Perm
    ((playback.group.notes.filter fun note =>
      playback.tempo.toAbsolute note.start < last.limit).map playback.planned)
  /-- A playback that is finished has created the voice of every note. -/
  finished : (playback.run ticks).isFinished = true →
    (voiced (playback.history ticks)).Perm (playback.group.notes.map playback.planned)

/-- A playback that starts with nothing to wait for delivers its notes by ticks in their order. -/
theorem Plays.delivers (plays : playback.Plays) {ticks : List (Tick α)}
    (fresh : playback.cursor = none)
    (ticking : Ticking playback.scheduler.settings.leadTime ticks)
    (first : ∀ tick ∈ ticks.head?, ∀ note ∈ playback.group.notes,
      tick.now ≤ playback.tempo.toAbsolute note.start) : playback.Delivers ticks := by
  have meets : ∀ tick ∈ ticks.head?, playback.Meets tick := by
    intro tick member
    obtain ⟨rest, rfl⟩ := List.head?_eq_some_iff.mp member
    refine ⟨ticking.ahead tick (List.mem_cons_self ..), fun note inside => ?_, ?_⟩
    · exact first tick rfl note (List.mem_filter.mp inside).1
    · rw [fresh]
      exact nofun
  obtain ⟨ok, reaches, group, tempo⟩ := plays.run ticking meets
  have created : ∀ last ∈ ticks.getLast?, (voiced (playback.history ticks)).Perm
      ((playback.group.notes.filter fun note =>
        playback.tempo.toAbsolute note.start < last.limit).map playback.planned) := by
    intro last member
    have voices := (reaches last member).created
    rw [fresh] at voices
    exact voices
  refine ⟨ok, ?_, created, fun finished => ?_⟩
  · exact (run_moves (plays.clear.coherent.refit fun _ _ _ _ _ => trivial) ticks).generator_eq
  · have passed := passed_of_isFinished (tempo.symm ▸ plays.positive) (group.symm ▸ plays.lasting)
      finished
    rw [group, tempo] at passed
    cases ends : ticks.getLast? with
    | none =>
      -- Before the first step there is no limit, and so there are no notes.
      obtain rfl := List.getLast?_eq_none_iff.mp ends
      have empty : playback.group.notes = [] := by
        refine List.eq_nil_iff_forall_not_mem.mpr fun note member => ?_
        obtain ⟨limit, cursor, _⟩ := passed note member
        exact absurd (fresh.symm.trans cursor) nofun
      rw [empty]
      exact List.Perm.refl _
    | some last =>
      have every := List.filter_eq_self.mpr fun note member => decide_eq_true <| by
        obtain ⟨limit, cursor, before⟩ := passed note member
        rw [(reaches last ends).cursor] at cursor
        exact Option.some.inj cursor ▸ before
      exact every ▸ created last ends

/-- A scheduler without timers plays every note of a group once and on time. -/
theorem run_delivers (generator : γ) (now : α) {settings : Settings α} (forward : settings.Forward)
    (unfailing : Unfailing generator) {requests : List (Request α)}
    (issued : (Scheduler.new generator now settings).Along Scheduler.Issued requests)
    (quiet : ((Scheduler.new generator now settings).run requests).timers.queue = [])
    {group : Group α} (lasting : group.Lasting) {tempo : Tempo α} (positive : tempo.Positive)
    {ticks : List (Tick α)} (ticking : Ticking settings.leadTime ticks)
    (first : ∀ tick ∈ ticks.head?, ∀ note ∈ group.notes,
      tick.now ≤ tempo.toAbsolute note.start) :
    Delivers ⟨(Scheduler.new generator now settings).run requests, group, tempo, none⟩ ticks := by
  have initial := Scheduler.Coherent.initial .free generator now settings
  have moves := initial.run_moves (issued.imp fun _ _ => Scheduler.obeys_free)
  -- Without timers no note is put off, and so none will have a voice from before.
  have clear : ((Scheduler.new generator now settings).run requests).Clear := by
    refine ⟨(moves.coherent initial).refit ?_, ?_, moves.unfailing unfailing⟩
    · rw [quiet]
      exact List.forall_mem_nil _
    · rw [moves.settings_eq]
      exact forward
  refine Plays.delivers ⟨clear, positive, lasting⟩ rfl ?_ first
  show Ticking ((Scheduler.new generator now settings).run requests).settings.leadTime ticks
  rw [moves.settings_eq]
  exact ticking

/-- Two ticks cut the time line between the starts of two notes, and each note has its voice. -/
theorem run_delivers_pair :
    Delivers (⟨.new ({} : Recorder ℝ) 0 .standard,
        ⟨[⟨⟨60⟩, 0, 1 / 4, 1, 0⟩, ⟨⟨62⟩, 1 / 8, 1 / 4, 1, 0⟩], {}⟩, .standard, none⟩)
      [⟨0, 1 / 5⟩, ⟨1 / 10, 3 / 10⟩] := by
  have lead : (Settings.standard : Settings ℝ).leadTime = 1 / 10 := by
    show (0.1 : ℝ) = _
    norm_num
  have seconds : ∀ beat, (Tempo.standard : Tempo ℝ).toAbsolute beat = beat * 2 := fun beat => by
    rw [Tempo.toAbsolute_eq]
    norm_num [Tempo.standard]
  have issued : (Scheduler.new ({} : Recorder ℝ) 0 .standard).Along Scheduler.Issued [] := trivial
  have positive : (Tempo.standard : Tempo ℝ).Positive := by
    constructor <;> norm_num [Tempo.standard]
  -- The limits run ahead of the clock by no more than the lead, and never go back.
  have ticking : Ticking (Settings.standard : Settings ℝ).leadTime
      [⟨0, 1 / 5⟩, ⟨1 / 10, 3 / 10⟩] := by
    rw [lead]
    constructor <;> norm_num
  have lasting : Group.Lasting (⟨[⟨⟨60⟩, 0, 1 / 4, 1, 0⟩, ⟨⟨62⟩, 1 / 8, 1 / 4, 1, 0⟩], {}⟩ :
      Group ℝ) := by
    norm_num [Group.Lasting]
  exact run_delivers ({} : Recorder ℝ) 0 Settings.forward_standard
    (Recorder.unfailing fun _ => rfl) issued rfl lasting positive ticking
    (by simp [seconds])

end Playback

end Melody
