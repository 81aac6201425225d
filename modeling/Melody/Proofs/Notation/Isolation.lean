import Mathlib
import Melody.Proofs.Note.Settled
import Melody.Proofs.Notation.Ungrouped

/-! Square brackets isolate: a phrase inside of them is what it is by itself, at another place. -/

namespace Melody.Notation

variable {α : Type}

/-- The keys that set where an item starts or ends. -/
def Property.timeKeys : List String :=
  ["s", "start", "e", "end"]

/-- A key that is none of them names a property other than the start and the end. -/
theorem Property.ne_of_not_mem_timeKeys {key : String} {property : Property}
    (named : ofKey? key = some property) (untimed : key ∉ timeKeys) :
    property ≠ start ∧ property ≠ finish := by
  unfold ofKey? at named
  constructor <;> rintro rfl <;> split at named <;> contradiction

/-- The keys of the assignments in a block. -/
def Lexeme.keys : Lexeme → List String
  | properties body =>
    (Text.pieces ',' body).map fun assignment => String.ofList (assignment.takeWhile (· ≠ ':'))
  | _ => []

/-- The keys that the blocks of a text without blanks and comments assign to. -/
def assignedKeys (text : String) : List String :=
  match Token.ofText (α := Unit) text.toList with
  | .error _ => []
  | .ok tokens => tokens.flatMap fun token => token.lexeme.keys

namespace Token

/-- The token further back in the text. -/
def moved (token : Token) (bytes : Nat) : Token :=
  { token with offset := bytes + token.offset }

/-- Words that follow others stand behind their bytes. -/
theorem placed_append (offset : Nat) (words later : List Word) :
    placed offset (words ++ later) =
      placed offset words ++
        placed (offset + Text.byteLength (words.flatMap Word.spelling)) later := by
  induction words generalizing offset with
  | nil => rfl
  | cons word others ih =>
    rw [List.cons_append, placed, placed, ih, List.flatMap_cons, Text.byteLength_append,
      Nat.add_assoc, List.cons_append]

/-- Words further back in a text are the same tokens further back. -/
theorem placed_add (bytes offset : Nat) (words : List Word) :
    placed (bytes + offset) words = (placed offset words).map (·.moved bytes) := by
  induction words generalizing offset with
  | nil => rfl
  | cons word later ih =>
    rw [placed, placed, List.map_cons, ← ih, Nat.add_assoc]
    rfl

end Token

/-- The keys of a text of words are those of their lexemes. -/
theorem assignedKeys_eq {text : String} {words : List Word}
    (written : text.toList = words.flatMap Word.spelling) :
    assignedKeys text = (Token.placed 0 words).flatMap fun token => token.lexeme.keys := by
  rw [assignedKeys, written, Token.ofText, Token.read_words]

variable [ExactScalar α]

namespace Item

/-- The item later in time, further back in the text and inside of one more bracket. -/
def moved (item : Item α) (time : α) (bytes : Nat) : Item α :=
  { item with start := time + item.start, depth := item.depth + 1, offset := bytes + item.offset }

/-- An item that is moved ends later by as much. -/
theorem finish_moved (item : Item α) (time : α) (bytes : Nat) :
    (item.moved time bytes).finish = time + item.finish :=
  add_assoc time item.start item.duration

/-- Assignments that leave the start and the end alone do the same to an item that is moved. -/
theorem assign_moved {item next : Item α} {offset : Nat} {assignment : List Char}
    (assigned : item.assign offset assignment = .ok next)
    (untimed : String.ofList (assignment.takeWhile (· ≠ ':')) ∉ Property.timeKeys)
    (time : α) (bytes other : Nat) :
    (item.moved time bytes).assign other assignment = .ok (next.moved time bytes) := by
  unfold assign at assigned ⊢
  split at assigned
  · cases assigned
    rfl
  · contradiction
  · dsimp only at assigned ⊢
    -- No name in an expression stands for the start, so that all of them keep their values.
    have scope : (item.moved time bytes).scope = item.scope := rfl
    rw [scope]
    split at assigned
    · contradiction
    · rename_i property named
      obtain ⟨notStart, notFinish⟩ := Property.ne_of_not_mem_timeKeys named untimed
      split at assigned
      · cases assigned
        cases property with
        | start => contradiction
        | finish => contradiction
        | duration | velocity | velocityOffset | durationOffset | pan => rfl
      · contradiction

/-- A block that leaves the start and the end alone does the same to an item that is moved. -/
theorem assignAll_moved {item next : Item α} {offset : Nat} {assignments : List (List Char)}
    (assigned : item.assignAll offset assignments = .ok next)
    (untimed : ∀ assignment ∈ assignments,
      String.ofList (assignment.takeWhile (· ≠ ':')) ∉ Property.timeKeys)
    (time : α) (bytes other : Nat) :
    (item.moved time bytes).assignAll other assignments = .ok (next.moved time bytes) := by
  induction assignments generalizing item offset other with
  | nil =>
    cases assigned
    rfl
  | cons assignment later ih =>
    -- Each assignment leaves the rest of them to the item that it changed.
    obtain ⟨middle, first, rest⟩ := bind_eq_ok.mp assigned
    obtain ⟨head, tail⟩ := List.forall_mem_cons.mp untimed
    rw [assignAll, assign_moved first head]
    exact ih rest tail _

/-- An item that passes the checks also passes them later in time. -/
theorem soundOf?_moved {item : Item α} {sound : Option (Note α)}
    (checked : soundOf? item = .ok sound) {time : α} (later : 0 ≤ time) (bytes : Nat) :
    ∃ other, soundOf? (item.moved time bytes) = .ok other := by
  have passes : ∀ {item : Item α} {sound : Option (Note α)},
      soundOf? item = .ok sound ↔ item.note? = .ok sound := by
    intro item sound
    rw [soundOf?]
    cases item.note? <;> simp [Except.mapError]
  rw [passes] at checked
  obtain ⟨kind, start, duration, velocity, pan, depth, offset⟩ := item
  -- A later start passes the check that the earlier one passed.
  cases kind with
  | note pitch =>
    obtain ⟨note, made, _⟩ := map_eq_ok.mp checked
    obtain ⟨rfl, begins, lasting, loud, within⟩ := Note.ofParts_eq_ok_iff.mp made
    refine ⟨_, passes.mpr (map_eq_ok.mpr ⟨_, Note.ofParts_eq_ok_iff.mpr ⟨rfl, ?_⟩, rfl⟩)⟩
    exact ⟨add_nonneg later begins, lasting, loud, within⟩
  | rest =>
    simp only [note?, Scalar.zero_eq] at checked
    by_cases early : start < 0
    · rw [if_pos early] at checked
      contradiction
    · refine ⟨none, passes.mpr ?_⟩
      have begins : ¬time + start < 0 := not_lt.mpr (add_nonneg later (not_lt.mp early))
      simp only [note?, moved, Scalar.zero_eq, if_neg begins]

end Item

/-- The context later in time. -/
def Context.moved (context : Context α) (time : α) : Context α :=
  { context with nextStart := time + context.nextStart }

/-- What is taken over from an item that is moved is moved with it. -/
theorem Context.after_moved (context : Context α) (item : Item α) (time : α) (bytes : Nat) :
    (context.moved time).after (item.moved time bytes) = (context.after item).moved time := by
  rw [after, Item.finish_moved]
  rfl

/-- The bracket further back in the text and inside of one more bracket, with the items before
it. -/
def Frame.moved (frame : Frame α) (time : α) (bytes : Nat) : Frame α :=
  { frame with offset := bytes + frame.offset, items := frame.items.map (·.moved time bytes) }

namespace Progress

/-- The state of a phrase that is read inside of a bracket that is open around it. -/
def inside (progress : Progress α) (time : α) (bytes : Nat) (outer : Frame α) : Progress α where
  items := progress.items.map (·.moved time bytes)
  context := progress.context.moved time
  frames := progress.frames.map (·.moved time bytes) ++ [outer]

/-- A sound becomes the same item inside of the bracket, moved with the phrase. -/
theorem emit_inside (progress : Progress α) (sound : Sound) (offset : Nat) (time : α) (bytes : Nat)
    (outer : Frame α) :
    (progress.inside time bytes outer).emit sound (bytes + offset) =
      (progress.emit sound offset).inside time bytes outer := by
  -- Depth, offset and time of the item are those of the phrase alone, each moved by as much.
  have same : (progress.inside time bytes outer).context.emit sound
      (progress.inside time bytes outer).frames.length (bytes + offset) =
        (progress.context.emit sound progress.frames.length offset).moved time bytes := by
    simp only [inside, List.length_append, List.length_map, List.length_singleton]
    rfl
  rw [emit, same]
  exact congrArg (fun context => Progress.mk _ context _) (Context.after_moved ..)

/-- A token that is taken up by itself is taken up inside of the bracket with the same effect. -/
theorem step_inside {progress next : Progress α} {token : Token}
    (taken : progress.step token = .ok next)
    (untimed : ∀ key ∈ token.lexeme.keys, key ∉ Property.timeKeys)
    (time : α) (bytes : Nat) (outer : Frame α) :
    (progress.inside time bytes outer).step (token.moved bytes) =
      .ok (next.inside time bytes outer) := by
  obtain ⟨lexeme, offset⟩ := token
  cases lexeme with
  | pitch pitch =>
    cases taken
    exact congrArg _ (emit_inside ..)
  | rest =>
    cases taken
    exact congrArg _ (emit_inside ..)
  | opening bracket =>
    cases taken
    -- Whatever the bracket is, what is inside of it starts at the same place.
    cases bracket <;> rfl
  | closing bracket =>
    obtain ⟨items, context, frames⟩ := progress
    cases frames with
    | nil => contradiction
    | cons frame frames =>
      by_cases same : frame.bracket = bracket
      · obtain rfl : _ = next := Except.ok.inj ((if_pos same).symm.trans taken)
        refine (if_pos same).trans (congrArg Except.ok ?_)
        simp [inside, Frame.moved]
      · have refused := (if_neg same).symm.trans taken
        contradiction
  | properties body =>
    obtain ⟨items, context, frames⟩ := progress
    cases items with
    | nil => contradiction
    | cons item items =>
      obtain ⟨changed, assigned, same⟩ := bind_eq_ok.mp taken
      cases same
      have apart := fun assignment member =>
        untimed _ (List.mem_map_of_mem (a := assignment) member)
      have moved := Item.assignAll_moved assigned apart time bytes (bytes + offset + 1)
      refine bind_eq_ok.mpr ⟨_, moved, congrArg Except.ok ?_⟩
      exact congrArg (fun context => Progress.mk _ context _) (Context.after_moved ..)

/-- A phrase that is read by itself is read inside of the bracket with the same effect. -/
theorem take_inside {progress last : Progress α} {tokens : List Token}
    (taken : progress.take tokens = .ok last)
    (untimed : ∀ key ∈ tokens.flatMap fun token => token.lexeme.keys, key ∉ Property.timeKeys)
    (time : α) (bytes : Nat) (outer : Frame α) :
    (progress.inside time bytes outer).take (tokens.map (·.moved bytes)) =
      .ok (last.inside time bytes outer) := by
  -- The induction is on the tokens of the phrase, of which each keeps the two readings together.
  induction tokens generalizing progress with
  | nil =>
    cases taken
    rfl
  | cons token later ih =>
    obtain ⟨next, stepped, rest⟩ := bind_eq_ok.mp taken
    rw [List.flatMap_cons] at untimed
    obtain ⟨head, tail⟩ := List.forall_mem_append.mp untimed
    rw [List.map_cons, take, List.foldlM_cons, step_inside stepped head]
    exact ih rest tail

/-- A square bracket that opens leaves nothing to its phrase but the place that it opens at. -/
theorem enter_square {progress : Progress α} (outermost : progress.frames = [])
    (offset bytes : Nat) :
    progress.enter .square offset =
      (initial : Progress α).inside progress.context.nextStart bytes
        ⟨.square, offset, progress.items⟩ := by
  -- A square bracket resets all properties, so only the time that it opens at is left.
  have zero : (initial : Progress α).context.nextStart = 0 := Scalar.zero_eq
  have context : Context.startingAt progress.context.nextStart =
      (initial : Progress α).context.moved progress.context.nextStart := by
    rw [Context.moved, zero, add_zero]
    rfl
  rw [enter, outermost]
  exact congrArg (fun context => Progress.mk _ context _) context

end Progress

/-- Where items end in time: at the end of the last of them, or at zero if there is none. -/
def finishOf (items : List (Item α)) : α :=
  (items.getLast?.map Item.finish).getD 0

namespace Line

/-- The next item starts where the latest one ends. -/
def GoesOn (line : Line α) : Prop :=
  line.position = finishOf line.items.reverse

/-- The first item starts at zero. -/
theorem goesOn_initial : (initial : Line α).GoesOn :=
  Scalar.zero_eq

/-- The next item starts where the latest one ends, whichever tokens are taken up. -/
theorem GoesOn.step {line next : Line α} {token : Token} (settled : line.GoesOn)
    (taken : line.step token = .ok next) : next.GoesOn := by
  have latest (line : Line α) (item : Item α) (earlier : List (Item α)) :
      (line.goOn item earlier).GoesOn := by
    simp [GoesOn, goOn, finishOf, Item.finish]
  obtain ⟨lexeme, offset⟩ := token
  cases lexeme with
  | pitch pitch =>
    cases taken
    exact latest ..
  | rest =>
    cases taken
    exact latest ..
  | opening bracket =>
    -- A square bracket changes what is taken over, but not the place.
    cases bracket <;> cases taken <;> exact settled
  | closing bracket =>
    cases taken
    exact settled
  | properties body =>
    obtain ⟨items, position, duration, velocity, pan⟩ := line
    cases items with
    | nil => contradiction
    | cons item items =>
      obtain ⟨changed, _, same⟩ := bind_eq_ok.mp taken
      cases same
      exact latest ..

/-- The next item starts where the latest one ends, however many tokens have been taken up. -/
theorem GoesOn.foldlM {line last : Line α} {tokens : List Token} (settled : line.GoesOn)
    (taken : tokens.foldlM Line.step line = .ok last) : last.GoesOn := by
  -- Each step keeps what settles the line, whatever token it takes.
  induction tokens generalizing line with
  | nil =>
    cases taken
    exact settled
  | cons token later ih =>
    obtain ⟨next, stepped, rest⟩ := bind_eq_ok.mp taken
    exact ih (settled.step stepped) rest

end Line

/-- Items end where they end without regard to their brackets. -/
theorem finishOf_unnested (items : List (Item α)) :
    finishOf (items.map Item.unnested) = finishOf items := by
  rw [finishOf, finishOf, List.getLast?_map, Option.map_map]
  rfl

/-- A phrase is read up to its end with no bracket open and goes on where its last item ends. -/
theorem exists_of_region {tokens : List Token} {items : List (Item α)}
    (accepted : region tokens = .ok items) :
    ∃ last : Progress α, Progress.initial.take tokens = .ok last ∧ last.frames = [] ∧
      last.items.reverse = items ∧ last.context.nextStart = finishOf items := by
  rw [region, Progress.run_eq_take] at accepted
  -- At the end no bracket is open, so all items stand in one row.
  obtain ⟨last, taken, finished⟩ := bind_eq_ok.mp accepted
  obtain ⟨written, context, frames⟩ := last
  cases frames with
  | cons frame frames => contradiction
  | nil =>
    cases finished
    refine ⟨_, taken, rfl, rfl, ?_⟩
    have settled := Line.goesOn_initial.foldlM (Progress.line_take taken)
    simp only [Line.GoesOn, Progress.line, List.flatMap_nil, List.append_nil] at settled
    rw [settled, ← List.map_reverse, finishOf_unnested]

/-- A phrase in square brackets behind another one has the items that it has by itself, moved to
where the other one ends. -/
theorem region_bracketed {first second : List Token} {before phrase : List (Item α)}
    (accepted : region first = .ok before) (alone : region second = .ok phrase)
    (untimed : ∀ key ∈ second.flatMap fun token => token.lexeme.keys, key ∉ Property.timeKeys)
    (offset bytes close : Nat) :
    region (first ++ ⟨.opening .square, offset⟩ :: second.map (·.moved bytes) ++
        [⟨.closing .square, close⟩]) =
      .ok (before ++ phrase.map (·.moved (finishOf before) bytes)) := by
  obtain ⟨last, taken, outermost, rfl, place⟩ := exists_of_region accepted
  obtain ⟨inner, read, closed, rfl, _⟩ := exists_of_region alone
  rw [← place]
  let outer : Frame α := ⟨.square, offset, last.items⟩
  let moved := inner.items.map (·.moved last.context.nextStart bytes)
  -- The bracket opens where the first phrase ends, and the second one is read from there.
  have within := Progress.take_inside read untimed last.context.nextStart bytes outer
  rw [← Progress.enter_square outermost offset bytes] at within
  have opened : Progress.initial.take (first ++ ⟨.opening .square, offset⟩ :: second.map
      (·.moved bytes)) = .ok (inner.inside last.context.nextStart bytes outer) :=
    foldlM_append_eq_ok.mpr ⟨last, taken, within⟩
  -- No other bracket is open behind the second phrase, so that its own is closed.
  have left : (inner.inside last.context.nextStart bytes outer).leave .square close =
      .ok ⟨moved ++ last.items, inner.context.moved last.context.nextStart, []⟩ := by
    simp [Progress.leave, Progress.inside, closed, outer, moved]
  rw [region, Progress.run_eq_take]
  refine bind_eq_ok.mpr ⟨_, foldlM_append_eq_ok.mpr ⟨_, opened, bind_eq_ok.mpr ⟨_, left, rfl⟩⟩, ?_⟩
  simp [Progress.finish, moved]

/-- The items of a text without blanks and comments are those of its tokens that pass the checks. -/
theorem items_eq_ok_iff {text : String} (clean : strip text.toList = text.toList)
    {found : List (Item α)} :
    items text = .ok found ↔ ∃ words : List Word, text.toList = words.flatMap Word.spelling ∧
      region (Token.placed 0 words) = .ok found ∧
        ∀ item ∈ found, ∃ sound, soundOf? item = .ok sound := by
  have passes : (found.forM fun item => do let _ ← soundOf? item) = Except.ok () ↔
      ∀ item ∈ found, ∃ sound, soundOf? item = .ok sound := by
    rw [forM_eq_ok]
    exact forall₂_congr fun item _ => bind_eq_ok.trans
      ⟨fun ⟨sound, given, _⟩ => ⟨sound, given⟩, fun ⟨sound, given⟩ => ⟨sound, given, rfl⟩⟩
  rw [← passes]
  simp only [items, clean, bind_eq_ok]
  -- The tokens cut from the text are the words that spell it.
  constructor
  · rintro ⟨tokens, cut, read, accepted, _, checked, ⟨⟩⟩
    obtain ⟨words, written, rfl⟩ := Token.exists_of_read cut
    exact ⟨words, written, accepted, checked⟩
  · rintro ⟨words, written, accepted, checked⟩
    refine ⟨_, ?_, found, accepted, _, checked, rfl⟩
    rw [written]
    exact Token.read_words words 0

/-- A text in square brackets behind another one has the items that it has by itself, moved to where
the other one ends in time and in the text. -/
theorem items_bracketed {first second : String} {before phrase : List (Item α)}
    (bare : strip first.toList = first.toList) (plain : strip second.toList = second.toList)
    (accepted : items first = .ok before) (alone : items second = .ok phrase)
    (untimed : ∀ key ∈ assignedKeys second, key ∉ Property.timeKeys)
    (begins : 0 ≤ finishOf before) :
    items (first ++ "[" ++ second ++ "]") =
      .ok (before ++
        phrase.map (·.moved (finishOf before) (Text.byteLength first.toList + 1))) := by
  have joined : (first ++ "[" ++ second ++ "]").toList =
      first.toList ++ '[' :: (second.toList ++ [']']) := by
    simp
  have clean : strip (first ++ "[" ++ second ++ "]").toList =
      (first ++ "[" ++ second ++ "]").toList := by
    refine strip_of_clean ?_
    rw [joined, ← bare, ← plain]
    exact List.forall_mem_append.mpr ⟨strip_clean _, List.forall_mem_cons.mpr ⟨by decide,
      List.forall_mem_append.mpr ⟨strip_clean _, List.forall_mem_singleton.mpr (by decide)⟩⟩⟩
  obtain ⟨words, written, outside, checked⟩ := (items_eq_ok_iff bare).mp accepted
  obtain ⟨others, spelled, inside, passed⟩ := (items_eq_ok_iff plain).mp alone
  rw [assignedKeys_eq spelled] at untimed
  let bytes := Text.byteLength first.toList
  -- The words of the two texts stand around the bracket, each at its own place.
  have cut : Token.placed 0 (words ++ .opening .square :: (others ++ [.closing .square])) =
      Token.placed 0 words ++ ⟨.opening .square, bytes⟩ ::
        (Token.placed 0 others).map (·.moved (bytes + 1)) ++
          [⟨.closing .square, bytes + 1 + Text.byteLength second.toList⟩] := by
    have one : Text.byteLength (Word.opening .square).spelling = 1 := rfl
    simp only [bytes, written, spelled, Token.placed_append, Token.placed, ← Token.placed_add, one,
      Word.lexeme, Nat.zero_add, Nat.add_zero, List.append_assoc, List.cons_append]
  refine (items_eq_ok_iff clean).mpr
    ⟨words ++ .opening .square :: (others ++ [.closing .square]), ?_, ?_, ?_⟩
  · rw [joined, written, spelled, List.flatMap_append, List.flatMap_cons, List.flatMap_append]
    rfl
  · rw [cut]
    exact region_bracketed outside inside untimed _ _ _
  · refine List.forall_mem_append.mpr ⟨checked, List.forall_mem_map.mpr fun item member => ?_⟩
    obtain ⟨sound, passes⟩ := passed item member
    exact Item.soundOf?_moved passes begins _

/-- Square brackets isolate: a text that is read by itself and sets no start and no end is read in
square brackets behind another one with the same kinds, durations, velocities and pans, moved to
where the other one ends and inside of one more bracket, and of the other text nothing but that
place shows in it. -/
theorem square_brackets_isolate {first second : String} {before phrase : List (Item α)}
    (bare : strip first.toList = first.toList) (plain : strip second.toList = second.toList)
    (accepted : items first = .ok before) (alone : items second = .ok phrase)
    (untimed : ∀ key ∈ assignedKeys second, key ∉ Property.timeKeys)
    (begins : 0 ≤ finishOf before) :
    items (first ++ "[" ++ second ++ "]") =
        .ok (before ++
          phrase.map (·.moved (finishOf before) (Text.byteLength first.toList + 1))) ∧
      ∀ {other : String} {earlier : List (Item α)}, strip other.toList = other.toList →
        items other = .ok earlier → finishOf earlier = finishOf before →
          ∃ again, items (other ++ "[" ++ second ++ "]") = .ok (earlier ++ again) ∧
            again.map Item.bare =
              (phrase.map (·.moved (finishOf before) (Text.byteLength first.toList + 1))).map
                Item.bare := by
  refine ⟨items_bracketed bare plain accepted alone untimed begins, ?_⟩
  intro other earlier clean read same
  rw [← same] at begins ⊢
  refine ⟨_, items_bracketed clean plain read alone untimed begins, ?_⟩
  -- The length of the text before shows in the offsets alone.
  rw [List.map_map, List.map_map]
  rfl

/-- A note of half the velocity and a rest that goes back in time, from zero to a quarter. -/
def sampleBefore : List (Item ℚ) :=
  [⟨.note ⟨48⟩, 0, 1 / 2, 1 / 2, 0, 0, 0⟩, ⟨.rest, 1 / 2, -1 / 4, 1 / 2, 0, 0, 13⟩]

/-- A note and a group with a note on the left and a rest, one behind the other. -/
def samplePhrase : List (Item ℚ) :=
  [⟨.note ⟨50⟩, 0, 1 / 4, 1, 0, 0, 0⟩, ⟨.note ⟨52⟩, 1 / 4, 1 / 4, 1, -1, 1, 3⟩,
    ⟨.rest, 1 / 2, 1 / 8, 1, -1, 1, 11⟩]

/-- A phrase is the same behind the sample and behind a single note that ends at the same place. -/
theorem square_brackets_isolate_sample :
    items ("C4\x7bd:h,v:0.5\x7dR\x7bd:-q\x7d" ++ "[" ++ "D4(E4\x7bp:-1\x7dR)\x7bd:e\x7d" ++ "]") =
        .ok (sampleBefore ++
          samplePhrase.map fun item => @Item.moved ℚ ExactScalar.rational item (1 / 4) 21) ∧
      ∃ again : List (Item ℚ),
        items ("C4" ++ "[" ++ "D4(E4\x7bp:-1\x7dR)\x7bd:e\x7d" ++ "]") =
            .ok (⟨.note ⟨48⟩, 0, 1 / 4, 1, 0, 0, 0⟩ :: again) ∧
          again.map Item.bare =
            (samplePhrase.map fun item => @Item.moved ℚ ExactScalar.rational item (1 / 4) 21).map
              Item.bare := by
  have accepted : items (α := ℚ) "C4\x7bd:h,v:0.5\x7dR\x7bd:-q\x7d" = .ok sampleBefore := by cbv
  have alone : items (α := ℚ) "D4(E4\x7bp:-1\x7dR)\x7bd:e\x7d" = .ok samplePhrase := by cbv
  have single : items (α := ℚ) "C4" = .ok [⟨.note ⟨48⟩, 0, 1 / 4, 1, 0, 0, 0⟩] := by cbv
  -- The bracketed text assigns nothing that sets a time.
  have keys : assignedKeys "D4(E4\x7bp:-1\x7dR)\x7bd:e\x7d" = ["p", "d"] := by cbv
  have place : @finishOf ℚ ExactScalar.rational sampleBefore = 1 / 4 := by cbv
  have later : (0 : ℚ) ≤ @finishOf ℚ ExactScalar.rational sampleBefore := by
    rw [place]
    norm_num
  obtain ⟨read, same⟩ := @square_brackets_isolate ℚ ExactScalar.rational _ _ _ _ (by cbv) (by cbv)
    accepted alone (by rw [keys]; decide) later
  rw [place] at read same
  exact ⟨read, same (by cbv) single (by cbv)⟩

end Melody.Notation
