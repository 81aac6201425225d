import Mathlib
import Melody.Proofs.Notation.Nesting
import Melody.Proofs.Scalar.Exact

/-! Phrases are well bracketed tokens whose blocks apply, and the first token amiss is to blame. -/

namespace Melody.Notation

variable {α : Type} [Scalar α]

/-- A note or rest stands behind the innermost bracket that is open, maybe in a closed group. -/
def Sounding (before : List Token) : Prop :=
  ∃ opened inside, Enclosed before opened inside ∧ ∃ token ∈ inside, token.lexeme.sound? ≠ none

/-- The latest item of some tokens, as a pass over them without brackets leaves it. -/
def Latest (before : List Token) (item : Item α) : Prop :=
  ∃ line : Line α, before.foldlM Line.step Line.initial = .ok line ∧ line.items.head? = some item

/-- A block behind some tokens has an item to change, and its assignments apply to it. -/
structure Applies (α : Type) [Scalar α] (before : List Token) (body : List Char) (offset : Nat) :
    Prop where
  sounding : Sounding before
  assigned : ∃ item next : Item α, Latest before item ∧
    item.assignAll (offset + 1) (Text.pieces ',' body) = .ok next

/-- What is wrong with a token that may not stand behind some others. -/
inductive Breaks (before : List Token) : Token → Error α → Prop where
  /-- No bracket is open that could be closed. -/
  | unopened {inside : List Token} {bracket : Bracket} {offset : Nat}
      (enclosed : Enclosed before [] inside) :
      Breaks before ⟨.closing bracket, offset⟩ (.unexpectedClose offset bracket.closing)
  /-- The innermost open bracket is of the other kind. -/
  | mismatched {inside : List Token} {opened : List (Bracket × Nat)} {expected bracket : Bracket}
      {place offset : Nat} (enclosed : Enclosed before ((expected, place) :: opened) inside)
      (other : expected ≠ bracket) :
      Breaks before ⟨.closing bracket, offset⟩
        (.mismatched offset expected.closing bracket.closing)
  /-- Nothing behind the innermost open bracket can be changed. -/
  | dangling {inside : List Token} {opened : List (Bracket × Nat)} {body : List Char}
      {offset : Nat} (enclosed : Enclosed before opened inside)
      (silent : ∀ token ∈ inside, token.lexeme.sound? = none) :
      Breaks before ⟨.properties body, offset⟩ (.danglingProperties offset)
  /-- An assignment does not apply to the item that is to be changed. -/
  | assignment {body : List Char} {offset : Nat} {item : Item α} {error : Error α}
      (sounding : Sounding before) (latest : Latest before item)
      (failed : item.assignAll (offset + 1) (Text.pieces ',' body) = .error error) :
      Breaks before ⟨.properties body, offset⟩ error

/-- No token breaks a rule. -/
def Faultless (α : Type) [Scalar α] (tokens : List Token) : Prop :=
  ∀ before token after, tokens = before ++ token :: after →
    ∀ error : Error α, ¬ Breaks before token error

/-- The first token that breaks a rule has this error, or a bracket is left open at the end. -/
inductive Blames (tokens : List Token) : Error α → Prop where
  | token {before after : List Token} {token : Token} {error : Error α}
      (split : tokens = before ++ token :: after) (first : Faultless α before)
      (breaks : Breaks before token error) : Blames tokens error
  | unclosed {inside : List Token} {opened : List (Bracket × Nat)} {bracket : Bracket}
      {offset : Nat} (faultless : Faultless α tokens)
      (enclosed : Enclosed tokens ((bracket, offset) :: opened) inside) :
      Blames tokens (.unclosed offset bracket.opening)

section Reached

variable {before inside : List Token} {opened : List (Bracket × Nat)} {progress : Progress α}

/-- What is open behind some tokens, and the items inside, are those of the state they leave. -/
theorem Enclosed.take (enclosed : Enclosed before opened inside)
    (reached : Progress.initial.take before = .ok progress) :
    progress.frames.map Frame.key = opened ∧
      progress.items.map Item.mark = (marks opened.length inside).reverse := by
  -- The brackets are entered one by one, from the outermost on.
  induction enclosed generalizing progress with
  | outer balanced =>
    obtain ⟨frames, items⟩ := balanced.take reached
    exact ⟨by rw [frames]; rfl, by simpa [Progress.initial] using items⟩
  | @inner before outside inside opened bracket offset _ balanced ih =>
    obtain ⟨middle, first, rest⟩ := foldlM_append_eq_ok.mp reached
    obtain ⟨entered, stepped, within⟩ := bind_eq_ok.mp rest
    cases stepped
    obtain ⟨keys, _⟩ := ih first
    obtain ⟨frames, items⟩ := balanced.take within
    have length : middle.frames.length = opened.length := by rw [← keys, List.length_map]
    refine ⟨?_, ?_⟩
    · rw [frames, ← keys]
      rfl
    · simpa [Progress.enter, length] using items

/-- Some brackets are open behind tokens that have been taken up. -/
theorem enclosed_of_take (reached : Progress.initial.take before = .ok progress) :
    ∃ inside, Enclosed before (progress.frames.map Frame.key) inside := by
  -- The induction is on the last token, which opens or closes a bracket or does neither.
  induction before using List.reverseRecOn generalizing progress with
  | nil =>
    cases reached
    exact ⟨[], .outer .nil⟩
  | append_singleton before token ih =>
    obtain ⟨middle, first, rest⟩ := foldlM_append_eq_ok.mp reached
    obtain ⟨last, stepped, same⟩ := bind_eq_ok.mp rest
    cases same
    obtain ⟨inside, enclosed⟩ := ih first
    obtain ⟨lexeme, offset⟩ := token
    cases lexeme with
    | opening bracket =>
      cases stepped
      exact ⟨_, enclosed.opening bracket offset⟩
    | closing bracket =>
      obtain ⟨items, context, frames⟩ := middle
      cases frames with
      | nil => contradiction
      | cons frame outer =>
        by_cases same : frame.bracket = bracket
        · subst same
          simp only [Progress.step, Progress.leave, if_pos] at stepped
          cases stepped
          exact enclosed.closing offset
        · simp only [Progress.step, Progress.leave, if_neg same] at stepped
          contradiction
    | pitch pitch =>
      cases stepped
      exact ⟨_, enclosed.append (.single rfl)⟩
    | rest =>
      cases stepped
      exact ⟨_, enclosed.append (.single rfl)⟩
    | properties body =>
      obtain ⟨items, context, frames⟩ := middle
      cases items with
      | nil => contradiction
      | cons item items =>
        obtain ⟨changed, _, same⟩ := bind_eq_ok.mp stepped
        cases same
        exact ⟨_, enclosed.append (.single rfl)⟩

/-- No item has been left inside a bracket exactly when no note or rest stands there. -/
theorem Enclosed.items_eq_nil (enclosed : Enclosed before opened inside)
    (reached : Progress.initial.take before = .ok progress) :
    progress.items = [] ↔ ∀ token ∈ inside, token.lexeme.sound? = none := by
  -- The items inside are those of its marks, in the opposite order.
  have items := (enclosed.take reached).2
  have silent : marks opened.length inside = [] ↔ ∀ token ∈ inside, token.lexeme.sound? = none :=
    marks_eq_nil
  rw [← silent, ← List.map_eq_nil_iff (f := Item.mark), items, List.reverse_eq_nil_iff]

/-- Items have been left since the innermost open bracket when a note or rest stands there. -/
theorem sounding_iff (reached : Progress.initial.take before = .ok progress) :
    Sounding before ↔ progress.items ≠ [] := by
  -- All ways to cut the tokens at their open brackets leave the same items inside.
  constructor
  · rintro ⟨opened, inside, enclosed, token, member, sounds⟩ none
    exact sounds ((enclosed.items_eq_nil reached).mp none token member)
  · intro some
    obtain ⟨inside, enclosed⟩ := enclosed_of_take reached
    have sounds := mt (enclosed.items_eq_nil reached).mpr some
    simp only [not_forall] at sounds
    obtain ⟨token, member, sounds⟩ := sounds
    exact ⟨_, inside, enclosed, token, member, sounds⟩

/-- The latest item since the innermost open bracket is the latest item anywhere. -/
theorem latest_iff (reached : Progress.initial.take before = .ok progress) {item other : Item α}
    {items : List (Item α)} (written : progress.items = item :: items) :
    Latest before other ↔ other = item.unnested := by
  -- The pass without brackets ends with the items of all the frames in a row.
  have passed : before.foldlM Line.step Line.initial = .ok progress.line :=
    Progress.line_take reached
  have head : progress.line.items.head? = some item.unnested := by simp [Progress.line, written]
  constructor
  · rintro ⟨line, again, latest⟩
    rw [passed] at again
    cases again
    exact Option.some.inj (latest.symm.trans head)
  · rintro rfl
    exact ⟨_, passed, head⟩

/-- A block changes the latest item if its assignments apply. -/
theorem edit_cons {item : Item α} {items : List (Item α)} (written : progress.items = item :: items)
    (body : List Char) (offset : Nat) :
    progress.edit body offset =
      match item.assignAll (offset + 1) (Text.pieces ',' body) with
      | .error error => .error error
      | .ok changed =>
        .ok ⟨changed :: items, progress.context.after changed, progress.frames⟩ := by
  rw [Progress.edit, written]
  cases assigned : item.assignAll (offset + 1) (Text.pieces ',' body) with
  | error error => simp [assigned, bind, Except.bind]
  | ok changed => simp [assigned, bind, Except.bind, pure, Except.pure]

/-- A block is taken up exactly when it applies. -/
theorem edit_eq_ok_iff (reached : Progress.initial.take before = .ok progress) {body : List Char}
    {offset : Nat} :
    (∃ next, progress.edit body offset = .ok next) ↔ Applies α before body offset := by
  -- The block needs an item to change, and its assignments do not look at the place of it.
  constructor
  · rintro ⟨next, taken⟩
    cases written : progress.items with
    | nil =>
      rw [Progress.edit, written] at taken
      contradiction
    | cons item items =>
      rw [edit_cons written] at taken
      cases assigned : item.assignAll (offset + 1) (Text.pieces ',' body) with
      | error error =>
        rw [assigned] at taken
        contradiction
      | ok changed =>
        have moved := Item.assignAll_placed assigned 0 item.offset (offset + 1)
        exact ⟨(sounding_iff reached).mpr (written ▸ List.cons_ne_nil _ _), _, _,
          (latest_iff reached written).mpr rfl, moved⟩
  · rintro ⟨sounding, other, changed, found, succeeded⟩
    obtain ⟨item, items, written⟩ := List.exists_cons_of_ne_nil ((sounding_iff reached).mp sounding)
    obtain rfl := (latest_iff reached written).mp found
    -- What applies to the item of the pass without brackets applies to the item itself.
    rw [Item.unnested, Item.assignAll_placed_eq] at succeeded
    rw [edit_cons written]
    cases assigned : item.assignAll (offset + 1) (Text.pieces ',' body) with
    | error error =>
      rw [assigned] at succeeded
      contradiction
    | ok next => exact ⟨_, rfl⟩

/-- A block is refused exactly when it breaks a rule, and for that reason. -/
theorem edit_eq_error_iff (reached : Progress.initial.take before = .ok progress)
    {body : List Char} {offset : Nat} {error : Error α} :
    progress.edit body offset = .error error ↔ Breaks before ⟨.properties body, offset⟩ error := by
  -- Either nothing is there to be changed, or the first assignment that fails gives its error.
  constructor
  · intro refused
    cases written : progress.items with
    | nil =>
      rw [Progress.edit, written] at refused
      cases refused
      obtain ⟨inside, enclosed⟩ := enclosed_of_take reached
      exact .dangling enclosed ((enclosed.items_eq_nil reached).mp written)
    | cons item items =>
      have moved := Item.assignAll_placed_eq item (offset + 1) (Text.pieces ',' body) 0 item.offset
      rw [edit_cons written] at refused
      cases assigned : item.assignAll (offset + 1) (Text.pieces ',' body) with
      | error cause =>
        rw [assigned] at refused moved
        cases refused
        exact .assignment ((sounding_iff reached).mpr (written ▸ List.cons_ne_nil _ _))
          ((latest_iff reached written).mpr rfl) moved
      | ok changed =>
        rw [assigned] at refused
        contradiction
  · intro breaks
    cases breaks with
    | dangling enclosed silent =>
      rw [Progress.edit, (enclosed.items_eq_nil reached).mpr silent]
    | assignment sounding latest failed =>
      obtain ⟨item, items, written⟩ :=
        List.exists_cons_of_ne_nil ((sounding_iff reached).mp sounding)
      obtain rfl := (latest_iff reached written).mp latest
      rw [Item.unnested, Item.assignAll_placed_eq] at failed
      rw [edit_cons written]
      cases assigned : item.assignAll (offset + 1) (Text.pieces ',' body) with
      | error cause =>
        rw [assigned] at failed
        cases failed
        rfl
      | ok changed =>
        rw [assigned] at failed
        contradiction

/-- A token is refused exactly when it breaks a rule, and for that reason. -/
theorem step_eq_error_iff (reached : Progress.initial.take before = .ok progress) {token : Token}
    {error : Error α} : progress.step token = .error error ↔ Breaks before token error := by
  -- Only blocks and brackets that close can be refused, the latter by the innermost open one.
  obtain ⟨lexeme, offset⟩ := token
  cases lexeme with
  | pitch pitch => exact ⟨nofun, nofun⟩
  | rest => exact ⟨nofun, nofun⟩
  | opening bracket => exact ⟨nofun, nofun⟩
  | properties body => exact edit_eq_error_iff reached
  | closing bracket =>
    constructor
    · intro refused
      obtain ⟨inside, enclosed⟩ := enclosed_of_take reached
      cases opened : progress.frames with
      | nil =>
        rw [opened] at enclosed
        simp only [Progress.step, Progress.leave, opened] at refused
        cases refused
        exact .unopened enclosed
      | cons frame outer =>
        rw [opened] at enclosed
        by_cases same : frame.bracket = bracket
        · simp only [Progress.step, Progress.leave, opened, if_pos same] at refused
          contradiction
        · simp only [Progress.step, Progress.leave, opened, if_neg same] at refused
          cases refused
          exact .mismatched enclosed same
    · intro breaks
      cases breaks with
      | unopened enclosed =>
        have none := List.map_eq_nil_iff.mp (enclosed.take reached).1
        simp only [Progress.step, Progress.leave, none]
      | mismatched enclosed other =>
        obtain ⟨frame, outer, opened, key, _⟩ := List.map_eq_cons_iff.mp (enclosed.take reached).1
        have kind : frame.bracket = _ := congrArg Prod.fst key
        subst kind
        simp only [Progress.step, Progress.leave, opened, if_neg other]

end Reached

variable {tokens : List Token}

/-- Tokens are taken up one by one exactly when none of them breaks a rule. -/
theorem faultless_iff :
    Faultless α tokens ↔ ∃ progress : Progress α, Progress.initial.take tokens = .ok progress := by
  -- Up to its first fault a phrase is taken up, so the state that a fault is judged by exists.
  constructor
  · intro faultless
    cases taken : Progress.initial.take (α := α) tokens with
    | ok progress => exact ⟨progress, rfl⟩
    | error error =>
      obtain ⟨before, token, after, progress, split, reached, refused⟩ := foldlM_eq_error.mp taken
      exact absurd ((step_eq_error_iff reached).mp refused)
        (faultless before token after split error)
  · rintro ⟨progress, taken⟩ before token after rfl error breaks
    obtain ⟨middle, reached, rest⟩ := foldlM_append_eq_ok.mp taken
    obtain ⟨next, stepped, _⟩ := bind_eq_ok.mp rest
    rw [(step_eq_error_iff reached).mpr breaks] at stepped
    contradiction

/-- The error of a phrase is that of its first token amiss, or of a bracket left open. -/
theorem region_eq_error_iff {error : Error α} :
    region tokens = .error error ↔ Blames tokens error := by
  -- The pass stops at the first token that is refused, or it looks at the frames left at the end.
  rw [region, Progress.run_eq_take]
  constructor
  · intro failed
    cases taken : Progress.initial.take (α := α) tokens with
    | error cause =>
      rw [taken] at failed
      cases failed
      obtain ⟨before, token, after, progress, split, reached, refused⟩ := foldlM_eq_error.mp taken
      exact .token split (faultless_iff.mpr ⟨_, reached⟩) ((step_eq_error_iff reached).mp refused)
    | ok progress =>
      rw [taken] at failed
      obtain ⟨inside, enclosed⟩ := enclosed_of_take taken
      replace failed : progress.finish = .error error := failed
      unfold Progress.finish at failed
      cases opened : progress.frames with
      | nil =>
        rw [opened] at failed
        contradiction
      | cons frame outer =>
        rw [opened] at failed enclosed
        cases failed
        exact .unclosed (faultless_iff.mpr ⟨_, taken⟩) enclosed
  · intro blames
    cases blames with
    | token split first breaks =>
      obtain ⟨progress, reached⟩ := faultless_iff.mp first
      have taken : Progress.initial.take tokens = .error error :=
        foldlM_eq_error.mpr
          ⟨_, _, _, progress, split, reached, (step_eq_error_iff reached).mpr breaks⟩
      rw [taken]
      rfl
    | unclosed faultless enclosed =>
      obtain ⟨progress, taken⟩ := faultless_iff.mp faultless
      obtain ⟨frame, outer, opened, key, _⟩ := List.map_eq_cons_iff.mp (enclosed.take taken).1
      rw [taken]
      show progress.finish = _
      cases key
      rw [Progress.finish, opened]

/-- Balanced tokens are taken up behind others when their blocks apply. -/
theorem Balanced.taken {inside : List Token} (balanced : Balanced inside) {before : List Token}
    {progress : Progress α} (reached : Progress.initial.take before = .ok progress)
    (applies : ∀ front body offset back, inside = front ++ ⟨.properties body, offset⟩ :: back →
      Applies α (before ++ front) body offset) :
    ∃ last, progress.take inside = .ok last := by
  -- The brackets of a balanced word meet their own frames, and its blocks apply where they stand.
  induction balanced generalizing before progress with
  | nil => exact ⟨progress, rfl⟩
  | @plain token later plain _ ih =>
    have stepped : ∃ next, progress.step token = .ok next := by
      obtain ⟨lexeme, offset⟩ := token
      cases lexeme with
      | opening bracket => contradiction
      | closing bracket => contradiction
      | pitch pitch => exact ⟨_, rfl⟩
      | rest => exact ⟨_, rfl⟩
      | properties body =>
        have here := applies [] body offset later rfl
        rw [List.append_nil] at here
        exact (edit_eq_ok_iff reached).mpr here
    obtain ⟨next, stepped⟩ := stepped
    have onward : Progress.initial.take (before ++ [token]) = .ok next :=
      foldlM_append_eq_ok.mpr ⟨progress, reached, bind_eq_ok.mpr ⟨next, stepped, rfl⟩⟩
    obtain ⟨last, taken⟩ := ih onward fun front body offset back split => by
      have behind := applies (token :: front) body offset back (congrArg _ split)
      simpa using behind
    exact ⟨last, bind_eq_ok.mpr ⟨next, stepped, taken⟩⟩
  | @group bracket offset place inside later nested _ within after =>
    have entered : Progress.initial.take (before ++ [⟨.opening bracket, offset⟩]) =
        .ok (progress.enter bracket offset) :=
      foldlM_append_eq_ok.mpr ⟨progress, reached, rfl⟩
    obtain ⟨inner, taken⟩ := within entered fun front body other back split => by
      have behind := applies (⟨.opening bracket, offset⟩ :: front) body other
        (back ++ ⟨.closing bracket, place⟩ :: later) (by rw [split]; simp)
      simpa using behind
    -- The bracket that closes finds the one that has been opened before the group.
    obtain ⟨frames, _⟩ := nested.take taken
    obtain ⟨closed, stepped⟩ : ∃ closed, inner.step ⟨.closing bracket, place⟩ = .ok closed := by
      simp only [Progress.step, Progress.leave, frames, Progress.enter, if_pos]
      exact ⟨_, rfl⟩
    have group : Progress.initial.take (before ++ ⟨.opening bracket, offset⟩ ::
        (inside ++ [⟨.closing bracket, place⟩])) = .ok closed :=
      foldlM_append_eq_ok.mpr ⟨progress, reached, bind_eq_ok.mpr ⟨_, rfl,
        foldlM_append_eq_ok.mpr ⟨inner, taken, bind_eq_ok.mpr ⟨closed, stepped, rfl⟩⟩⟩⟩
    obtain ⟨last, behind⟩ := after group fun front body other back split => by
      have behind := applies (⟨.opening bracket, offset⟩ :: (inside ++
        ⟨.closing bracket, place⟩ :: front)) body other back (by rw [split]; simp)
      simpa using behind
    exact ⟨last, bind_eq_ok.mpr ⟨_, rfl, foldlM_append_eq_ok.mpr ⟨inner, taken,
      bind_eq_ok.mpr ⟨closed, stepped, behind⟩⟩⟩⟩

/-- A phrase is accepted exactly when its brackets are balanced and all of its blocks apply. -/
theorem region_eq_ok_iff :
    (∃ items : List (Item α), region tokens = .ok items) ↔ Balanced tokens ∧
      ∀ before body offset after, tokens = before ++ ⟨.properties body, offset⟩ :: after →
        Applies α before body offset := by
  constructor
  · -- Reading to the end without a fault leaves no bracket open and applies all properties.
    rintro ⟨items, accepted⟩
    rw [region, Progress.run_eq_take] at accepted
    obtain ⟨progress, taken, finished⟩ := bind_eq_ok.mp accepted
    refine ⟨?_, ?_⟩
    · obtain ⟨inside, enclosed⟩ := enclosed_of_take taken
      cases opened : progress.frames with
      | nil =>
        rw [opened] at enclosed
        exact enclosed.eq_of_nil.2
      | cons frame outer =>
        rw [Progress.finish, opened] at finished
        contradiction
    · rintro before body offset after rfl
      obtain ⟨middle, reached, rest⟩ := foldlM_append_eq_ok.mp taken
      obtain ⟨next, stepped, _⟩ := bind_eq_ok.mp rest
      exact (edit_eq_ok_iff reached).mp ⟨next, stepped⟩
  · -- Balanced words are taken one by one, and the last of them leaves no bracket open.
    rintro ⟨balanced, applies⟩
    have start : Progress.initial.take (α := α) [] = .ok .initial := rfl
    obtain ⟨last, taken⟩ := balanced.taken start fun front body offset back split =>
      applies front body offset back split
    have closed : last.frames = [] := (balanced.take taken).1
    refine ⟨last.items.reverse, ?_⟩
    rw [region, Progress.run_eq_take, taken]
    show last.finish = _
    rw [Progress.finish, closed]

/-- An accepted phrase has an item for each note and rest, under the brackets that are open. -/
theorem marks_of_region {items : List (Item α)} (accepted : region tokens = .ok items) :
    items.map Item.mark = marks 0 tokens := by
  -- The items are collected in the opposite order and turned around at the end.
  have balanced := (region_eq_ok_iff.mp ⟨items, accepted⟩).1
  rw [region, Progress.run_eq_take] at accepted
  obtain ⟨progress, taken, finished⟩ := bind_eq_ok.mp accepted
  obtain ⟨frames, written⟩ := balanced.take taken
  rw [Progress.finish, frames] at finished
  cases finished
  rw [List.map_reverse, written]
  simp [Progress.initial]

/-- Phrases are accepted for their brackets and blocks, and are refused for the first fault. -/
theorem region_accepts (tokens : List Token) :
    ((∃ items : List (Item α), region tokens = .ok items) ↔ Balanced tokens ∧
      ∀ before body offset after, tokens = before ++ ⟨.properties body, offset⟩ :: after →
        Applies α before body offset) ∧
    (∀ items : List (Item α), region tokens = .ok items → items.map Item.mark = marks 0 tokens) ∧
    ∀ error : Error α, region tokens = .error error ↔ Blames tokens error :=
  ⟨region_eq_ok_iff, fun _ => marks_of_region, fun _ => region_eq_error_iff⟩

/-- A note in a group whose block stands behind it, before a rest in square brackets. -/
def closedTokens : List Token :=
  [⟨.opening .round, 0⟩, ⟨.pitch ⟨48⟩, 1⟩, ⟨.closing .round, 3⟩,
    ⟨.properties ['d', ':', 'h'], 4⟩, ⟨.opening .square, 9⟩, ⟨.rest, 10⟩, ⟨.closing .square, 11⟩]

/-- A group that is closed by a bracket of the other kind, before a block that nothing precedes. -/
def crossedTokens : List Token :=
  [⟨.opening .square, 0⟩, ⟨.opening .round, 1⟩, ⟨.pitch ⟨48⟩, 2⟩, ⟨.closing .square, 4⟩,
    ⟨.opening .square, 5⟩, ⟨.properties ['d', ':', 'h'], 6⟩]

/-- The closed phrase has its two marks, and the crossed one is blamed for its first fault. -/
theorem region_accepts_closed :
    (∃ items : List (Item ℚ), region closedTokens = .ok items ∧
      items.map Item.mark = [⟨.note ⟨48⟩, 1, 1⟩, ⟨.rest, 10, 1⟩]) ∧
    Balanced closedTokens ∧ Blames (α := ℚ) crossedTokens (.mismatched 4 ')' ']') := by
  -- Both texts are read by evaluation; the rules follow from what reading them gives.
  obtain ⟨accepts, marked, _⟩ := region_accepts (α := ℚ) closedTokens
  have accepted : (region (α := ℚ) closedTokens).isOk = true := by cbv
  obtain ⟨items, read⟩ := exists_of_isOk accepted
  have refused : region (α := ℚ) crossedTokens = .error (.mismatched 4 ')' ']') := by cbv
  exact ⟨⟨items, read, marked items read⟩, (accepts.mp ⟨items, read⟩).1,
    ((region_accepts crossedTokens).2.2 _).mp refused⟩

end Melody.Notation
