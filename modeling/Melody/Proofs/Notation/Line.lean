import Melody.Notation.Phrase
import Melody.Proofs.Outcome

/-! Phrases are read in one pass that keeps no brackets, only what runs on from item to item. -/

namespace Melody.Notation

variable {α : Type} [Scalar α]

namespace Item

/-- The item at another place and under another number of brackets. -/
def placed (item : Item α) (depth offset : Nat) : Item α :=
  { item with depth, offset }

/-- The item without regard to the brackets around it. -/
def unnested (item : Item α) : Item α :=
  item.placed 0 item.offset

/-- What an assignment does is the same at every place of the text. -/
theorem assign_placed {item next : Item α} {offset : Nat} {assignment : List Char}
    (assigned : item.assign offset assignment = .ok next) (depth place other : Nat) :
    (item.placed depth place).assign other assignment = .ok (next.placed depth place) := by
  -- The place shows in the faults only, and here none of them arose.
  unfold assign at assigned ⊢
  split at assigned
  · cases assigned
    rfl
  · contradiction
  · dsimp only at assigned ⊢
    -- Names in the expression stand for the same values, wherever the item is.
    have scope : (item.placed depth place).scope = item.scope := rfl
    rw [scope]
    split at assigned
    · contradiction
    · split at assigned
      · cases assigned
        rename_i property _ _ _ _
        cases property <;> rfl
      · contradiction

/-- What assignments do is the same at every place of the text. -/
theorem assignAll_placed {item next : Item α} {offset : Nat} {assignments : List (List Char)}
    (assigned : item.assignAll offset assignments = .ok next) (depth place other : Nat) :
    (item.placed depth place).assignAll other assignments = .ok (next.placed depth place) := by
  -- The assignments go one after the other, each to the item that the last one left.
  induction assignments generalizing item offset other with
  | nil =>
    cases assigned
    rfl
  | cons assignment later ih =>
    obtain ⟨middle, first, rest⟩ := bind_eq_ok.mp assigned
    rw [assignAll, assign_placed first]
    exact ih rest _

/-- Assignments fail alike wherever the item is, with faults at the place of the text. -/
theorem assignAll_placed_eq (item : Item α) (offset : Nat) (assignments : List (List Char))
    (depth place : Nat) :
    (item.placed depth place).assignAll offset assignments =
      (item.assignAll offset assignments).map (·.placed depth place) := by
  induction assignments generalizing item offset with
  | nil => rfl
  | cons assignment later ih =>
    have first : (item.placed depth place).assign offset assignment =
        (item.assign offset assignment).map (·.placed depth place) := by
      unfold assign
      -- Names in the expression stand for the same values, wherever the item is.
      have scope : (item.placed depth place).scope = item.scope := rfl
      rw [scope]
      split
      · rfl
      · rfl
      · dsimp only
        split
        · rfl
        · split
          · rename_i property _ _ _ _
            cases property <;> rfl
          · rfl
    rw [assignAll, assignAll, first]
    cases item.assign offset assignment with
    | error error => rfl
    | ok next => exact ih next _

/-- Assignments leave an item at its place. -/
theorem eq_placed_of_assignAll {item next : Item α} {offset : Nat} {assignments : List (List Char)}
    (assigned : item.assignAll offset assignments = .ok next) :
    next = next.placed item.depth item.offset := by
  have again := assignAll_placed assigned item.depth item.offset offset
  exact Except.ok.inj (assigned.symm.trans again)

end Item

/-- The state of a single pass: all items so far, latest first, with the place of the next one and
the properties that it starts with. -/
structure Line (α : Type) where
  items : List (Item α)
  position : α
  duration : α
  velocity : α
  pan : α
deriving DecidableEq, Repr

namespace Line

/-- Nothing has been read. -/
def initial : Line α :=
  ⟨[], 0.0, 0.25, 1.0, 0.0⟩

/-- Goes on at the end of an item with its properties, except for a duration that is not
positive. -/
def goOn (line : Line α) (item : Item α) (earlier : List (Item α)) : Line α where
  items := item :: earlier
  position := item.start + item.duration
  duration := if 0.0 < item.duration then item.duration else line.duration
  velocity := item.velocity
  pan := item.pan

/-- Adds an item for a sound. -/
def emit (line : Line α) (sound : Sound) (offset : Nat) : Line α :=
  line.goOn ⟨sound, line.position, line.duration, line.velocity, line.pan, 0, offset⟩ line.items

/-- Changes the properties of the latest item anywhere. -/
def edit (line : Line α) (body : List Char) (offset : Nat) : Except (Error α) (Line α) :=
  match line.items with
  | [] => .error (.danglingProperties offset)
  | item :: items => do
    let item ← item.assignAll (offset + 1) (Text.pieces ',' body)
    return line.goOn item items

/-- Takes up one token, where a square bracket that opens is the only bracket that matters. -/
def step (line : Line α) (token : Token) : Except (Error α) (Line α) :=
  match token.lexeme with
  | .pitch pitch => .ok (line.emit (.note pitch) token.offset)
  | .rest => .ok (line.emit .rest token.offset)
  | .opening .square => .ok { line with duration := 0.25, velocity := 1.0, pan := 0.0 }
  | .opening .round => .ok line
  | .closing _ => .ok line
  | .properties body => line.edit body token.offset

end Line

/-- The items of a list of tokens, read in one pass without regard to nesting. -/
def flat (tokens : List Token) : Except (Error α) (List (Item α)) := do
  let line ← tokens.foldlM Line.step Line.initial
  return line.items.reverse

namespace Progress

/-- All items of a phrase so far, latest first, with what the next one takes over. -/
def line (progress : Progress α) : Line α where
  items := (progress.items ++ progress.frames.flatMap Frame.items).map Item.unnested
  position := progress.context.nextStart
  duration := progress.context.duration
  velocity := progress.context.velocity
  pan := progress.context.pan

/-- A sound becomes the same item whether brackets are kept or not. -/
theorem line_emit (progress : Progress α) (sound : Sound) (offset : Nat) :
    (progress.emit sound offset).line = progress.line.emit sound offset :=
  rfl

/-- The pass without brackets keeps up with every token that is taken up. -/
theorem line_step {progress next : Progress α} {token : Token}
    (taken : progress.step token = .ok next) : progress.line.step token = .ok next.line := by
  unfold step at taken
  unfold Line.step
  cases lexeme : token.lexeme with
  | pitch pitch =>
    rw [lexeme] at taken
    cases taken
    exact congrArg Except.ok (progress.line_emit ..).symm
  | rest =>
    rw [lexeme] at taken
    cases taken
    exact congrArg Except.ok (progress.line_emit ..).symm
  | opening bracket =>
    -- The items before the bracket move to its frame, where they still count.
    rw [lexeme] at taken
    cases taken
    cases bracket <;> simp [line, enter, Context.startingAt]
  | closing bracket =>
    rw [lexeme] at taken
    dsimp only [leave] at taken
    cases opened : progress.frames with
    | nil =>
      rw [opened] at taken
      contradiction
    | cons frame frames =>
      rw [opened] at taken
      by_cases same : frame.bracket = bracket
      · -- The items of the frame come back behind the ones inside the bracket.
        simp only [if_pos same, Except.ok.injEq] at taken
        subst taken
        simp [line, opened]
      · simp only [if_neg same] at taken
        contradiction
  | properties body =>
    rw [lexeme] at taken
    dsimp only [edit] at taken
    cases written : progress.items with
    | nil =>
      rw [written] at taken
      contradiction
    | cons item items =>
      rw [written] at taken
      obtain ⟨changed, assigned, same⟩ := bind_eq_ok.mp taken
      cases same
      -- The latest item since the bracket is also the latest item anywhere.
      have moved := Item.assignAll_placed assigned 0 item.offset (token.offset + 1)
      have kept : changed.offset = item.offset := by
        rw [Item.eq_placed_of_assignAll assigned]
        rfl
      simp only [line, written, List.cons_append, List.map_cons, Line.edit, Item.unnested, moved,
        kept]
      rfl

/-- Reading some tokens leaves a state, in which brackets may be open. -/
def take (progress : Progress α) (tokens : List Token) : Except (Error α) (Progress α) :=
  tokens.foldlM step progress

/-- All tokens are taken up before the items are given. -/
theorem run_eq_take (progress : Progress α) (tokens : List Token) :
    progress.run tokens = progress.take tokens >>= finish := by
  induction tokens generalizing progress with
  | nil => rfl
  | cons token later ih =>
    rw [run, take, List.foldlM_cons, bind_assoc]
    exact bind_congr fun next => ih next

/-- The pass without brackets keeps up with all tokens that are taken up. -/
theorem line_take {progress last : Progress α} {tokens : List Token}
    (taken : progress.take tokens = .ok last) :
    tokens.foldlM Line.step progress.line = .ok last.line := by
  -- The induction is on the tokens, with the state that the tokens before have left.
  induction tokens generalizing progress with
  | nil =>
    cases taken
    rfl
  | cons token later ih =>
    obtain ⟨next, stepped, rest⟩ := bind_eq_ok.mp taken
    rw [List.foldlM_cons, line_step stepped]
    exact ih rest

/-- The pass without brackets ends with the items of the phrase. -/
theorem foldlM_line {progress : Progress α} {tokens : List Token} {items : List (Item α)}
    (accepted : progress.run tokens = .ok items) :
    ∃ line, tokens.foldlM Line.step progress.line = .ok line ∧
      line.items.reverse = items.map Item.unnested := by
  rw [run_eq_take] at accepted
  obtain ⟨last, taken, finished⟩ := bind_eq_ok.mp accepted
  refine ⟨last.line, line_take taken, ?_⟩
  -- Nothing is open at the end, so all items are at hand.
  cases opened : last.frames with
  | nil =>
    rw [finish, opened] at finished
    cases finished
    simp [line, opened]
  | cons frame frames =>
    rw [finish, opened] at finished
    contradiction

end Progress

/-- A phrase that is read has the items of one pass without brackets. -/
theorem flat_of_region {tokens : List Token} {items : List (Item α)}
    (accepted : region tokens = .ok items) : flat tokens = .ok (items.map Item.unnested) := by
  obtain ⟨last, passed, same⟩ := Progress.foldlM_line accepted
  rw [← same, flat]
  exact bind_eq_ok.mpr ⟨last, passed, rfl⟩

end Melody.Notation
