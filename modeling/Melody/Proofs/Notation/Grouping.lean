import Melody.Proofs.Notation.Descent

/-! Round brackets only group: a text without them has the same notes and rests. -/

namespace Melody.Notation

variable {α : Type}

/-- A round bracket of a group. -/
def Lexeme.isRound : Lexeme → Bool
  | opening .round => true
  | closing .round => true
  | _ => false

/-- The item without regard to the text that it was written in. -/
def Item.bare (item : Item α) : Item α :=
  { item with depth := 0, offset := 0 }

/-- Items and open brackets go with others that have no round bracket open. -/
inductive Merged : List (Item α) → List (Frame α) → List (Item α) → List (Frame α) → Prop where
  /-- No bracket is open. -/
  | outer {items others : List (Item α)} (same : items.map Item.bare = others.map Item.bare) :
      Merged items [] others []
  /-- The items before a round bracket count among those inside it. -/
  | round {items before others : List (Item α)} {frames kept : List (Frame α)} {offset : Nat}
      (joined : Merged (items ++ before) frames others kept) :
      Merged items (⟨.round, offset, before⟩ :: frames) others kept
  /-- The items before a square bracket are kept apart from those inside it. -/
  | square {items before others earlier : List (Item α)} {frames kept : List (Frame α)}
      {offset place : Nat} (same : items.map Item.bare = others.map Item.bare)
      (outside : Merged before frames earlier kept) :
      Merged items (⟨.square, offset, before⟩ :: frames) others (⟨.square, place, earlier⟩ :: kept)

namespace Merged

variable {items before others earlier : List (Item α)} {frames kept : List (Frame α)}

/-- Items that are the same may be added on both sides. -/
theorem append (merged : Merged before frames earlier kept) :
    ∀ {items others : List (Item α)}, items.map Item.bare = others.map Item.bare →
      Merged (items ++ before) frames (others ++ earlier) kept := by
  -- The items are carried along through the round brackets up to the first square one.
  induction merged with
  | outer same =>
    intro items others equal
    exact .outer (by rw [List.map_append, List.map_append, equal, same])
  | round _ ih =>
    intro items others equal
    have joined := ih equal
    rw [← List.append_assoc] at joined
    exact .round joined
  | square same outside _ =>
    intro items others equal
    exact .square (by rw [List.map_append, List.map_append, equal, same]) outside

/-- One item may follow that is the same on both sides. -/
theorem cons (merged : Merged before frames earlier kept) {item other : Item α}
    (same : item.bare = other.bare) : Merged (item :: before) frames (other :: earlier) kept := by
  have equal : [item].map Item.bare = [other].map Item.bare := by simp [same]
  exact merged.append equal

/-- The latest item is the same on both sides and may be changed there alike. -/
theorem latest {item : Item α} (merged : Merged (item :: items) frames others kept) :
    ∃ other rest, others = other :: rest ∧ other.bare = item.bare ∧
      Merged items frames rest kept := by
  generalize whole : item :: items = all at merged
  -- The latest item stands in front of both lists, whichever brackets are around it.
  induction merged generalizing items with
  | outer same =>
    subst whole
    obtain ⟨other, rest, rfl, first, later⟩ := List.map_eq_cons_iff.mp same.symm
    exact ⟨other, rest, rfl, first, .outer later.symm⟩
  | round _ ih =>
    subst whole
    obtain ⟨other, rest, rfl, first, later⟩ := ih rfl
    exact ⟨other, rest, rfl, first, .round later⟩
  | square same outside =>
    subst whole
    obtain ⟨other, rest, rfl, first, later⟩ := List.map_eq_cons_iff.mp same.symm
    exact ⟨other, rest, rfl, first, .square later.symm outside⟩

end Merged

variable [Scalar α]

/-- Two readings of which the second has met no round brackets. -/
structure Alike (progress other : Progress α) : Prop where
  context : other.context = progress.context
  merged : Merged progress.items progress.frames other.items other.frames

namespace Alike

variable {progress next other : Progress α}

/-- Both readings start alike. -/
theorem initial : Alike (.initial : Progress α) .initial :=
  ⟨rfl, .outer rfl⟩

/-- A sound becomes the same item in both readings. -/
theorem emit (alike : Alike progress other) (sound : Sound) (offset place : Nat) :
    Alike (progress.emit sound offset) (other.emit sound place) := by
  -- Both have the same context, and where an item stands is not compared.
  have same : (other.context.emit sound other.frames.length place).bare =
      (progress.context.emit sound progress.frames.length offset).bare := by
    rw [alike.context]
    rfl
  refine ⟨?_, ?_⟩
  · show other.context.after _ = progress.context.after _
    rw [alike.context]
    rfl
  · exact alike.merged.cons same.symm

/-- A round bracket makes no difference to the reading that does not meet it. -/
theorem round (alike : Alike progress other) {token : Token} (round : token.lexeme.isRound = true)
    (taken : progress.step token = .ok next) : Alike next other := by
  obtain ⟨lexeme, offset⟩ := token
  -- Only the two round brackets need a word, and neither changes what sounds.
  cases lexeme with
  | opening bracket =>
    cases bracket with
    | round =>
      cases taken
      exact ⟨alike.context, .round alike.merged⟩
    | square => contradiction
  | closing bracket =>
    cases bracket with
    | round =>
      obtain ⟨items, context, frames⟩ := progress
      cases frames with
      | nil => contradiction
      | cons frame frames =>
        obtain ⟨bracket, place, before⟩ := frame
        cases bracket with
        | square => contradiction
        | round =>
          cases taken
          have merged := alike.merged
          cases merged with
          | round joined => exact ⟨alike.context, joined⟩
    | square => contradiction
  | pitch pitch => contradiction
  | rest => contradiction
  | properties body => contradiction

/-- Every other token is taken up by both readings, at whatever place it stands. -/
theorem step (alike : Alike progress other) {lexeme : Lexeme} {offset : Nat}
    (plain : lexeme.isRound = false) (taken : progress.step ⟨lexeme, offset⟩ = .ok next)
    (place : Nat) : ∃ last, other.step ⟨lexeme, place⟩ = .ok last ∧ Alike next last := by
  cases lexeme with
  | pitch pitch =>
    cases taken
    exact ⟨_, rfl, alike.emit _ _ _⟩
  | rest =>
    cases taken
    exact ⟨_, rfl, alike.emit _ _ _⟩
  | opening bracket =>
    cases bracket with
    | round => contradiction
    | square =>
      cases taken
      refine ⟨_, rfl, ?_, .square rfl alike.merged⟩
      show Context.startingAt other.context.nextStart = .startingAt progress.context.nextStart
      rw [alike.context]
  | closing bracket =>
    obtain ⟨items, context, frames⟩ := progress
    obtain ⟨others, same, kept⟩ := other
    obtain ⟨rfl, merged⟩ := alike
    dsimp only at merged
    cases bracket with
    | round => contradiction
    | square =>
      cases merged with
      | outer _ => contradiction
      | round _ => contradiction
      | square inside outside =>
        -- The items inside join those before the bracket on both sides.
        cases taken
        exact ⟨_, rfl, rfl, outside.append inside⟩
  | properties body =>
    obtain ⟨items, context, frames⟩ := progress
    obtain ⟨others, same, kept⟩ := other
    obtain ⟨rfl, merged⟩ := alike
    dsimp only at merged
    cases items with
    | nil => contradiction
    | cons item before =>
      obtain ⟨changed, assigned, equal⟩ := bind_eq_ok.mp taken
      cases equal
      obtain ⟨latest, rest, rfl, bare, outside⟩ := merged.latest
      -- What is assigned to one item can be assigned to the other, which differs by its place.
      have moved := Item.assignAll_placed assigned latest.depth latest.offset (place + 1)
      have here : item.placed latest.depth latest.offset = latest := by
        cases item
        cases latest
        simp_all [Item.bare, Item.placed]
      rw [here] at moved
      refine ⟨_, bind_eq_ok.mpr ⟨_, moved, rfl⟩, rfl, ?_⟩
      exact outside.cons rfl

/-- Tokens are read with the same items when the round brackets among them are left out. -/
theorem run (alike : Alike progress other) {tokens others : List Token} {found : List (Item α)}
    (read : progress.run tokens = .ok found)
    (same : others.map Token.lexeme = (tokens.map Token.lexeme).filter fun lexeme =>
      !lexeme.isRound) :
    ∃ kept, other.run others = .ok kept ∧ kept.map Item.bare = found.map Item.bare := by
  -- The induction is on the tokens with the brackets, some of which the other reading skips.
  induction tokens generalizing progress other others with
  | nil =>
    have none : others = [] := by simpa using same
    subst none
    obtain ⟨items, context, frames⟩ := progress
    obtain ⟨ours, _, kept⟩ := other
    have merged := alike.merged
    cases merged with
    | outer equal =>
      cases read
      exact ⟨_, rfl, by rw [List.map_reverse, List.map_reverse, equal]⟩
    | round _ => contradiction
    | square _ _ => contradiction
  | cons token later ih =>
    obtain ⟨next, taken, rest⟩ := bind_eq_ok.mp read
    by_cases round : token.lexeme.isRound = true
    · have skipped : others.map Token.lexeme = (later.map Token.lexeme).filter fun lexeme =>
          !lexeme.isRound := by simpa [round] using same
      exact ih (alike.round round taken) rest skipped
    · have plain : token.lexeme.isRound = false := by simpa using round
      rw [List.map_cons, List.filter_cons_of_pos (by simp [plain])] at same
      obtain ⟨first, others, rfl, lexeme, behind⟩ := List.map_eq_cons_iff.mp same
      obtain ⟨_, place⟩ := first
      subst lexeme
      obtain ⟨last, stepped, still⟩ := alike.step plain taken place
      obtain ⟨kept, finished, equal⟩ := ih still rest behind
      exact ⟨kept, bind_eq_ok.mpr ⟨last, stepped, finished⟩, equal⟩

end Alike

end Melody.Notation
