import Melody.Proofs.Notation.Line

/-! Phrases can be read by descent, where every bracket that opens starts a reading of its own. -/

namespace Melody.Notation

variable {α : Type}

/-- The items of one region, latest first, with what follows on them and what is left to read. -/
abbrev Region (α : Type) (tokens : List Token) : Type :=
  Except (Error α)
    (List (Item α) × Context α × { rest : List Token // rest.length ≤ tokens.length })

/-- What is left of the end of some tokens is left of all of them. -/
def Region.within {rest tokens : List Token} (shorter : rest.length ≤ tokens.length) :
    Region α rest → Region α tokens
  | .error error => .error error
  | .ok (items, context, ⟨last, bound⟩) => .ok (items, context, ⟨last, Nat.le_trans bound shorter⟩)

variable [Scalar α]

/-- What is inside a bracket starts with. -/
def Bracket.context (bracket : Bracket) (context : Context α) : Context α :=
  match bracket with
  | round => context
  | square => .startingAt context.nextStart

/-- Reads on after some items up to the bracket that closes an open one, or up to the end. -/
def descend (depth : Nat) (opened : Option (Bracket × Nat)) (items : List (Item α))
    (context : Context α) (tokens : List Token) : Region α tokens :=
  match tokens with
  | [] =>
    match opened with
    | some (bracket, offset) => .error (.unclosed offset bracket.opening)
    | none => .ok (items, context, ⟨[], Nat.le_refl _⟩)
  | token :: later =>
    match token.lexeme with
    | .pitch pitch =>
      let item := context.emit (.note pitch) depth token.offset
      (descend depth opened (item :: items) (context.after item) later).within (Nat.le_succ _)
    | .rest =>
      let item := context.emit .rest depth token.offset
      (descend depth opened (item :: items) (context.after item) later).within (Nat.le_succ _)
    | .opening bracket =>
      match descend (depth + 1) (some (bracket, token.offset)) [] (bracket.context context)
        later with
      | .error error => .error error
      | .ok (group, after, ⟨rest, shorter⟩) =>
        -- The region goes on behind the bracket that closed the group.
        (descend depth opened (group ++ items) after rest).within (Nat.le_succ_of_le shorter)
    | .closing bracket =>
      match opened with
      | some (expected, _) =>
        if expected = bracket then .ok (items, context, ⟨later, Nat.le_succ _⟩)
        else .error (.mismatched token.offset expected.closing bracket.closing)
      | none => .error (.unexpectedClose token.offset bracket.closing)
    | .properties body =>
      match items with
      | [] => .error (.danglingProperties token.offset)
      | item :: before =>
        match item.assignAll (token.offset + 1) (Text.pieces ',' body) with
        | .error error => .error error
        | .ok changed =>
          (descend depth opened (changed :: before) (context.after changed) later).within
            (Nat.le_succ _)
termination_by tokens.length
decreasing_by all_goals (simp only [List.length_cons]; omega)

/-- The items of a list of tokens, read by descent into brackets. -/
def nested (tokens : List Token) : Except (Error α) (List (Item α)) :=
  (descend 0 none [] (.startingAt 0.0) tokens).map fun found => found.1.reverse

/-- What comes after a region, once it has been read up to its end or to its closing bracket. -/
def Region.resume {tokens : List Token} (region : Region α tokens) (frames : List (Frame α)) :
    Except (Error α) (List (Item α)) :=
  match region, frames with
  | .error error, _ => .error error
  | .ok (items, _, _), [] => .ok items.reverse
  | .ok (items, context, ⟨rest, _⟩), frame :: outer =>
    Progress.run ⟨items ++ frame.items, context, outer⟩ rest

/-- A region goes on in the same way whichever tokens its rest is counted among. -/
@[simp] theorem Region.resume_within {rest tokens : List Token}
    (shorter : rest.length ≤ tokens.length) (region : Region α rest) (frames : List (Frame α)) :
    (region.within shorter).resume frames = region.resume frames := by
  cases region with
  | error error => cases frames <;> rfl
  | ok found => cases frames <;> rfl

/-- Reading with brackets kept aside is reading a region and then what comes after it. -/
theorem run_eq_descend (tokens : List Token) (items : List (Item α)) (context : Context α)
    (frames : List (Frame α)) :
    Progress.run ⟨items, context, frames⟩ tokens =
      (descend frames.length (frames.head?.map fun frame => (frame.bracket, frame.offset)) items
        context tokens).resume frames := by
  -- The induction is on the number of tokens, for a group leaves any part of them.
  induction count : tokens.length using Nat.strongRecOn
    generalizing tokens items context frames with
  | ind count ih =>
    subst count
    cases tokens with
    | nil =>
      rw [descend.eq_def]
      cases frames <;> rfl
    | cons token later =>
      have next : ∀ items context frames, Progress.run ⟨items, context, frames⟩ later =
          (descend frames.length (frames.head?.map fun frame => (frame.bracket, frame.offset))
            items context later).resume frames := fun items context frames =>
        ih later.length (Nat.lt_succ_self _) later items context frames rfl
      obtain ⟨lexeme, offset⟩ := token
      rw [descend.eq_def, Progress.run]
      unfold Progress.step
      cases lexeme with
      | pitch pitch =>
        simp only [Region.resume_within]
        exact next _ _ frames
      | rest =>
        simp only [Region.resume_within]
        exact next _ _ frames
      | opening bracket =>
        -- Keeping the bracket aside is reading the group first, as the hypothesis says of it.
        have inside := next [] (bracket.context context) (⟨bracket, offset, items⟩ :: frames)
        refine Eq.trans (show _ = _ from inside) ?_
        simp only [List.length_cons, List.head?_cons, Option.map_some]
        cases read : descend (frames.length + 1) (some (bracket, offset)) []
            (bracket.context context) later with
        | error error => cases frames <;> rfl
        | ok found =>
          obtain ⟨group, after, rest, shorter⟩ := found
          -- What follows the group is shorter, so the hypothesis holds of it as well.
          have behind := ih rest.length (Nat.lt_succ_of_le shorter) rest (group ++ items) after
            frames rfl
          simp only [Region.resume_within]
          exact behind
      | closing bracket =>
        cases frames with
        | nil => rfl
        | cons frame outer =>
          by_cases same : frame.bracket = bracket
          · simp only [Progress.leave, List.head?_cons, Option.map_some, if_pos same]
            rfl
          · simp only [Progress.leave, List.head?_cons, Option.map_some, if_neg same]
            rfl
      | properties body =>
        cases items with
        | nil => cases frames <;> rfl
        | cons item before =>
          cases assigned : item.assignAll (offset + 1) (Text.pieces ',' body) with
          | error error =>
            simp only [Progress.edit, assigned]
            cases frames <;> rfl
          | ok changed =>
            simp only [Progress.edit, assigned, Region.resume_within]
            exact next _ _ frames

/-- Phrases are read as by descent into brackets. -/
theorem region_eq_nested (tokens : List Token) : region (α := α) tokens = nested tokens := by
  have whole := run_eq_descend (α := α) tokens [] (.startingAt 0.0) []
  refine Eq.trans (show region tokens = _ from whole) ?_
  -- Nothing is open, so the region that is read is all there is.
  show (descend 0 none [] (.startingAt 0.0) tokens).resume [] = _
  rw [nested]
  cases descend 0 none [] (.startingAt (0.0 : α)) tokens <;> rfl

end Melody.Notation
