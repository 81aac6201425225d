import Melody.Proofs.Notation.Line

/-! Brackets nest when they form a balanced word, and every item knows how many are open around. -/

namespace Melody.Notation

namespace Lexeme

/-- A bracket of either kind that opens or closes. -/
def isBracket : Lexeme → Bool
  | opening _ => true
  | closing _ => true
  | _ => false

/-- What a lexeme sounds like, if it is a note or rest. -/
def sound? : Lexeme → Option Sound
  | pitch sounding => some (.note sounding)
  | rest => some .rest
  | _ => none

end Lexeme

/-- The brackets among some tokens form a balanced word over the two kinds. -/
inductive Balanced : List Token → Prop where
  | nil : Balanced []
  /-- Tokens that are no brackets may stand anywhere. -/
  | plain {token : Token} {later : List Token} (plain : token.lexeme.isBracket = false)
      (behind : Balanced later) : Balanced (token :: later)
  /-- A bracket is closed by one of its kind, with a balanced word between the two. -/
  | group {bracket : Bracket} {offset place : Nat} {inside later : List Token}
      (within : Balanced inside) (behind : Balanced later) :
      Balanced (⟨.opening bracket, offset⟩ :: (inside ++ ⟨.closing bracket, place⟩ :: later))

/-- The brackets that are open behind some tokens, innermost first, and the tokens in the last. -/
inductive Enclosed : List Token → List (Bracket × Nat) → List Token → Prop where
  /-- No bracket is open behind a balanced word. -/
  | outer {inside : List Token} (balanced : Balanced inside) : Enclosed inside [] inside
  /-- A bracket is still open when what stands behind it is balanced. -/
  | inner {before outside inside : List Token} {opened : List (Bracket × Nat)}
      {bracket : Bracket} {offset : Nat} (enclosed : Enclosed before opened outside)
      (balanced : Balanced inside) :
      Enclosed (before ++ ⟨.opening bracket, offset⟩ :: inside) ((bracket, offset) :: opened) inside

/-- A note or rest as it is written: its sound, its place and the number of brackets around it. -/
structure Mark where
  sound : Sound
  offset : Nat
  depth : Nat
deriving DecidableEq, Repr

/-- The notes and rests of some tokens in their order, with some brackets open at the start. -/
def marks (depth : Nat) : List Token → List Mark
  | [] => []
  | token :: later =>
    match token.lexeme with
    | .pitch pitch => ⟨.note pitch, token.offset, depth⟩ :: marks depth later
    | .rest => ⟨.rest, token.offset, depth⟩ :: marks depth later
    | .opening _ => marks (depth + 1) later
    | .closing _ => marks (depth - 1) later
    | .properties _ => marks depth later

/-- There is a mark for every note and rest. -/
theorem marks_eq_nil {depth : Nat} {tokens : List Token} :
    marks depth tokens = [] ↔ ∀ token ∈ tokens, token.lexeme.sound? = none := by
  -- The number of brackets around a token changes its mark, but not whether it has one.
  induction tokens generalizing depth with
  | nil => simp [marks]
  | cons token later ih =>
    rw [List.forall_mem_cons]
    unfold marks
    cases token.lexeme <;> simp [Lexeme.sound?, ih]

namespace Balanced

variable {inside later : List Token}

/-- Balanced words in a row are balanced. -/
theorem append (balanced : Balanced inside) (behind : Balanced later) :
    Balanced (inside ++ later) := by
  -- The induction is on the first word, whose last group the second one follows.
  induction balanced with
  | nil => exact behind
  | plain plain _ ih => exact .plain plain ih
  | @group bracket offset place inside later within _ _ ih =>
    have joined : Balanced (⟨.opening bracket, offset⟩ :: (inside ++ ⟨.closing bracket, place⟩ ::
        (later ++ _))) := .group within ih
    simpa using joined

/-- One token that is no bracket is balanced. -/
theorem single {token : Token} (plain : token.lexeme.isBracket = false) : Balanced [token] :=
  .plain plain .nil

/-- Behind a balanced word as many brackets are open as before it. -/
theorem marks_append (balanced : Balanced inside) (depth : Nat) (later : List Token) :
    marks depth (inside ++ later) = marks depth inside ++ marks depth later := by
  -- Each bracket that opens is closed within the word, so the count comes back to where it was.
  induction balanced generalizing depth later with
  | nil => rfl
  | @plain token rest plain _ ih =>
    obtain ⟨lexeme, offset⟩ := token
    cases lexeme with
    | opening bracket => contradiction
    | closing bracket => contradiction
    | pitch pitch => exact congrArg _ (ih depth later)
    | rest => exact congrArg _ (ih depth later)
    | properties body => exact ih depth later
  | @group bracket offset place inside behind _ _ within after =>
    -- The brackets of a group count for what is inside them alone.
    have outer : ∀ rest, marks depth (⟨.opening bracket, offset⟩ ::
        (inside ++ ⟨.closing bracket, place⟩ :: rest)) =
          marks (depth + 1) inside ++ marks depth rest := fun rest => within (depth + 1) _
    rw [List.cons_append, List.append_assoc, List.cons_append, outer, outer, after,
      List.append_assoc]

/-- The brackets of a group count for what is inside them alone. -/
theorem marks_group (balanced : Balanced inside) (bracket : Bracket) (offset place depth : Nat)
    (later : List Token) :
    marks depth (⟨.opening bracket, offset⟩ :: (inside ++ ⟨.closing bracket, place⟩ :: later)) =
      marks (depth + 1) inside ++ marks depth later :=
  balanced.marks_append (depth + 1) _

end Balanced

namespace Enclosed

variable {before inside more : List Token} {opened : List (Bracket × Nat)}

/-- A balanced word leaves open what was open before. -/
theorem append (enclosed : Enclosed before opened inside) (balanced : Balanced more) :
    Enclosed (before ++ more) opened (inside ++ more) := by
  cases enclosed with
  | outer first => exact .outer (first.append balanced)
  | @inner before outside inside opened bracket offset enclosed first =>
    rw [List.append_assoc, List.cons_append]
    exact .inner enclosed (first.append balanced)

/-- A bracket that opens is the innermost one. -/
theorem opening (enclosed : Enclosed before opened inside) (bracket : Bracket) (offset : Nat) :
    Enclosed (before ++ [⟨.opening bracket, offset⟩]) ((bracket, offset) :: opened) [] :=
  .inner enclosed .nil

/-- A bracket that closes the innermost one leaves those around it open. -/
theorem closing {bracket : Bracket} {offset : Nat}
    (enclosed : Enclosed before ((bracket, offset) :: opened) inside) (place : Nat) :
    ∃ outside, Enclosed (before ++ [⟨.closing bracket, place⟩]) opened outside := by
  cases enclosed with
  | @inner before outside inside opened bracket offset enclosed balanced =>
    -- What is inside the bracket, and the two brackets with it, form a group.
    have group : Balanced (⟨.opening bracket, offset⟩ ::
        (inside ++ ⟨.closing bracket, place⟩ :: [])) := .group balanced .nil
    have longer := enclosed.append group
    exact ⟨_, by simpa using longer⟩

/-- Nothing is open behind balanced tokens only. -/
theorem eq_of_nil (enclosed : Enclosed before [] inside) : inside = before ∧ Balanced before := by
  cases enclosed with
  | outer balanced => exact ⟨rfl, balanced⟩

end Enclosed

variable {α : Type} [Scalar α]

namespace Item

/-- The note or rest that an item stands for. -/
def mark (item : Item α) : Mark :=
  ⟨item.sound, item.offset, item.depth⟩

/-- An assignment keeps the sound of an item. -/
theorem sound_of_assign {item next : Item α} {offset : Nat} {assignment : List Char}
    (assigned : item.assign offset assignment = .ok next) : next.sound = item.sound := by
  -- A property is any of those that an item has besides its sound.
  unfold assign at assigned
  split at assigned
  · cases assigned
    rfl
  · contradiction
  · dsimp only at assigned
    split at assigned
    · contradiction
    · split at assigned
      · cases assigned
        rename_i property _ _ _ _
        cases property <;> rfl
      · contradiction

/-- Assignments keep what is written of an item. -/
theorem mark_of_assignAll {item next : Item α} {offset : Nat} {assignments : List (List Char)}
    (assigned : item.assignAll offset assignments = .ok next) : next.mark = item.mark := by
  -- What is written is the sound, which no assignment changes, and the place.
  have sound : next.sound = item.sound := by
    induction assignments generalizing item offset with
    | nil =>
      cases assigned
      rfl
    | cons assignment later ih =>
      obtain ⟨middle, first, rest⟩ := bind_eq_ok.mp assigned
      exact (ih rest).trans (sound_of_assign first)
  rw [eq_placed_of_assignAll assigned]
  unfold mark placed
  rw [sound]

end Item

/-- The kind and the place of an open bracket. -/
def Frame.key (frame : Frame α) : Bracket × Nat :=
  (frame.bracket, frame.offset)

/-- A balanced word leaves the open brackets as they are and an item for each of its marks. -/
theorem Balanced.take {inside : List Token} (balanced : Balanced inside)
    {progress last : Progress α} (taken : progress.take inside = .ok last) :
    last.frames = progress.frames ∧ last.items.map Item.mark =
      (marks progress.frames.length inside).reverse ++ progress.items.map Item.mark := by
  -- The induction is on the word, and the inside of a group is taken up with one frame more.
  induction balanced generalizing progress last with
  | nil =>
    cases taken
    exact ⟨rfl, rfl⟩
  | @plain token later plain _ ih =>
    obtain ⟨next, stepped, rest⟩ := bind_eq_ok.mp taken
    obtain ⟨frames, items⟩ := ih rest
    obtain ⟨lexeme, offset⟩ := token
    cases lexeme with
    | opening bracket => contradiction
    | closing bracket => contradiction
    | pitch pitch =>
      cases stepped
      exact ⟨frames, by rw [items]; simp [Progress.emit, marks, Context.emit, Item.mark]⟩
    | rest =>
      cases stepped
      exact ⟨frames, by rw [items]; simp [Progress.emit, marks, Context.emit, Item.mark]⟩
    | properties body =>
      -- The item that the block changes keeps its mark.
      obtain ⟨written, context, opened⟩ := progress
      cases written with
      | nil => contradiction
      | cons item before =>
        obtain ⟨changed, assigned, same⟩ := bind_eq_ok.mp stepped
        cases same
        exact ⟨frames, by rw [items]; simp [marks, Item.mark_of_assignAll assigned]⟩
  | @group bracket offset place inside later nested _ within after =>
    obtain ⟨entered, opened, rest⟩ := bind_eq_ok.mp taken
    cases opened
    obtain ⟨left, inner, rest⟩ := foldlM_append_eq_ok.mp rest
    obtain ⟨closed, stepped, behind⟩ := bind_eq_ok.mp rest
    obtain ⟨frames, items⟩ := within inner
    obtain ⟨found, context, still⟩ := left
    cases frames
    -- The bracket that closes is of the same kind, and the items join those before it.
    have joined : closed = ⟨found ++ progress.items, context, progress.frames⟩ := by
      simp only [Progress.step, Progress.leave, if_pos] at stepped
      exact (Except.ok.inj stepped).symm
    subst joined
    obtain ⟨frames, others⟩ := after behind
    refine ⟨frames, ?_⟩
    rw [others, List.map_append, items, nested.marks_group, List.reverse_append]
    simp [Progress.enter]

end Melody.Notation
