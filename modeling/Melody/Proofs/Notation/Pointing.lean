import Melody.Proofs.Notation.Acceptance
import Melody.Proofs.Notation.Failing
import Melody.Proofs.Notation.Words
import Melody.Proofs.Text.Place

/-! Every fault of notation has its place within the text, where the text has what it names. -/

namespace Melody.Notation

variable {α : Type} {written more rest : List Char} {offset : Nat} {error : Error α}

/-- What a fault names of the text, which is nothing if it tells only what is missing there. -/
def Error.named : Error α → List Char
  | .unknownCharacter _ found => [found]
  | .invalidPitch _ name => name
  | .unclosed _ opening => [opening]
  | .unexpectedClose _ found => [found]
  | .mismatched _ _ found => [found]
  | .danglingProperties _ => [openBrace]
  | .missingValue _ => []
  | .unknownProperty _ key => key
  | .expression _ (.unknownVariable name) => name
  | .expression _ _ => []
  | .invalidValue _ _ => []

/-- A fault, but not one of a value, has its place within a text, which has there what the fault
names. -/
structure Error.PointsInto (written : List Char) (error : Error α) : Prop where
  shows : Text.Shows written error.offset error.named
  valueless : error.cause? = none

namespace Lexeme

/-- A block is blamed on the brace that opens it or on the first one that is opened inside. -/
theorem points_of_scanBlock (goesOn : Text.GoesOn written offset (openBrace :: more))
    (refused : scanBlock offset more = .error error) : error.PointsInto written := by
  have whole := List.takeWhile_append_dropWhile (p := (· ≠ closeBrace)) (l := more)
  unfold scanBlock at refused
  split at refused
  · cases refused
    exact ⟨goesOn.shows (List.cons_ne_nil _ _) (List.prefix_append [openBrace] more), rfl⟩
  · rename_i brace after closed
    dsimp only at refused
    split at refused
    · contradiction
    · rename_i nested later found
      cases refused
      -- What stands in front of the inner brace has no other one.
      have inside := List.takeWhile_append_dropWhile (p := (· ≠ openBrace))
        (l := more.takeWhile (· ≠ closeBrace))
      rw [found] at inside
      rw [← whole, ← inside, List.append_assoc, ← List.cons_append] at goesOn
      have behind := goesOn.behind
      rw [Text.byteLength_cons, show openBrace.utf8Size = 1 from rfl, ← Nat.add_assoc] at behind
      exact ⟨behind.shows (List.cons_ne_nil _ _) (List.prefix_append [nested] _), rfl⟩

/-- A lexeme is blamed on what it begins with, if it is no block. -/
theorem points_of_scan {first : Char} (goesOn : Text.GoesOn written offset (first :: more))
    (refused : scan offset first more = .error error) : error.PointsInto written := by
  have present : first :: more ≠ [] := List.cons_ne_nil _ _
  have here : [first] <+: first :: more := List.prefix_append [first] more
  unfold scan at refused
  -- Brackets and rests are never refused.
  iterate 4 (split at refused; contradiction)
  split at refused
  · rename_i opening
    subst opening
    exact points_of_scanBlock goesOn refused
  split at refused
  · cases refused
    exact ⟨goesOn.shows present here, rfl⟩
  split at refused
  · contradiction
  split at refused
  · unfold scanPitch at refused
    split at refused
    · contradiction
    · cases refused
      exact ⟨goesOn.shows present
        (List.cons_prefix_cons.mpr ⟨rfl, List.takeWhile_prefix isPitchPart⟩), rfl⟩
  · cases refused
    exact ⟨goesOn.shows present here, rfl⟩

end Lexeme

namespace Token

/-- A text that cannot be cut into tokens is blamed on what stands behind the last of them. -/
theorem points_of_read {text : List Char} (goesOn : Text.GoesOn written offset text)
    (refused : read offset text = .error error) : error.PointsInto written := by
  -- The induction is on the length of the text, of which each token takes a word.
  induction count : text.length using Nat.strongRecOn generalizing text offset with
  | ind count ih =>
    subst count
    cases text with
    | nil =>
      rw [read.eq_def] at refused
      contradiction
    | cons first more =>
      rw [read_cons] at refused
      rcases bind_eq_error.mp refused with head | ⟨⟨lexeme, after⟩, scanned, tail⟩
      · exact Lexeme.points_of_scan goesOn head
      · obtain ⟨word, rfl, rfl, rfl⟩ := Lexeme.exists_of_scan scanned
        dsimp only at tail
        rw [byteLength_sub] at tail
        rcases bind_eq_error.mp tail with later | ⟨_, _, done⟩
        · have shorter : after.length < (word.head :: (word.tail ++ after)).length := by
            simp only [List.length_cons, List.length_append]
            omega
          have behind : Text.GoesOn written (offset + Text.byteLength word.spelling) after :=
            goesOn.behind
          exact ih after.length shorter behind later rfl
        · contradiction

/-- Where a token stands, the text goes on with a word for it. -/
theorem goesOn_of_mem_placed {words : List Word} {token : Token}
    (goesOn : Text.GoesOn written offset (words.flatMap Word.spelling))
    (member : token ∈ placed offset words) :
    ∃ (word : Word) (rest : List Char), word.lexeme = token.lexeme ∧
      Text.GoesOn written token.offset (word.spelling ++ rest) := by
  -- The text goes on behind each word as it did, so the later words stand where they are placed.
  induction words generalizing offset with
  | nil => contradiction
  | cons word later ih =>
    rcases List.mem_cons.mp member with rfl | behind
    · exact ⟨word, later.flatMap Word.spelling, rfl, goesOn⟩
    · exact ih goesOn.behind behind

end Token

namespace Item

variable [Scalar α] {item : Item α}

/-- An assignment that does not apply is blamed on its key or on a part of its expression. -/
theorem points_of_assign {assignment : List Char}
    (goesOn : Text.GoesOn written offset (assignment ++ rest)) (followed : rest ≠ [])
    (refused : item.assign offset assignment = .error error) : error.PointsInto written := by
  have present : assignment ++ rest ≠ [] := List.append_ne_nil_of_right_ne_nil _ followed
  have key := List.takeWhile_prefix (l := assignment) (· ≠ ':')
  have behind := List.dropWhile_suffix (l := assignment) (· ≠ ':')
  unfold assign at refused
  split at refused
  · contradiction
  · cases refused
    exact ⟨goesOn.shows present List.nil_prefix, rfl⟩
  · rename_i colon value _ parted
    dsimp only at refused
    split at refused
    · cases refused
      exact ⟨goesOn.shows present (key.trans (List.prefix_append ..)), rfl⟩
    · split at refused
      · contradiction
      · rename_i fault left failed
        cases refused
        have within := Expression.within_of_evaluate failed
        rw [parted] at behind
        -- The bytes that have been read are those in front of what is left.
        obtain ⟨front, rfl⟩ := within.suffix.trans ((List.suffix_cons colon value).trans behind)
        rw [Text.byteLength_append, Nat.add_sub_cancel]
        rw [List.append_assoc] at goesOn
        refine ⟨goesOn.behind.shows (List.append_ne_nil_of_right_ne_nil _ followed) ?_, rfl⟩
        cases fault with
        | unknownVariable name => exact (within.named name rfl).trans (List.prefix_append ..)
        | unexpectedCharacter | unexpectedEnd | expectedClose | invalidNumber =>
          exact List.nil_prefix

/-- Assignments are blamed on the first of them that does not apply. -/
theorem points_of_assignAll {assignments : List (List Char)}
    (goesOn : Text.GoesOn written offset (List.intercalate [','] assignments ++ rest))
    (followed : rest ≠ []) (refused : item.assignAll offset assignments = .error error) :
    error.PointsInto written := by
  -- Behind each assignment there is a comma, or what follows all of them.
  induction assignments generalizing item offset with
  | nil => contradiction
  | cons assignment later ih =>
    rcases bind_eq_error.mp refused with head | ⟨next, _, tail⟩
    · cases later with
      | nil => exact points_of_assign (by simpa [List.intercalate] using goesOn) followed head
      | cons second others =>
        have split : List.intercalate [','] (assignment :: second :: others) ++ rest =
            assignment ++ (',' :: (List.intercalate [','] (second :: others) ++ rest)) := by
          simp [List.intercalate]
        rw [split] at goesOn
        exact points_of_assign goesOn (List.cons_ne_nil _ _) head
    · cases later with
      | nil => contradiction
      | cons second others =>
        have split : List.intercalate [','] (assignment :: second :: others) ++ rest =
            (assignment ++ [',']) ++ (List.intercalate [','] (second :: others) ++ rest) := by
          simp [List.intercalate]
        rw [split] at goesOn
        have behind := goesOn.behind
        rw [Text.byteLength_append, show Text.byteLength [','] = 1 from rfl, ← Nat.add_assoc]
          at behind
        exact ih behind tail

end Item

namespace Word

variable {word : Word}

/-- A bracket that opens is written as its character. -/
theorem spelling_of_opening {bracket : Bracket} (meant : word.lexeme = .opening bracket) :
    word.spelling = [bracket.opening] := by
  cases word with
  | opening other =>
    cases meant
    rfl
  | closing | rest | pitch | block => contradiction

/-- A bracket that closes is written as its character. -/
theorem spelling_of_closing {bracket : Bracket} (meant : word.lexeme = .closing bracket) :
    word.spelling = [bracket.closing] := by
  cases word with
  | closing other =>
    cases meant
    rfl
  | opening | rest | pitch | block => contradiction

/-- A block is written as its body between braces. -/
theorem spelling_of_properties {body : List Char} (meant : word.lexeme = .properties body) :
    word.spelling = openBrace :: (body ++ [closeBrace]) := by
  cases word with
  | block other plain =>
    cases meant
    rfl
  | opening | closing | rest | pitch => contradiction

end Word

section Phrases

variable [Scalar α] {before tokens : List Token} {token : Token} {words : List Word}

/-- A bracket that is still open is one of the tokens. -/
theorem Enclosed.opening_mem {inside : List Token} {opened : List (Bracket × Nat)}
    {bracket : Bracket} (enclosed : Enclosed tokens ((bracket, offset) :: opened) inside) :
    ⟨.opening bracket, offset⟩ ∈ tokens := by
  cases enclosed with
  | inner _ _ => exact List.mem_append_right _ (List.mem_cons_self ..)

/-- A token that may not stand behind some others is blamed on itself or on a part of its block. -/
theorem Breaks.points {word : Word} (breaks : Breaks before token error)
    (meant : word.lexeme = token.lexeme)
    (goesOn : Text.GoesOn written token.offset (word.spelling ++ rest)) :
    error.PointsInto written := by
  cases breaks with
  | unopened _ | mismatched _ _ =>
    rw [word.spelling_of_closing meant] at goesOn
    exact ⟨goesOn.shows (List.cons_ne_nil _ _) (List.prefix_append ..), rfl⟩
  | dangling _ _ =>
    rw [word.spelling_of_properties meant] at goesOn
    exact ⟨goesOn.shows (List.cons_ne_nil _ _) (List.prefix_append [openBrace] _), rfl⟩
  | @assignment body offset _ _ _ _ failed =>
    -- The body stands between the braces, and its pieces are in it with the commas between.
    have split : openBrace :: (body ++ [closeBrace]) ++ rest =
        [openBrace] ++ (List.intercalate [','] (Text.pieces ',' body) ++ closeBrace :: rest) := by
      rw [Text.intercalate_pieces]
      simp
    rw [word.spelling_of_properties meant, split] at goesOn
    exact Item.points_of_assignAll goesOn.behind (List.cons_ne_nil _ _) failed

/-- A phrase that is refused is blamed on its first token amiss, or on a bracket left open. -/
theorem Blames.points (blames : Blames (Token.placed 0 words) error) :
    error.PointsInto (words.flatMap Word.spelling) := by
  have start := Text.GoesOn.start (words.flatMap Word.spelling)
  -- Either a word breaks the rules, or an opening bracket is left over.
  cases blames with
  | @token before after token _ split first breaks =>
    have member : token ∈ Token.placed 0 words := by
      rw [split]
      exact List.mem_append_right _ (List.mem_cons_self ..)
    obtain ⟨word, rest, meant, goesOn⟩ := Token.goesOn_of_mem_placed start member
    exact breaks.points meant goesOn
  | @unclosed _ _ bracket offset _ enclosed =>
    obtain ⟨word, rest, meant, goesOn⟩ :=
      Token.goesOn_of_mem_placed start enclosed.opening_mem
    rw [word.spelling_of_opening meant] at goesOn
    exact ⟨goesOn.shows (List.cons_ne_nil _ _) (List.prefix_append ..), rfl⟩

/-- Each mark is that of a note or rest at its place. -/
theorem exists_of_mem_marks {depth : Nat} {mark : Mark} (member : mark ∈ marks depth tokens) :
    ∃ token ∈ tokens, token.offset = mark.offset ∧ token.lexeme.sound? = some mark.sound := by
  -- The brackets around a token change the depth of its mark only.
  induction tokens generalizing depth with
  | nil => contradiction
  | cons token later ih =>
    have behind : ∀ {inner}, mark ∈ marks inner later → ∃ other ∈ token :: later,
        other.offset = mark.offset ∧ other.lexeme.sound? = some mark.sound := by
      intro inner present
      obtain ⟨other, among, found⟩ := ih present
      exact ⟨other, List.mem_cons_of_mem _ among, found⟩
    obtain ⟨lexeme, offset⟩ := token
    cases lexeme with
    | opening bracket | closing bracket | properties body => exact behind member
    | pitch pitch | rest =>
      rcases List.mem_cons.mp member with rfl | present
      · exact ⟨_, List.mem_cons_self .., rfl, rfl⟩
      · exact behind present

/-- Every item of a phrase is written where it says, as a word for its sound. -/
theorem written_of_mem_region {found : List (Item α)} {item : Item α}
    (read : region (Token.placed 0 words) = .ok found) (member : item ∈ found) :
    ∃ (word : Word) (rest : List Char), word.lexeme.sound? = some item.sound ∧
      Text.GoesOn (words.flatMap Word.spelling) item.offset (word.spelling ++ rest) := by
  -- The mark of an item is that of its word, whose place it keeps.
  have marked : item.mark ∈ marks 0 (Token.placed 0 words) := by
    rw [← marks_of_region read]
    exact List.mem_map_of_mem member
  obtain ⟨token, among, place, sounds⟩ := exists_of_mem_marks marked
  obtain ⟨word, rest, meant, goesOn⟩ :=
    Token.goesOn_of_mem_placed (Text.GoesOn.start _) among
  refine ⟨word, rest, ?_, ?_⟩
  · rw [meant]
    exact sounds
  · rw [place] at goesOn
    exact goesOn

end Phrases

variable [Scalar α]

/-- The sound of an item is refused for what is invalid in it, at its place. -/
theorem soundOf?_eq_error {item : Item α} (failed : (do let _ ← soundOf? item) = .error error) :
    ∃ cause, item.note? = .error cause ∧ error = .invalidValue item.offset cause := by
  -- Only the checks of the note can fail, and their cause is passed on with the place.
  rcases bind_eq_error.mp failed with refused | ⟨_, _, done⟩
  · unfold soundOf? at refused
    cases checked : item.note? with
    | error cause =>
      rw [checked] at refused
      cases refused
      exact ⟨cause, rfl, rfl⟩
    | ok found =>
      rw [checked] at refused
      contradiction
  · contradiction

/-- A text that is refused is blamed on what stands at the place of its fault: this place comes
before the end of the text without comments and blanks, where a character begins, and the text
goes on there with what the fault names. The fault of a value is at the note or rest that has it. -/
theorem items_error_points {text : String} (refused : items text = .error error) :
    error.offset < Text.byteLength (strip text.toList) ∧
    (∃ front rest, strip text.toList = front ++ error.named ++ rest ∧
      Text.byteLength front = error.offset) ∧
    ∀ cause, error.cause? = some cause → ∃ tokens found item, ∃ (word : Word) (rest : List Char),
      Token.ofText (α := α) (strip text.toList) = .ok tokens ∧ region tokens = .ok found ∧
      item ∈ found ∧ item.note? = .error cause ∧ item.offset = error.offset ∧
      word.lexeme.sound? = some item.sound ∧
      Text.GoesOn (strip text.toList) item.offset (word.spelling ++ rest) := by
  -- The text cannot be cut, a token is amiss, or an item that was read has no valid value.
  rcases bind_eq_error.mp refused with uncut | ⟨tokens, cut, phrase⟩
  · have points := Token.points_of_read (Text.GoesOn.start _) uncut
    refine ⟨points.shows.lt_byteLength, points.shows.split, fun cause valued => ?_⟩
    rw [points.valueless] at valued
    contradiction
  · obtain ⟨words, spelled, rfl⟩ := Token.ofText_eq_ok_iff.mp cut
    rcases bind_eq_error.mp phrase with amiss | ⟨found, read, checked⟩
    · have points := Blames.points (region_eq_error_iff.mp amiss)
      rw [← spelled] at points
      refine ⟨points.shows.lt_byteLength, points.shows.split, fun cause valued => ?_⟩
      rw [points.valueless] at valued
      contradiction
    · rcases bind_eq_error.mp checked with invalid | ⟨_, _, done⟩
      · obtain ⟨item, member, failed⟩ := exists_of_forM_eq_error invalid
        obtain ⟨cause, refuses, rfl⟩ := soundOf?_eq_error failed
        obtain ⟨word, rest, sounds, goesOn⟩ := written_of_mem_region read member
        rw [← spelled] at goesOn
        have shows := goesOn.shows (List.cons_ne_nil _ _) List.nil_prefix
        refine ⟨shows.lt_byteLength, shows.split, ?_⟩
        rintro _ ⟨⟩
        exact ⟨_, found, item, word, rest, cut, read, member, refuses, rfl, sounds, goesOn⟩
      · contradiction

/-- A character behind a block that takes more bytes than characters is blamed where it stands, and
a rest that starts before zero, behind one that goes back in time, is blamed as a rest. -/
theorem items_error_points_samples :
    (items (α := ℚ) "C4\x7bé\x7d ?" = .error (.unknownCharacter 6 '?') ∧
      ∃ front rest, strip "C4\x7bé\x7d ?".toList = front ++ ['?'] ++ rest ∧
        Text.byteLength front = 6) ∧
    items (α := ℚ) "C4 R\x7bd: -1\x7d R" = .error (.invalidValue 9 (.invalidStart (-3 / 4))) ∧
    ∃ (item : Item ℚ) (word : Word) (rest : List Char),
      item.note? = .error (.invalidStart (-3 / 4)) ∧ word.lexeme.sound? = some item.sound ∧
      Text.GoesOn (strip "C4 R\x7bd: -1\x7d R".toList) 9 (word.spelling ++ rest) := by
  have unknown : items (α := ℚ) "C4\x7bé\x7d ?" = .error (.unknownCharacter 6 '?') := by cbv
  have early : items (α := ℚ) "C4 R\x7bd: -1\x7d R" =
      .error (.invalidValue 9 (.invalidStart (-3 / 4))) := by cbv
  -- The rest before the start fails its check, and is pointed to.
  obtain ⟨_, _, item, word, rest, _, _, _, refuses, place, sounds, goesOn⟩ :=
    (items_error_points early).2.2 _ rfl
  rw [place] at goesOn
  exact ⟨⟨unknown, (items_error_points unknown).2.1⟩, early, item, word, rest, refuses, sounds,
    goesOn⟩

end Melody.Notation
