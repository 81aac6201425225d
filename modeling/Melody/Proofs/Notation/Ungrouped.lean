import Mathlib
import Melody.Proofs.Notation.Grouping
import Melody.Proofs.Notation.Words
import Melody.Proofs.Scalar.Exact

/-! Phrases are read in one pass, and texts may do without their round brackets. -/

namespace Melody.Notation

/-- A text without the round brackets that stand outside of its blocks. -/
def withoutGroups (inBlock : Bool) : List Char → List Char
  | [] => []
  | c :: rest =>
    if c = openBrace then c :: withoutGroups true rest
    else if c = closeBrace then c :: withoutGroups false rest
    else if (c = '(' || c = ')') && !inBlock then withoutGroups inBlock rest
    else c :: withoutGroups inBlock rest

/-- What is left without round brackets was there before. -/
theorem withoutGroups_sublist (inBlock : Bool) (text : List Char) :
    (withoutGroups inBlock text).Sublist text := by
  induction text generalizing inBlock with
  | nil => exact List.Sublist.slnil
  | cons c rest ih =>
    unfold withoutGroups
    -- A character is kept or left out, whichever rule applies to it.
    split
    · exact (ih _).cons_cons c
    · split
      · exact (ih _).cons_cons c
      · split
        · exact (ih _).cons c
        · exact (ih _).cons_cons c

/-- A character that is neither a brace nor a round bracket stays. -/
theorem withoutGroups_plain {word : List Char}
    (plain : ∀ c ∈ word, c ≠ openBrace ∧ c ≠ closeBrace ∧ c ≠ '(' ∧ c ≠ ')') (rest : List Char) :
    withoutGroups false (word ++ rest) = word ++ withoutGroups false rest := by
  -- Outside of a block only parentheses are dropped, and a word has none.
  induction word with
  | nil => rfl
  | cons c more ih =>
    obtain ⟨first, second, third, fourth⟩ := plain c (List.mem_cons_self ..)
    have later := ih fun d member => plain d (List.mem_cons_of_mem _ member)
    simp [withoutGroups, first, second, third, fourth, later]

/-- A block stays as it is. -/
theorem withoutGroups_block {body : List Char}
    (plain : ∀ c ∈ body, c ≠ openBrace ∧ c ≠ closeBrace) (rest : List Char) :
    withoutGroups true (body ++ closeBrace :: rest) =
      body ++ closeBrace :: withoutGroups false rest := by
  -- Inside of a block nothing is dropped up to the brace that closes it.
  induction body with
  | nil => simp [withoutGroups, openBrace, closeBrace]
  | cons c more ih =>
    obtain ⟨first, second⟩ := plain c (List.mem_cons_self ..)
    have later := ih fun d member => plain d (List.mem_cons_of_mem _ member)
    simp [withoutGroups, first, second, later]

namespace Lexeme

variable {α : Type} {offset : Nat} {first : Char} {more after : List Char} {lexeme : Lexeme}

/-- A character and the word behind it spell a lexeme, before every text that can follow it. -/
structure Spells (α : Type) (lexeme : Lexeme) (first : Char) (word : List Char) : Prop where
  /-- No lexeme begins with what may be a part of a pitch name. -/
  aside : isPitchPart first = false
  /-- Of all lexemes the round brackets alone are left out. -/
  kept : ∀ rest, withoutGroups false (first :: (word ++ rest)) =
    if lexeme.isRound then withoutGroups false rest
    else first :: (word ++ withoutGroups false rest)
  /-- The same lexeme is read whatever follows that is no part of a pitch name. -/
  read : ∀ place rest, Aside rest → scan (α := α) place first (word ++ rest) = .ok (lexeme, rest)

/-- No part of a name is a bracket. -/
theorem part_apart {c : Char} (part : isPitchPart c = true) :
    c ≠ openBrace ∧ c ≠ closeBrace ∧ c ≠ '(' ∧ c ≠ ')' := by
  refine ⟨?_, ?_, ?_, ?_⟩ <;> rintro rfl <;> contradiction

/-- Of all words those for round brackets alone are left out. -/
theorem withoutGroups_word (word : Word) (rest : List Char) :
    withoutGroups false (word.head :: (word.tail ++ rest)) =
      if word.lexeme.isRound then withoutGroups false rest
      else word.head :: (word.tail ++ withoutGroups false rest) := by
  cases word with
  | opening bracket | closing bracket => cases bracket <;> rfl
  | rest => rfl
  | pitch spelled =>
    have plain : ∀ c ∈ spelled.letter.symbol :: spelled.tail,
        c ≠ openBrace ∧ c ≠ closeBrace ∧ c ≠ '(' ∧ c ≠ ')' := by
      intro c member
      rcases List.mem_cons.mp member with rfl | inside
      · cases spelled.letter <;> decide
      · exact part_apart (spelled.part_of_mem_tail c inside)
    exact withoutGroups_plain plain rest
  | block body plain =>
    -- Inside of the braces brackets are characters like all others.
    show withoutGroups false (openBrace :: ((body ++ [closeBrace]) ++ rest)) =
      openBrace :: ((body ++ [closeBrace]) ++ withoutGroups false rest)
    rw [List.append_assoc, List.append_assoc, withoutGroups, if_pos rfl]
    exact congrArg _ (withoutGroups_block plain rest)

/-- Every lexeme that is read is spelled by the text before what is left. -/
theorem scan_spells (scanned : scan (α := α) offset first more = .ok (lexeme, after)) :
    ∃ word, more = word ++ after ∧ Spells α lexeme first word := by
  obtain ⟨word, rfl, rfl, rfl⟩ := exists_of_scan scanned
  exact ⟨word.tail, rfl, word.head_apart, withoutGroups_word word,
    fun place rest aside => word.scan_eq place aside⟩

end Lexeme

namespace Token

variable {α : Type}

/-- A text without its round brackets has the same tokens otherwise. -/
theorem read_withoutGroups (text : List Char) {offset : Nat} {tokens : List Token}
    (cut : read (α := α) offset text = .ok tokens) (place : Nat) :
    Aside (withoutGroups false text) ∧
      ∃ others, read (α := α) place (withoutGroups false text) = .ok others ∧
        others.map lexeme = (tokens.map lexeme).filter fun lexeme => !lexeme.isRound := by
  -- The induction is on the length of the text, of which each token takes a word.
  induction count : text.length using Nat.strongRecOn generalizing text offset tokens place with
  | ind count ih =>
    subst count
    cases text with
    | nil =>
      rw [read.eq_def] at cut
      cases cut
      refine ⟨by simp [Aside, withoutGroups], [], ?_, rfl⟩
      rw [withoutGroups, read.eq_def]
    | cons first more =>
      rw [read.eq_def] at cut
      dsimp only at cut
      split at cut
      · contradiction
      · rename_i lexeme after scanned
        split at cut
        · contradiction
        · rename_i later behind
          cases cut
          obtain ⟨word, rfl, spells⟩ := Lexeme.scan_spells scanned
          have shorter : after.length < (first :: (word ++ after)).length := by
            simp only [List.length_cons, List.length_append]
            omega
          by_cases round : lexeme.isRound = true
          · -- A round bracket is passed over with its one character.
            obtain ⟨aside, others, again, same⟩ := ih after.length shorter after behind place rfl
            rw [spells.kept, if_pos round]
            exact ⟨aside, others, again, by simpa [round] using same⟩
          · -- Any other lexeme is read again and stands before the same rest.
            rw [spells.kept, if_neg round]
            obtain ⟨aside, others, again, same⟩ := ih after.length shorter after behind
              (place + (Text.byteLength (first :: (word ++ withoutGroups false after)) -
                Text.byteLength (withoutGroups false after))) rfl
            refine ⟨fun c member => ?_, ⟨lexeme, place⟩ :: others, ?_, ?_⟩
            · cases member
              exact spells.aside
            · rw [read.eq_def]
              dsimp only
              have scanned := spells.read place _ aside
              split
              · rename_i failed
                rw [scanned] at failed
                contradiction
              · rename_i found left succeeded
                rw [scanned] at succeeded
                cases succeeded
                rw [again]
            · simpa [round] using same

end Token

/-- A text without comments and blanks. -/
def Clean (text : List Char) : Prop :=
  ∀ c ∈ text, c ≠ '!' ∧ Text.isBlank c = false

/-- No comments and blanks are left of a text. -/
theorem strip_clean (text : List Char) : Clean (strip text) := by
  intro c member
  obtain ⟨line, _, kept⟩ := List.mem_flatMap.mp member
  obtain ⟨inside, shown⟩ := List.mem_filter.mp kept
  have marked := List.all_eq_true.mp List.all_takeWhile c inside
  exact ⟨by simpa using marked, by simpa using shown⟩

/-- A text without comments and blanks is left as it is. -/
theorem strip_of_clean {text : List Char} (clean : Clean text) : strip text = text := by
  -- A line break is blank, so there is one line at most.
  have unbroken : ∀ c ∈ text, decide (c ≠ '\n') = true := by
    intro c member
    have shown := (clean c member).2
    rw [decide_eq_true_iff]
    rintro rfl
    contradiction
  cases text with
  | nil =>
    rw [strip, Text.lines]
    rfl
  | cons first rest =>
    have single : Text.lines (first :: rest) = [first :: rest] := by
      rw [Text.lines.eq_def]
      have whole := List.takeWhile_eq_self_iff.mpr unbroken
      have none := List.dropWhile_eq_nil_iff.mpr unbroken
      dsimp only
      split
      · rw [whole]
      · rename_i found
        rw [none] at found
        contradiction
    have marked : (first :: rest).takeWhile (· ≠ '!') = first :: rest :=
      List.takeWhile_eq_self_iff.mpr fun c member => by simpa using (clean c member).1
    rw [strip, single, List.flatMap_cons, List.flatMap_nil, List.append_nil, marked]
    exact List.filter_eq_self.mpr fun c member => by simp [(clean c member).2]

/-- A text without comments, blanks and the round brackets around groups. -/
def ungrouped (text : String) : String :=
  String.ofList (withoutGroups false (strip text.toList))

/-- Nothing but round brackets is lost. -/
theorem strip_ungrouped (text : String) :
    strip (ungrouped text).toList = withoutGroups false (strip text.toList) := by
  rw [ungrouped, String.toList_ofList]
  exact strip_of_clean fun c member =>
    strip_clean _ c ((withoutGroups_sublist false _).subset member)

variable {α : Type} [Scalar α]

/-- What an item sounds like does not depend on the text that it was written in. -/
theorem soundOf?_of_bare {item other : Item α} (same : item.bare = other.bare)
    {note? : Option (Note α)} (sound : soundOf? item = .ok note?) : soundOf? other = .ok note? := by
  -- What an item sounds as does not depend on where it stands or how deep.
  have equal : item.note? = other.note? := by
    show item.bare.note? = other.bare.note?
    rw [same]
  unfold soundOf? at sound ⊢
  rw [← equal]
  cases checked : item.note? with
  | error cause =>
    rw [checked] at sound
    contradiction
  | ok found =>
    rw [checked] at sound
    exact sound

/-- Items that differ in their places only pass the same checks. -/
theorem forM_of_bare {found kept : List (Item α)} (same : kept.map Item.bare = found.map Item.bare)
    (checked : (found.forM fun item => do let _ ← soundOf? item) = Except.ok ()) :
    (kept.forM fun item => do let _ ← soundOf? item) = Except.ok () := by
  induction found generalizing kept with
  | nil =>
    have none : kept = [] := by simpa using same
    rw [none]
    rfl
  | cons item later ih =>
    rw [List.map_cons] at same
    obtain ⟨other, others, rfl, first, rest⟩ := List.map_eq_cons_iff.mp same
    -- Each item is checked as the one it equals, in the same order.
    obtain ⟨_, passed, behind⟩ := bind_eq_ok.mp checked
    obtain ⟨note?, sound, _⟩ := bind_eq_ok.mp passed
    exact bind_eq_ok.mpr ⟨(), bind_eq_ok.mpr ⟨note?, soundOf?_of_bare first.symm sound, rfl⟩,
      ih rest behind⟩

/-- Items that differ in their places only sound the same notes. -/
theorem mapM_of_bare {found kept : List (Item α)} (same : kept.map Item.bare = found.map Item.bare)
    {notes : List (Option (Note α))} (sound : found.mapM soundOf? = .ok notes) :
    kept.mapM soundOf? = .ok notes := by
  induction found generalizing kept notes with
  | nil =>
    have none : kept = [] := by simpa using same
    rw [none]
    exact sound
  | cons item later ih =>
    rw [List.map_cons] at same
    obtain ⟨other, others, rfl, first, rest⟩ := List.map_eq_cons_iff.mp same
    rw [List.mapM_cons] at sound ⊢
    -- Each item sounds as the one it equals, in the same order.
    obtain ⟨note?, heard, more⟩ := bind_eq_ok.mp sound
    obtain ⟨behind, last, equal⟩ := bind_eq_ok.mp more
    exact bind_eq_ok.mpr ⟨note?, soundOf?_of_bare first.symm heard,
      bind_eq_ok.mpr ⟨behind, ih rest last, equal⟩⟩

/-- A text without its round brackets has the same items, each at another place. -/
theorem items_ungrouped {text : String} {found : List (Item α)} (read : items text = .ok found) :
    ∃ kept, items (ungrouped text) = .ok kept ∧ kept.map Item.bare = found.map Item.bare := by
  obtain ⟨tokens, cut, phrase⟩ := bind_eq_ok.mp read
  obtain ⟨written, inside, checked⟩ := bind_eq_ok.mp phrase
  obtain ⟨_, passed, equal⟩ := bind_eq_ok.mp checked
  cases equal
  -- The words that are left are parsed side by side with all words.
  obtain ⟨_, others, again, same⟩ := Token.read_withoutGroups (α := α) _ cut 0
  obtain ⟨kept, region, bare⟩ := Alike.initial.run inside same
  refine ⟨kept, ?_, bare⟩
  have tokens : Token.ofText (α := α) (strip (ungrouped text).toList) = .ok others := by
    rw [strip_ungrouped]
    exact again
  exact bind_eq_ok.mpr ⟨others, tokens, bind_eq_ok.mpr ⟨kept, region,
    bind_eq_ok.mpr ⟨(), forM_of_bare bare passed, rfl⟩⟩⟩

/-- Phrases are read by descent as in one pass, and texts may do without their round brackets. -/
theorem region_one_pass :
    (∀ tokens, region (α := α) tokens = nested tokens) ∧
    (∀ tokens (found : List (Item α)), region tokens = .ok found →
      flat tokens = .ok (found.map Item.unnested)) ∧
    (∀ text (found : List (Item α)), items text = .ok found →
      ∃ kept, items (ungrouped text) = .ok kept ∧ kept.map Item.bare = found.map Item.bare) ∧
    ∀ text (notes : Group α), group text = .ok notes → group (ungrouped text) = .ok notes := by
  refine ⟨region_eq_nested, fun _ _ => flat_of_region, fun _ _ => items_ungrouped, ?_⟩
  -- A group is made of what the items sound, and that is all of an item that is left.
  intro text notes grouped
  obtain ⟨found, read, sounding⟩ := bind_eq_ok.mp grouped
  obtain ⟨sounds, heard, equal⟩ := bind_eq_ok.mp sounding
  obtain ⟨kept, again, bare⟩ := items_ungrouped read
  exact bind_eq_ok.mpr ⟨kept, again, bind_eq_ok.mpr ⟨sounds, mapM_of_bare bare heard, equal⟩⟩

/-- The tokens of a phrase with a block behind a group and a rest in square brackets. -/
def sampleTokens : List Token :=
  [⟨.opening .round, 0⟩, ⟨.pitch ⟨48⟩, 1⟩, ⟨.closing .round, 3⟩,
    ⟨.properties ['d', ':', '-', 'h'], 4⟩, ⟨.opening .square, 10⟩, ⟨.rest, 11⟩,
    ⟨.closing .square, 12⟩, ⟨.pitch ⟨50⟩, 13⟩]

/-- A text with a group in a group and a block behind each kind of bracket. -/
def sampleText : String :=
  "(C4 (D4){d: h} ! held\n [E4]{v: 0.5} R) G4"

/-- Both samples are read, and keep their items without their round brackets. -/
theorem region_one_pass_samples :
    (∃ found : List (Item ℚ), region sampleTokens = .ok found ∧
      flat sampleTokens = .ok (found.map Item.unnested)) ∧
    (∃ found kept : List (Item ℚ), items sampleText = .ok found ∧
      items (ungrouped sampleText) = .ok kept ∧ kept.map Item.bare = found.map Item.bare) ∧
    ∃ notes : Group ℚ, group sampleText = .ok notes ∧ group (ungrouped sampleText) = .ok notes := by
  obtain ⟨_, passes, drops, sounds⟩ := region_one_pass (α := ℚ)
  have accepted : (region (α := ℚ) sampleTokens).isOk = true := by cbv
  have written : (items (α := ℚ) sampleText).isOk = true := by cbv
  have grouped : (group (α := ℚ) sampleText).isOk = true := by cbv
  obtain ⟨found, read⟩ := exists_of_isOk accepted
  obtain ⟨listed, reads⟩ := exists_of_isOk written
  obtain ⟨notes, heard⟩ := exists_of_isOk grouped
  -- The text without its groups has the same items at other places.
  obtain ⟨kept, again, same⟩ := drops _ listed reads
  exact ⟨⟨found, read, passes _ found read⟩, ⟨listed, kept, reads, again, same⟩,
    notes, heard, sounds _ notes heard⟩

end Melody.Notation
