import Mathlib.Data.List.TakeWhile
import Melody.Proofs.Notation.Spelling
import Melody.Proofs.Outcome

/-! Tokens are written as words, and a text of words is cut where they meet. -/

namespace Melody.Notation

/-- The ways to write one token. -/
inductive Word where
  | opening (bracket : Bracket)
  | closing (bracket : Bracket)
  | rest
  | pitch (spelled : Pitch.Spelling)
  /-- A body between braces, with none inside. -/
  | block (body : List Char) (plain : ∀ c ∈ body, c ≠ openBrace ∧ c ≠ closeBrace)

namespace Word

variable {α : Type}

/-- The character that a word begins with. -/
def head : Word → Char
  | opening bracket => bracket.opening
  | closing bracket => bracket.closing
  | rest => 'R'
  | pitch spelled => spelled.letter.symbol
  | block _ _ => openBrace

/-- The characters behind the first. -/
def tail : Word → List Char
  | opening _ | closing _ | rest => []
  | pitch spelled => spelled.tail
  | block body _ => body ++ [closeBrace]

/-- The characters of a word. -/
def spelling (word : Word) : List Char :=
  word.head :: word.tail

/-- The lexeme that a word is written for. -/
def lexeme : Word → Lexeme
  | opening bracket => .opening bracket
  | closing bracket => .closing bracket
  | rest => .rest
  | pitch spelled => .pitch spelled.pitch
  | block body _ => .properties body

/-- No word begins with what may be a part of a pitch name. -/
theorem head_apart (word : Word) : isPitchPart word.head = false := by
  -- Brackets, rests, letters and blocks begin with characters that no pitch has behind its letter.
  cases word with
  | opening bracket | closing bracket => cases bracket <;> rfl
  | rest => rfl
  | pitch spelled =>
    show isPitchPart spelled.letter.symbol = false
    cases spelled.letter <;> rfl
  | block body plain => rfl

/-- Words are followed by no part of a pitch name. -/
theorem aside_flatMap (words : List Word) : Aside (words.flatMap spelling) := by
  -- Only the first character of the text matters, and that is the head of the first word.
  intro c member
  cases words with
  | nil => contradiction
  | cons word later =>
    cases member
    exact word.head_apart

/-- A block ends at its first closing brace, before which there is none. -/
theorem scanBlock_eq {body : List Char} (plain : ∀ c ∈ body, c ≠ openBrace ∧ c ≠ closeBrace)
    (offset : Nat) (rest : List Char) :
    Lexeme.scanBlock (α := α) offset (body ++ closeBrace :: rest) =
      .ok (.properties body, rest) := by
  -- The body has no closing brace, so the first one is that behind it.
  have inside : ∀ c ∈ body, decide (c ≠ closeBrace) = true :=
    fun c member => decide_eq_true (plain c member).2
  have stop : ∀ c ∈ (closeBrace :: rest).head?, decide (c ≠ closeBrace) = false := by
    intro c member
    cases member
    rfl
  have flat : body.dropWhile (· ≠ openBrace) = [] :=
    List.dropWhile_eq_nil_iff.mpr fun c member => decide_eq_true (plain c member).1
  simp only [Lexeme.scanBlock, Text.takeWhile_append_stop inside stop,
    Text.dropWhile_append_stop inside stop, flat]

/-- A word is read as its lexeme, whatever follows that is no part of a pitch name. -/
theorem scan_eq (word : Word) (offset : Nat) {rest : List Char} (aside : Aside rest) :
    Lexeme.scan (α := α) offset word.head (word.tail ++ rest) = .ok (word.lexeme, rest) := by
  cases word with
  | opening bracket | closing bracket => cases bracket <;> rfl
  | rest => rfl
  | pitch spelled =>
    -- None of the seven letters is one of the characters that are asked for before.
    have named : Lexeme.scan (α := α) offset spelled.letter.symbol (spelled.tail ++ rest) =
        Lexeme.scanPitch offset spelled.letter.symbol (spelled.tail ++ rest) := by
      cases spelled.letter <;> rfl
    show Lexeme.scan offset spelled.letter.symbol (spelled.tail ++ rest) = _
    rw [named, Lexeme.scanPitch, spelled.scan_eq aside]
    rfl
  | block body plain =>
    show Lexeme.scanBlock offset ((body ++ [closeBrace]) ++ rest) = _
    rw [List.append_assoc]
    exact scanBlock_eq plain offset rest

end Word

namespace Lexeme

variable {α : Type} {offset : Nat} {first : Char} {more after : List Char} {lexeme : Lexeme}

/-- A block that is read was written with no brace inside. -/
theorem exists_of_scanBlock {text : List Char}
    (scanned : scanBlock (α := α) offset text = .ok (lexeme, after)) :
    ∃ body, (∀ c ∈ body, c ≠ openBrace ∧ c ≠ closeBrace) ∧ text = body ++ closeBrace :: after ∧
      lexeme = .properties body := by
  -- The body ends before the first closing brace, and an opening one would have been refused.
  have whole := List.takeWhile_append_dropWhile (p := (· ≠ closeBrace)) (l := text)
  have stop := Text.head?_dropWhile_stop (· ≠ closeBrace) text
  unfold scanBlock at scanned
  split at scanned
  · contradiction
  · rename_i brace rest found
    rw [found] at whole stop
    obtain rfl : brace = closeBrace := by simpa using stop brace rfl
    dsimp only at scanned
    split at scanned
    · rename_i flat
      cases scanned
      refine ⟨text.takeWhile (· ≠ closeBrace), fun c member => ⟨?_, ?_⟩, ?_, rfl⟩
      · simpa using List.dropWhile_eq_nil_iff.mp flat c member
      · simpa using Text.part_of_mem_takeWhile c member
      · exact whole.symm
    · contradiction

/-- Every lexeme that is read was written by a word for it. -/
theorem exists_of_scan (scanned : scan (α := α) offset first more = .ok (lexeme, after)) :
    ∃ word : Word, first = word.head ∧ more = word.tail ++ after ∧ word.lexeme = lexeme := by
  unfold scan at scanned
  -- The cases are those of the first character, most of which are words by themselves.
  split at scanned
  · cases scanned
    exact ⟨.opening .round, ‹_›, rfl, rfl⟩
  split at scanned
  · cases scanned
    exact ⟨.opening .square, ‹_›, rfl, rfl⟩
  split at scanned
  · cases scanned
    exact ⟨.closing .round, ‹_›, rfl, rfl⟩
  split at scanned
  · cases scanned
    exact ⟨.closing .square, ‹_›, rfl, rfl⟩
  split at scanned
  · obtain ⟨body, plain, rfl, rfl⟩ := exists_of_scanBlock scanned
    exact ⟨.block body plain, ‹_›, by simp [Word.tail], rfl⟩
  split at scanned
  · contradiction
  split at scanned
  · cases scanned
    exact ⟨.rest, ‹_›, rfl, rfl⟩
  split at scanned
  · unfold scanPitch at scanned
    split at scanned
    · rename_i named
      cases scanned
      obtain ⟨spelled, same, split, rfl⟩ := Pitch.exists_of_scan named
      exact ⟨.pitch spelled, same, split, rfl⟩
    · contradiction
  · contradiction

end Lexeme

namespace Token

variable {α : Type}

/-- The tokens of words that stand one behind the other from an offset on. -/
def placed (offset : Nat) : List Word → List Token
  | [] => []
  | word :: later =>
    ⟨word.lexeme, offset⟩ :: placed (offset + Text.byteLength word.spelling) later

/-- A text is read as its first lexeme and then as what follows. -/
theorem read_cons (offset : Nat) (first : Char) (more : List Char) :
    read (α := α) offset (first :: more) = (do
      let (lexeme, after) ← Lexeme.scan offset first more
      let later ← read (offset + (Text.byteLength (first :: more) - Text.byteLength after)) after
      return ⟨lexeme, offset⟩ :: later) := by
  -- The text is refused where its first lexeme or what follows is.
  rw [read.eq_def]
  dsimp only
  split
  · rename_i failed
    rw [failed]
    rfl
  · rename_i lexeme after scanned
    rw [scanned]
    show _ = (read (α := α) _ after).bind fun later => .ok (⟨lexeme, offset⟩ :: later)
    split
    · rename_i failed
      rw [failed]
      rfl
    · rename_i later cut
      rw [cut]
      rfl

/-- The bytes of a word are those between a text from the word on and the text behind it. -/
theorem byteLength_sub (word : Word) (after : List Char) :
    Text.byteLength (word.head :: (word.tail ++ after)) - Text.byteLength after =
      Text.byteLength word.spelling := by
  simp only [Word.spelling, Text.byteLength_cons, Text.byteLength_append]
  omega

/-- A text of words is cut where the words meet. -/
theorem read_words (words : List Word) (offset : Nat) :
    read (α := α) offset (words.flatMap Word.spelling) = .ok (placed offset words) := by
  -- No word takes a character of the next, which begins with no part of a pitch name.
  induction words generalizing offset with
  | nil => rw [List.flatMap_nil, read.eq_def, placed]
  | cons word later ih =>
    have scanned := word.scan_eq (α := α) offset (Word.aside_flatMap later)
    rw [List.flatMap_cons, Word.spelling, List.cons_append, read_cons, scanned]
    show (read (α := α) _ _).bind _ = _
    rw [byteLength_sub, ih]
    rfl

/-- A text that is cut into tokens is made of words for them. -/
theorem exists_of_read {offset : Nat} {text : List Char} {tokens : List Token}
    (cut : read (α := α) offset text = .ok tokens) :
    ∃ words : List Word, text = words.flatMap Word.spelling ∧ tokens = placed offset words := by
  -- The induction is on the length of the text, of which each token takes a word.
  induction count : text.length using Nat.strongRecOn generalizing text offset tokens with
  | ind count ih =>
    subst count
    cases text with
    | nil =>
      rw [read.eq_def] at cut
      cases cut
      exact ⟨[], rfl, rfl⟩
    | cons first more =>
      rw [read_cons] at cut
      obtain ⟨⟨lexeme, after⟩, scanned, behind⟩ := bind_eq_ok.mp cut
      obtain ⟨found, again, same⟩ := bind_eq_ok.mp behind
      cases same
      obtain ⟨word, rfl, rfl, rfl⟩ := Lexeme.exists_of_scan scanned
      have shorter : after.length < (word.head :: (word.tail ++ after)).length := by
        simp only [List.length_cons, List.length_append]
        omega
      obtain ⟨later, rfl, rfl⟩ := ih after.length shorter again rfl
      refine ⟨word :: later, rfl, ?_⟩
      rw [byteLength_sub, placed]

/-- A text is cut into tokens exactly when it is made of words, one for each token and in their
order, at whose first bytes the tokens stand. -/
theorem ofText_eq_ok_iff {text : List Char} {tokens : List Token} :
    ofText (α := α) text = .ok tokens ↔
      ∃ words : List Word, text = words.flatMap Word.spelling ∧ tokens = placed 0 words := by
  constructor
  · exact exists_of_read
  · rintro ⟨words, rfl, rfl⟩
    exact read_words words 0

/-- A flat is no letter of its own, and a body counts in bytes. -/
example : ofText (α := Nat) "Bb3B\x7bé\x7dEs[".toList =
    .ok [⟨.pitch ⟨46⟩, 0⟩, ⟨.pitch ⟨59⟩, 3⟩, ⟨.properties ['é'], 4⟩, ⟨.pitch ⟨53⟩, 8⟩,
      ⟨.opening .square, 10⟩] := by
  cbv

end Token

end Melody.Notation
