import Melody.Notation.Phrase
import Melody.Proofs.Notation.Cursor
import Melody.Proofs.Notation.Naming
import Melody.Proofs.Notation.Words
import Melody.Proofs.Scalar.Exact

/-! Notation is cut by places between its characters only, and each token takes some of it. -/

namespace Melody.Notation

open Text (GoesOn Stop byteLength placeOf? places slice sliceFrom)

section Places

variable {α : Type}

/-- Reads of notation by places what is written there, or fails as the notation does. -/
abbrev Reading (α : Type) : Type → Type :=
  Except (Stop (Error α))

namespace Lexeme

/-- The name that is misspelled at an offset, up to the first character that is no part of one. -/
def invalidNameAt (text : List Char) (offset : Nat) : Reading α (List Char) := do
  let rest ← sliceFrom text offset
  let ends := (places 0 rest).find? fun found =>
    decide (0 < found.1) && !isPitchPart found.2
  slice text offset (offset + (ends.map Prod.fst).getD (byteLength text - offset))

/-- Reads a pitch name at an offset, with the bytes that it takes. -/
def pitchAt (text : List Char) (offset : Nat) : Reading α (Lexeme × Nat) := do
  match ← Pitch.scanAt (← sliceFrom text offset) with
  | some (found, width) => return (pitch found, width)
  | none => throw (.fault (.invalidPitch offset (← invalidNameAt text offset)))

/-- Reads the block that opens at an offset, with the bytes that it takes. -/
def blockAt (text : List Char) (offset : Nat) : Reading α (Lexeme × Nat) := do
  match placeOf? closeBrace (← sliceFrom text offset) with
  | none => throw (.fault (.unclosed offset openBrace))
  | some close =>
    let body ← slice text (offset + 1) (offset + close)
    match placeOf? openBrace body with
    | some nested => throw (.fault (.unknownCharacter (offset + 1 + nested) openBrace))
    | none => return (properties body, close + 1)

/-- Reads the lexeme that begins with a character at an offset, with the bytes that it takes. -/
def scanAt (text : List Char) (offset : Nat) (first : Char) : Reading α (Lexeme × Nat) :=
  if first = '(' then return (opening .round, 1)
  else if first = '[' then return (opening .square, 1)
  else if first = ')' then return (closing .round, 1)
  else if first = ']' then return (closing .square, 1)
  else if first = openBrace then blockAt text offset
  else if first = closeBrace then throw (.fault (.unexpectedClose offset first))
  else if first = 'R' then return (rest, 1)
  else if (Letter.ofChar? first).isSome then pitchAt text offset
  else throw (.fault (.unknownCharacter offset first))

end Lexeme

namespace Token

/-- Reads the token at an offset, with the bytes that it takes, unless the text ends there. -/
def roundAt (text : List Char) (offset : Nat) : Reading α (Option (Token × Nat)) := do
  match (← sliceFrom text offset).head? with
  | none => return none
  | some first =>
    let (lexeme, width) ← Lexeme.scanAt text offset first
    return some (⟨lexeme, offset⟩, width)

/-- Reads the tokens from an offset on in at most as many rounds as are allowed. -/
def readAt (text : List Char) : Nat → Nat → Reading α (List Token)
  | 0, _ => throw .endless
  | rounds + 1, offset => do
    match ← roundAt text offset with
    | none => return []
    | some (token, width) => return token :: (← readAt text rounds (offset + width))

/-- Cuts a text without blanks and comments into tokens, in one round more than it has bytes. -/
def ofTextAt (text : List Char) : Reading α (List Token) :=
  readAt text (byteLength text + 1) 0

end Token

variable [Scalar α]

namespace Item

/-- A fault of an expression that starts at an offset. -/
def blame (offset : Nat) : Stop Expression.Misread → Stop (Error α)
  | .cut => .cut
  | .endless => .endless
  | .fault misread => .fault (.expression (offset + misread.place) misread.fault)

/-- Applies one assignment that starts at an offset, cutting it at its colon. -/
def assignAt (item : Item α) (offset : Nat) (assignment : List Char) : Reading α (Item α) := do
  if assignment.isEmpty then return item
  else match placeOf? ':' assignment with
    | none => throw (.fault (.missingValue offset))
    | some colon =>
      let key ← slice assignment 0 colon
      match Property.ofKey? (String.ofList key) with
      | none => throw (.fault (.unknownProperty offset key))
      | some property =>
        let text ← sliceFrom assignment (colon + 1)
        let value ← (Expression.evaluateAt text item.scope).mapError (blame (offset + colon + 1))
        return item.set property value

/-- Applies assignments one after the other, the first of which starts at an offset. -/
def assignAllAt (item : Item α) (offset : Nat) : List (List Char) → Reading α (Item α)
  | [] => return item
  | assignment :: later => do
    let item ← item.assignAt offset assignment
    item.assignAllAt (offset + byteLength assignment + 1) later

end Item

namespace Progress

/-- Changes the properties of the latest item by assignments that are cut by places. -/
def editAt (progress : Progress α) (body : List Char) (offset : Nat) :
    Reading α (Progress α) :=
  match progress.items with
  | [] => throw (.fault (.danglingProperties offset))
  | item :: items => do
    let item ← item.assignAllAt (offset + 1) (Text.pieces ',' body)
    return { progress with items := item :: items, context := progress.context.after item }

/-- Takes up one token, of which only blocks are cut any further. -/
def stepAt (progress : Progress α) (token : Token) : Reading α (Progress α) :=
  match token.lexeme with
  | .properties body => progress.editAt body token.offset
  | _ => (progress.step token).mapError .fault

/-- The items of a list of tokens. -/
def runAt (progress : Progress α) : List Token → Reading α (List (Item α))
  | [] => progress.finish.mapError .fault
  | token :: later => do
    let progress ← progress.stepAt token
    progress.runAt later

end Progress

/-- Reads every note and rest of a text by places. -/
def itemsAt (text : String) : Reading α (List (Item α)) := do
  let tokens ← Token.ofTextAt (strip text.toList)
  let items ← Progress.initial.runAt tokens
  let checked : Except (Error α) Unit := items.forM fun item => do
    let _ ← soundOf? item
  checked.mapError .fault
  return items

end Places

section Agreement

variable {α : Type} {text more rest : List Char} {first : Char} {offset : Nat}

namespace Lexeme

/-- A lexeme that has been read of a text is told by the bytes that it takes. -/
def told (text : List Char) (found : Except (Error α) (Lexeme × List Char)) :
    Reading α (Lexeme × Nat) :=
  match found with
  | .ok (lexeme, after) => .ok (lexeme, byteLength text - byteLength after)
  | .error error => .error (.fault error)

/-- A lexeme of one character takes one byte. -/
theorem told_one (one : first.utf8Size = 1) (lexeme : Lexeme) :
    told (α := α) (first :: more) (.ok (lexeme, more)) = .ok (lexeme, 1) := by
  rw [told, Text.byteLength_cons, one, Nat.add_sub_cancel]

/-- A misspelled name is cut out where its last part ends. -/
theorem invalidNameAt_eq (goesOn : GoesOn text offset (first :: more)) :
    invalidNameAt (α := α) text offset = .ok (first :: more.takeWhile isPitchPart) := by
  have positive := first.utf8Size_pos
  have whole := List.takeWhile_append_dropWhile (p := isPitchPart) (l := more)
  -- The first character is passed over, and behind it no place is the start of the text.
  have later : ∀ found ∈ places (0 + first.utf8Size) more,
      (decide (0 < found.1) && !isPitchPart found.2) = !isPitchPart found.2 := by
    intro found member
    have behind := Text.le_of_mem_places member
    rw [decide_eq_true (by omega), Bool.true_and]
  have ends : (places 0 (first :: more)).find?
      (fun found => decide (0 < found.1) && !isPitchPart found.2) =
        (more.dropWhile isPitchPart).head?.map fun c =>
          (byteLength (first :: more.takeWhile isPitchPart), c) := by
    rw [places, List.find?_cons_of_neg (by simp), List.find?_congr later,
      Text.find?_places, Nat.zero_add, Text.byteLength_cons]
  rw [invalidNameAt, goesOn.sliceFrom_eq]
  show slice text offset (offset + (Option.map Prod.fst _).getD (byteLength text - offset)) = _
  rw [ends]
  cases left : more.dropWhile isPitchPart with
  | nil =>
    rw [left, List.append_nil] at whole
    have size : byteLength text - offset = byteLength (first :: more) := by
      obtain ⟨front, rfl, rfl⟩ := goesOn
      rw [Text.byteLength_append, Nat.add_sub_cancel_left]
    rw [whole]
    rw [← List.append_nil (first :: more)] at goesOn
    show slice text offset (offset + (byteLength text - offset)) = _
    rw [size]
    exact goesOn.slice_eq
  | cons c others =>
    rw [← whole, ← List.cons_append] at goesOn
    exact goesOn.slice_eq

/-- A pitch name is read by places as it is read. -/
theorem pitchAt_eq (goesOn : GoesOn text offset (first :: more)) :
    pitchAt (α := α) text offset = told (first :: more) (scanPitch offset first more) := by
  rw [pitchAt, goesOn.sliceFrom_eq]
  show (Except.bind (Pitch.scanAt (first :: more)) _) = _
  rw [Pitch.scanAt_eq, scanPitch]
  -- Without a pitch the name that was tried is cut out for the error.
  cases Pitch.scan (first :: more) with
  | some found => rfl
  | none =>
    show (Except.bind (invalidNameAt text offset) _) = _
    rw [invalidNameAt_eq goesOn]
    rfl

/-- A block is read by places as it is read. -/
theorem blockAt_eq (goesOn : GoesOn text offset (openBrace :: more)) :
    blockAt (α := α) text offset = told (openBrace :: more) (scanBlock offset more) := by
  have closed : placeOf? closeBrace (openBrace :: more) =
      (more.dropWhile (· ≠ closeBrace)).head?.map fun _ =>
        1 + byteLength (more.takeWhile (· ≠ closeBrace)) :=
    Text.placeOf?_eq closeBrace (openBrace :: more)
  rw [blockAt, goesOn.sliceFrom_eq, scanBlock]
  show (match placeOf? closeBrace (openBrace :: more) with | none => _ | some close => _) = _
  rw [closed]
  cases left : more.dropWhile (· ≠ closeBrace) with
  | nil => rfl
  | cons brace after =>
    obtain ⟨rfl, whole⟩ := Text.parted left
    have inside := goesOn.next rfl
    rw [whole] at inside
    have cut := inside.slice_eq (ε := Error α)
    rw [Nat.add_assoc] at cut
    -- The body is cut out, and then searched for a brace that opens another block.
    show (Except.bind (slice text (offset + 1) (offset + (1 + byteLength _))) _) = _
    rw [cut]
    show (match placeOf? openBrace (more.takeWhile (· ≠ closeBrace)) with
      | some nested => _ | none => _) = _
    rw [Text.placeOf?_eq]
    dsimp only
    cases opened : (more.takeWhile (· ≠ closeBrace)).dropWhile (· ≠ openBrace) with
    | nil =>
      have size : byteLength (openBrace :: more) - byteLength after =
          1 + byteLength (more.takeWhile (· ≠ closeBrace)) + 1 := by
        have parts := congrArg byteLength whole
        have one : closeBrace.utf8Size = 1 ∧ openBrace.utf8Size = 1 := ⟨rfl, rfl⟩
        rw [Text.byteLength_append, Text.byteLength_cons] at parts
        rw [Text.byteLength_cons]
        omega
      rw [told, size]
      rfl
    | cons nested later =>
      obtain ⟨rfl, _⟩ := Text.parted opened
      rfl

/-- A lexeme is read by places as it is read. -/
theorem scanAt_eq (goesOn : GoesOn text offset (first :: more)) :
    scanAt (α := α) text offset first = told (first :: more) (scan offset first more) := by
  unfold scanAt scan
  -- The first character tells which kind of word begins, in the same order for both readers.
  split_ifs with round square roundEnd squareEnd opens closes silent named
  · exact (told_one (round ▸ rfl) _).symm
  · exact (told_one (square ▸ rfl) _).symm
  · exact (told_one (roundEnd ▸ rfl) _).symm
  · exact (told_one (squareEnd ▸ rfl) _).symm
  · subst opens
    exact blockAt_eq goesOn
  · rfl
  · exact (told_one (silent ▸ rfl) _).symm
  · exact pitchAt_eq goesOn
  · rfl

end Lexeme

namespace Token

/-- A round reads the token that the text goes on with, if it does not end. -/
theorem roundAt_eq (goesOn : GoesOn text offset (first :: more)) :
    roundAt (α := α) text offset =
      (Lexeme.told (first :: more) (Lexeme.scan offset first more)).map fun (lexeme, width) =>
        some (⟨lexeme, offset⟩, width) := by
  rw [roundAt, goesOn.sliceFrom_eq]
  show (Except.bind (Lexeme.scanAt text offset first) _) = _
  rw [Lexeme.scanAt_eq goesOn]
  rcases Lexeme.scan offset first more with error | ⟨lexeme, after⟩ <;> rfl

/-- A round that starts where the text goes on cuts nothing at a wrong place. -/
theorem roundAt_ne_cut (goesOn : GoesOn text offset rest) :
    roundAt (α := α) text offset ≠ .error .cut := by
  -- At the end nothing is cut, and any other round is that of the rest of the text.
  cases rest with
  | nil =>
    rw [roundAt, goesOn.sliceFrom_eq]
    nofun
  | cons first more =>
    rw [roundAt_eq goesOn]
    rcases Lexeme.scan offset first more with error | ⟨lexeme, after⟩ <;> nofun

/-- A round takes a word of the text, behind which the text goes on. -/
theorem exists_of_roundAt {token : Token} {width : Nat} (goesOn : GoesOn text offset rest)
    (read : roundAt (α := α) text offset = .ok (some (token, width))) :
    0 < width ∧ ∃ after, GoesOn text (offset + width) after := by
  cases rest with
  | nil =>
    rw [roundAt, goesOn.sliceFrom_eq] at read
    cases read
  | cons first more =>
    rw [roundAt_eq goesOn] at read
    obtain ⟨⟨lexeme, width⟩, read, same⟩ := map_eq_ok.mp read
    cases same
    -- A word takes the bytes of its spelling, of which there is one or more.
    cases scanned : Lexeme.scan (α := α) offset first more with
    | error error =>
      rw [scanned] at read
      cases read
    | ok found =>
      obtain ⟨lexeme, after⟩ := found
      rw [scanned] at read
      obtain ⟨word, rfl, rfl, rfl⟩ := Lexeme.exists_of_scan scanned
      cases read
      have some := word.head.utf8Size_pos
      rw [byteLength_sub]
      refine ⟨?_, after, GoesOn.behind goesOn⟩
      rw [Word.spelling, Text.byteLength_cons]
      omega

/-- Tokens are read by places as they are read, in more rounds than there are bytes. -/
theorem readAt_eq {rounds : Nat} (goesOn : GoesOn text offset rest)
    (enough : byteLength rest < rounds) :
    readAt (α := α) text rounds offset = (read offset rest).mapError .fault := by
  -- The induction is on the rounds, each of which leaves fewer bytes behind its word.
  induction rounds generalizing offset rest with
  | zero => omega
  | succ rounds ih =>
    cases rest with
    | nil =>
      rw [readAt, roundAt, goesOn.sliceFrom_eq, read.eq_def]
      rfl
    | cons first more =>
      rw [readAt, roundAt_eq goesOn, read_cons]
      cases scanned : Lexeme.scan (α := α) offset first more with
      | error error => rfl
      | ok found =>
        obtain ⟨lexeme, after⟩ := found
        obtain ⟨word, rfl, rfl, rfl⟩ := Lexeme.exists_of_scan scanned
        have some := word.head.utf8Size_pos
        have fewer : byteLength after < rounds := by
          rw [Text.byteLength_cons, Text.byteLength_append] at enough
          omega
        have behind : GoesOn text (offset + byteLength word.spelling) after :=
          GoesOn.behind goesOn
        show (Except.bind (readAt text rounds (offset + (byteLength _ - byteLength after))) _) =
          Except.mapError _
            (Except.bind (read (offset + (byteLength _ - byteLength after)) after) _)
        rw [byteLength_sub, ih behind fewer]
        cases read (α := α) (offset + byteLength word.spelling) after <;> rfl

end Token

variable [Scalar α]

namespace Item

/-- An assignment is cut at its colon as it is parted there. -/
theorem assignAt_eq (item : Item α) (offset : Nat) (assignment : List Char) :
    item.assignAt offset assignment = (item.assign offset assignment).mapError .fault := by
  cases assignment with
  | nil => rfl
  | cons c others =>
    rw [assignAt, Text.placeOf?_eq]
    unfold assign
    cases left : (c :: others).dropWhile (· ≠ ':') with
    | nil => rfl
    | cons colon value =>
      obtain ⟨rfl, whole⟩ := Text.parted left
      have start : GoesOn (c :: others) 0
          ((c :: others).takeWhile (· ≠ ':') ++ ':' :: value) := ⟨[], whole, rfl⟩
      have cut := start.slice_eq (ε := Error α)
      have behind := start.behind.next rfl
      rw [Nat.zero_add] at cut behind
      dsimp only
      show (Except.bind (slice (c :: others) 0 (byteLength _)) _) = _
      rw [cut]
      show (match Property.ofKey? _ with | none => _ | some property => _) = _
      cases Property.ofKey? (String.ofList ((c :: others).takeWhile (· ≠ ':'))) with
      | none => rfl
      | some property =>
        dsimp only
        rw [behind.sliceFrom_eq]
        show (Except.bind (Except.mapError _ (Expression.evaluateAt value item.scope)) _) = _
        rw [Expression.evaluateAt_eq]
        cases evaluated : Expression.evaluate item.scope value with
        | ok result => rfl
        | error failure =>
          obtain ⟨fault, rest⟩ := failure
          have within : rest <:+ value := (Expression.within_of_evaluate evaluated).suffix
          -- The place of the fault is counted from behind the colon or from the key.
          have place : offset + byteLength ((c :: others).takeWhile (· ≠ ':')) + 1 +
              (byteLength value - byteLength rest) =
                offset + (byteLength (c :: others) - byteLength rest) := by
            obtain ⟨front, rfl⟩ := within
            have parts := congrArg byteLength whole
            have one : ':'.utf8Size = 1 := rfl
            simp only [Text.byteLength_append, Text.byteLength_cons] at parts ⊢
            omega
          exact congrArg
            (fun place => Except.error (Stop.fault (Error.expression place fault))) place

/-- Assignments are applied by places as they are applied. -/
theorem assignAllAt_eq (item : Item α) (offset : Nat) (assignments : List (List Char)) :
    item.assignAllAt offset assignments = (item.assignAll offset assignments).mapError .fault := by
  induction assignments generalizing item offset with
  | nil => rfl
  | cons assignment later ih =>
    rw [assignAllAt, assignAll, assignAt_eq, mapError_bind]
    simp only [ih]

end Item

namespace Progress

/-- A token is taken up by places as it is taken up. -/
theorem stepAt_eq (progress : Progress α) (token : Token) :
    progress.stepAt token = (progress.step token).mapError .fault := by
  obtain ⟨lexeme, offset⟩ := token
  -- Only properties look into the text of their word.
  cases lexeme with
  | opening bracket | closing bracket | pitch found | rest => rfl
  | properties body =>
    show progress.editAt body offset = (progress.edit body offset).mapError .fault
    unfold editAt edit
    cases progress.items with
    | nil => rfl
    | cons item items =>
      dsimp only
      rw [Item.assignAllAt_eq, mapError_bind]
      rfl

/-- Tokens are taken up by places as they are taken up. -/
theorem runAt_eq (progress : Progress α) (tokens : List Token) :
    progress.runAt tokens = (progress.run tokens).mapError .fault := by
  induction tokens generalizing progress with
  | nil => rfl
  | cons token later ih =>
    rw [runAt, run, stepAt_eq, mapError_bind]
    simp only [ih]

end Progress

/-- A text is read by places as it is read. -/
theorem itemsAt_eq (text : String) : itemsAt (α := α) text = (items text).mapError .fault := by
  have cut : Token.ofTextAt (strip text.toList) =
      (Token.ofText (α := α) (strip text.toList)).mapError .fault :=
    Token.readAt_eq (GoesOn.start _) (Nat.lt_succ_self _)
  -- Words are cut by places, parsed and checked, each of which fails as it does on the rest of the
  -- text.
  rw [itemsAt, items, cut, mapError_bind]
  congr 1
  funext tokens
  rw [Progress.runAt_eq, region, mapError_bind]
  congr 1
  funext found
  rw [mapError_bind]
  rfl

/-- No text is cut within a character or behind its end: tokens, names of pitches, expressions,
assignments and whole texts are read by places as they are read otherwise, which never comes to a
cut. Each round of reading tokens starts where a character begins and takes at least one byte, up to
where the next one begins, so the tokens of a text are read in one round more than it has bytes. -/
theorem reading_by_places_never_cuts :
    (∀ text rounds, byteLength text < rounds →
      Token.readAt (α := α) text rounds 0 = (Token.ofText text).mapError .fault) ∧
    (∀ text offset, Text.IsBoundary text offset →
      Token.roundAt (α := α) text offset ≠ .error .cut ∧
      ∀ token width, Token.roundAt (α := α) text offset = .ok (some (token, width)) →
        0 < width ∧ Text.IsBoundary text (offset + width)) ∧
    (∀ input, Pitch.scanAt (ε := Error α) input = .ok ((Pitch.scan input).map fun (found, rest) =>
      (found, byteLength input - byteLength rest))) ∧
    (∀ text, ∀ scope : Expression.Scope α, Expression.evaluateAt text scope =
      (Expression.evaluate scope text).mapError fun failure =>
        .fault ⟨failure.fault, byteLength text - byteLength failure.rest⟩) ∧
    (∀ (item : Item α) offset body, item.assignAllAt offset (Text.pieces ',' body) =
      (item.assignAll offset (Text.pieces ',' body)).mapError .fault) ∧
    (∀ text, itemsAt (α := α) text = (items text).mapError .fault) ∧
    ∀ name, Pitch.ofNameAt name = (Pitch.ofName name).mapError .fault := by
  refine ⟨fun text rounds enough => Token.readAt_eq (GoesOn.start text) enough,
    fun text offset boundary => ?_, Pitch.scanAt_eq,
    fun text scope => Expression.evaluateAt_eq scope text,
    fun item offset body => item.assignAllAt_eq offset _, itemsAt_eq, Pitch.ofNameAt_eq⟩
  obtain ⟨rest, goesOn⟩ := Text.isBoundary_iff.mp boundary
  -- A round starts at a boundary and ends at one, with a word of some width between.
  refine ⟨Token.roundAt_ne_cut goesOn, fun token width read => ?_⟩
  obtain ⟨some, after, behind⟩ := Token.exists_of_roundAt goesOn read
  exact ⟨some, Text.isBoundary_iff.mpr ⟨after, behind⟩⟩

end Agreement

/-- A character of two bytes in a block, where it is no key, and as the name of a pitch. -/
theorem reading_by_places_never_cuts_accent :
    byteLength ['C', openBrace, 'é', closeBrace] < 6 ∧
    Token.readAt (α := ℚ) ['C', openBrace, 'é', closeBrace] 6 0 =
      .ok [⟨.pitch ⟨48⟩, 0⟩, ⟨.properties ['é'], 1⟩] ∧
    Text.IsBoundary ['C', openBrace, 'é', closeBrace] 1 ∧
    Token.roundAt (α := ℚ) ['C', openBrace, 'é', closeBrace] 1 =
      .ok (some (⟨.properties ['é'], 1⟩, 4)) ∧
    Text.IsBoundary ['C', openBrace, 'é', closeBrace] (1 + 4) ∧
    itemsAt (α := ℚ) "C\x7bé\x7d" = .error (.fault (.missingValue 2)) ∧
    Pitch.ofNameAt "é" = .error (.fault (.invalidName "é")) := by
  obtain ⟨tokens, round, _, _, _, read, named⟩ := reading_by_places_never_cuts (α := ℚ)
  have few : byteLength ['C', openBrace, 'é', closeBrace] < 6 := by decide
  have boundary : Text.IsBoundary ['C', openBrace, 'é', closeBrace] 1 := by decide
  have block : Token.roundAt (α := ℚ) ['C', openBrace, 'é', closeBrace] 1 =
      .ok (some (⟨.properties ['é'], 1⟩, 4)) := by decide
  -- The accented letter takes two bytes, which the block counts.
  refine ⟨few, ?_, boundary, block, ((round _ 1 boundary).2 _ 4 block).2, ?_, ?_⟩
  · rw [tokens _ 6 few]
    cbv
  · rw [read]
    cbv
  · rw [named]
    cbv

end Melody.Notation
