import Melody.Proofs.Notation.Failing
import Melody.Proofs.Text.Slice

/-! Expressions are read by a cursor that counts bytes and always stands between characters. -/

namespace Melody.Expression

open Text (GoesOn Stop byteLength slice sliceFrom)

/-- A fault with its place in the text. -/
structure Misread where
  fault : Fault
  place : Nat
deriving DecidableEq, Repr

/-- What is read by places, or why nothing is. -/
abbrev Reading : Type → Type :=
  Except (Stop Misread)

section Cursor

variable {α : Type} (text : List Char)

/-- The character at a place, if the text does not end there. -/
def peek (place : Nat) : Reading (Option Char) := do
  return (← sliceFrom text place).head?

/-- Reads a run of bytes from a place on and looks up the value of what stands there. -/
def tokenAt (part : Char → Bool) (look : List Char → Option α) (fault : List Char → Fault)
    (start : Nat) : Reading (α × Nat) := do
  let stop := start + Text.runBytes part (← sliceFrom text start)
  let word ← slice text start stop
  match look word with
  | some value => return (value, stop)
  | none => throw (.fault ⟨fault word, start⟩)

variable [Scalar α] (scope : Scope α)

mutual

/-- Reads products joined by plus and minus from a place on. -/
def sumAt : Nat → Nat → Reading (α × Nat)
  | 0, _ => throw .endless
  | rounds + 1, place => do
    let (value, place) ← productAt rounds place
    sumFromAt rounds value place

/-- Adds and subtracts further products from a place on. -/
def sumFromAt : Nat → α → Nat → Reading (α × Nat)
  | 0, _, _ => throw .endless
  | rounds + 1, value, place => do
    let next ← peek text place
    if next = some '+' then
      let (added, place) ← productAt rounds (place + 1)
      sumFromAt rounds (value + added) place
    else if next = some '-' then
      let (taken, place) ← productAt rounds (place + 1)
      sumFromAt rounds (value - taken) place
    else return (value, place)

/-- Reads signed factors joined by multiplication and division from a place on. -/
def productAt : Nat → Nat → Reading (α × Nat)
  | 0, _ => throw .endless
  | rounds + 1, place => do
    let (value, place) ← unaryAt rounds place
    productFromAt rounds value place

/-- Multiplies and divides by further factors from a place on. -/
def productFromAt : Nat → α → Nat → Reading (α × Nat)
  | 0, _, _ => throw .endless
  | rounds + 1, value, place => do
    let next ← peek text place
    if next = some '*' then
      let (factor, place) ← unaryAt rounds (place + 1)
      productFromAt rounds (value * factor) place
    else if next = some '/' then
      let (divisor, place) ← unaryAt rounds (place + 1)
      productFromAt rounds (value / divisor) place
    else return (value, place)

/-- Reads any number of signs before an atom from a place on. -/
def unaryAt : Nat → Nat → Reading (α × Nat)
  | 0, _ => throw .endless
  | rounds + 1, place => do
    let next ← peek text place
    if next = some '-' then
      let (value, place) ← unaryAt rounds (place + 1)
      return (-value, place)
    else if next = some '+' then unaryAt rounds (place + 1)
    else atomAt rounds place

/-- Reads a sum in parentheses, a number or a name from a place on. -/
def atomAt : Nat → Nat → Reading (α × Nat)
  | 0, _ => throw .endless
  | rounds + 1, place => do
    match ← peek text place with
    | none => throw (.fault ⟨.unexpectedEnd, place⟩)
    | some first =>
      if first = '(' then
        let (value, place) ← sumAt rounds (place + 1)
        if (← peek text place) = some ')' then return (value, place + 1)
        else throw (.fault ⟨.expectedClose, place⟩)
      else if isNumeric first then
        tokenAt text isNumeric scope.numeral (fun _ => .invalidNumber) place
      else if first.isAlpha then tokenAt text isNamePart scope.name .unknownVariable place
      else throw (.fault ⟨.unexpectedCharacter, place⟩)

end

/-- The value of a whole text, read by places in as many rounds as its bytes allow for. -/
def evaluateAt : Reading α := do
  let (value, place) ← sumAt text scope (5 * byteLength text + 4) 0
  if place < byteLength text then throw (.fault ⟨.unexpectedCharacter, place⟩)
  else return value

end Cursor

section Agreement

variable {α β : Type} {text rest more : List Char} {place : Nat}

/-- What has been read of a part of a text, told by places in the whole text. -/
def told (text : List Char) (found : Except Failure (α × List Char)) : Reading (α × Nat) :=
  match found with
  | .ok (value, rest) => .ok (value, byteLength text - byteLength rest)
  | .error ⟨fault, rest⟩ => .error (.fault ⟨fault, byteLength text - byteLength rest⟩)

/-- Two steps are told as the first one is, and then as the second one from its rest on. -/
theorem told_bind {found : Except Failure (β × List Char)}
    {next : β × List Char → Except Failure (α × List Char)} {nextAt : β × Nat → Reading (α × Nat)}
    (agrees : ∀ value rest, found = .ok (value, rest) →
      nextAt (value, byteLength text - byteLength rest) = told text (next (value, rest))) :
    told text found >>= nextAt = told text (found >>= next) := by
  rcases found with failure | ⟨value, rest⟩
  · rfl
  · exact agrees value rest rfl

/-- What is read without a step is told by the place of the rest. -/
theorem told_ok (goesOn : GoesOn text place rest) (value : α) :
    told text (.ok (value, rest)) = .ok (value, place) := by
  rw [told, ← goesOn.place_eq]

/-- What fails is told by the place of the rest. -/
theorem told_error (goesOn : GoesOn text place rest) (fault : Fault) :
    told (α := α) text (.error ⟨fault, rest⟩) = .error (.fault ⟨fault, place⟩) := by
  rw [told, ← goesOn.place_eq]

/-- The character at a place is the first that the text goes on with. -/
theorem peek_eq (goesOn : GoesOn text place rest) : peek text place = .ok rest.head? := by
  rw [peek, goesOn.sliceFrom_eq]
  rfl

/-- A cursor goes on by one of two characters, or in a third way where neither of them stands. -/
theorem peek_bind {first second : Char} {one other otherwise result : Reading β}
    (goesOn : GoesOn text place rest) (apart : first ≠ second)
    (stop : (∀ c ∈ rest.head?, c ≠ first ∧ c ≠ second) → otherwise = result)
    (onFirst : ∀ more, rest = first :: more → one = result)
    (onSecond : ∀ more, rest = second :: more → other = result) :
    (peek text place >>= fun next =>
      if next = some first then one else if next = some second then other else otherwise) =
        result := by
  rw [peek_eq goesOn]
  show (if rest.head? = some first then one
    else if rest.head? = some second then other else otherwise) = result
  -- The character at the place decides, as it does in the text that goes on there.
  by_cases stops : ∀ c ∈ rest.head?, c ≠ first ∧ c ≠ second
  · have neither : rest.head? ≠ some first ∧ rest.head? ≠ some second :=
      ⟨fun starts => (stops first starts).1 rfl, fun starts => (stops second starts).2 rfl⟩
    rw [if_neg neither.1, if_neg neither.2]
    exact stop stops
  · obtain ⟨more, _, rfl | rfl⟩ := starts_of_not_stop stops
    · rw [List.head?_cons, if_pos rfl]
      exact onFirst more rfl
    · rw [List.head?_cons, if_neg fun same => apart (Option.some.inj same).symm, if_pos rfl]
      exact onSecond more rfl

/-- All characters of a numeral take one byte. -/
theorem short_of_isNumeric (c : Char) (numeric : isNumeric c = true) : c.toNat < 128 := by
  rcases Bool.or_eq_true_iff.mp numeric with digit | point
  · exact Text.toNat_lt_of_isAlphanum (by simp [Char.isAlphanum, digit])
  · rw [beq_iff_eq.mp point]
    decide

/-- All characters of a name take one byte. -/
theorem short_of_isNamePart (c : Char) (part : isNamePart c = true) : c.toNat < 128 := by
  rcases Bool.or_eq_true_iff.mp part with alphanumeric | line
  · exact Text.toNat_lt_of_isAlphanum alphanumeric
  · rw [beq_iff_eq.mp line]
    decide

/-- A run of characters of one byte each is read by places as it is read from a text. -/
theorem tokenAt_eq {part : Char → Bool} {look : List Char → Option α}
    {fault : List Char → Fault} {first : Char} (short : ∀ c, part c = true → c.toNat < 128)
    (starts : part first = true) (goesOn : GoesOn text place (first :: more)) :
    tokenAt text part look fault place =
      told text (unbounded (token part look fault first more)) := by
  have run : (first :: more).takeWhile part = first :: more.takeWhile part :=
    List.takeWhile_cons_of_pos starts
  have whole : first :: more = (first :: more.takeWhile part) ++ more.dropWhile part := by
    rw [List.cons_append, List.takeWhile_append_dropWhile]
  have goesOn' := goesOn
  rw [whole] at goesOn'
  have counted := Text.runBytes_eq short (first :: more)
  rw [run] at counted
  have cut := goesOn'.slice_eq (ε := Misread)
  -- As many bytes are counted as the run takes, so that the run is what is cut out.
  rw [tokenAt, goesOn.sliceFrom_eq]
  show (slice text place (place + Text.runBytes part (first :: more)) >>= _) = _
  rw [counted, cut, token]
  show (match look (first :: more.takeWhile part) with | some value => _ | none => _) = _
  cases look (first :: more.takeWhile part) with
  | none => exact (told_error goesOn _).symm
  | some value => exact (told_ok goesOn'.behind _).symm

/-- A closing parenthesis must follow what stands behind an opening one. -/
def closing (found : α × List Char) : Except Failure (α × List Char) :=
  match found.2 with
  | ')' :: last => .ok (found.1, last)
  | other => .error ⟨.expectedClose, other⟩

/-- Behind a sum a cursor looks for the parenthesis as a text is looked at. -/
theorem closing_told (goesOn : GoesOn text place rest) (value : α) :
    (do if (← peek text place) = some ')' then return (value, place + 1)
        else throw (.fault ⟨.expectedClose, place⟩)) = told text (closing (value, rest)) := by
  rw [peek_eq goesOn]
  show (if rest.head? = some ')' then _ else _) = _
  -- The end of the text closes nothing, and is where the fault is found.
  cases rest with
  | nil => exact (told_error goesOn _).symm
  | cons c last =>
    by_cases closes : c = ')'
    · subst closes
      exact (told_ok (goesOn.next rfl) value).symm
    · have refused : closing (value, c :: last) = .error ⟨.expectedClose, c :: last⟩ := by
        simp [closing, closes]
      rw [List.head?_cons, if_neg fun same => closes (Option.some.inj same), refused]
      exact (told_error goesOn _).symm

section Levels

variable [Scalar α] {scope : Scope α}

/-- A sum in parentheses is closed behind it. -/
theorem unbounded_atom_closing (text : List Char) :
    unbounded (atom scope ('(' :: text)) = unbounded (sum scope text) >>= closing := by
  rw [atom.eq_2]
  -- What stands in brackets is a sum, the fault of which comes first.
  rcases sum scope text with failure | ⟨inside, last, shorter⟩
  · rfl
  · show _ = closing (inside, last)
    unfold closing Parsed.closed
    rcases last with _ | ⟨c, last⟩
    · rfl
    · by_cases closes : c = ')'
      · subst closes
        rfl
      · simp [closes, unbounded, Except.map]

mutual

/-- A sum is read by places as it is read from a text. -/
theorem sumAt_eq {rounds place : Nat} {rest : List Char}
    (goesOn : GoesOn text place rest) (enough : 5 * rest.length + 3 < rounds) :
    sumAt text scope rounds place = told text (unbounded (sum scope rest)) := by
  -- Each reader needs more rounds than the ones it asks, by the measure with which they all end.
  cases rounds with
  | zero => omega
  | succ rounds =>
    rw [sumAt, productAt_eq goesOn (by omega), unbounded_sum]
    refine told_bind fun first middle read => ?_
    have shorter := bound_of_unbounded read
    exact sumFromAt_eq (goesOn.ofSuffix (derives_of_product read).suffix) (by omega)
termination_by rounds

/-- Further products are read by places as they are read from a text. -/
theorem sumFromAt_eq {rounds place : Nat} {rest : List Char} {value : α}
    (goesOn : GoesOn text place rest) (enough : 5 * rest.length + 4 < rounds) :
    sumFromAt text scope rounds value place = told text (unbounded (sumFrom scope value rest)) := by
  cases rounds with
  | zero => omega
  | succ rounds =>
    rw [sumFromAt]
    -- Three ways to go on: the sum ends here, or a product is added or taken away.
    refine peek_bind goesOn (by decide) (fun stop => ?_) ?_ ?_
    · rw [unbounded_sumFrom_stop _ _ _ stop, told_ok goesOn]
      rfl
    · rintro more rfl
      rw [List.length_cons] at enough
      have behind := goesOn.next rfl
      rw [productAt_eq behind (by omega), unbounded_sumFrom_plus]
      refine told_bind fun next middle read => ?_
      have shorter := bound_of_unbounded read
      exact sumFromAt_eq (behind.ofSuffix (derives_of_product read).suffix) (by omega)
    · rintro more rfl
      rw [List.length_cons] at enough
      have behind := goesOn.next rfl
      rw [productAt_eq behind (by omega), unbounded_sumFrom_minus]
      refine told_bind fun next middle read => ?_
      have shorter := bound_of_unbounded read
      exact sumFromAt_eq (behind.ofSuffix (derives_of_product read).suffix) (by omega)
termination_by rounds

/-- A product is read by places as it is read from a text. -/
theorem productAt_eq {rounds place : Nat} {rest : List Char}
    (goesOn : GoesOn text place rest) (enough : 5 * rest.length + 2 < rounds) :
    productAt text scope rounds place = told text (unbounded (product scope rest)) := by
  -- The first factor takes one of the rounds and the rest of the product those that are left.
  cases rounds with
  | zero => omega
  | succ rounds =>
    rw [productAt, unaryAt_eq goesOn (by omega), unbounded_product]
    refine told_bind fun first middle read => ?_
    have shorter := bound_of_unbounded read
    exact productFromAt_eq (goesOn.ofSuffix (derives_of_unary read).suffix) (by omega)
termination_by rounds

/-- Further factors are read by places as they are read from a text. -/
theorem productFromAt_eq {rounds place : Nat} {rest : List Char} {value : α}
    (goesOn : GoesOn text place rest) (enough : 5 * rest.length + 4 < rounds) :
    productFromAt text scope rounds value place =
      told text (unbounded (productFrom scope value rest)) := by
  cases rounds with
  | zero => omega
  | succ rounds =>
    rw [productFromAt]
    -- Three ways to go on: the product ends here, or a factor or a divisor follows.
    refine peek_bind goesOn (by decide) (fun stop => ?_) ?_ ?_
    · rw [unbounded_productFrom_stop _ _ _ stop, told_ok goesOn]
      rfl
    · rintro more rfl
      rw [List.length_cons] at enough
      have behind := goesOn.next rfl
      rw [unaryAt_eq behind (by omega), unbounded_productFrom_times]
      refine told_bind fun next middle read => ?_
      have shorter := bound_of_unbounded read
      exact productFromAt_eq (behind.ofSuffix (derives_of_unary read).suffix) (by omega)
    · rintro more rfl
      rw [List.length_cons] at enough
      have behind := goesOn.next rfl
      rw [unaryAt_eq behind (by omega), unbounded_productFrom_over]
      refine told_bind fun next middle read => ?_
      have shorter := bound_of_unbounded read
      exact productFromAt_eq (behind.ofSuffix (derives_of_unary read).suffix) (by omega)
termination_by rounds

/-- A factor is read by places as it is read from a text. -/
theorem unaryAt_eq {rounds place : Nat} {rest : List Char}
    (goesOn : GoesOn text place rest) (enough : 5 * rest.length + 1 < rounds) :
    unaryAt text scope rounds place = told text (unbounded (unary scope rest)) := by
  cases rounds with
  | zero => omega
  | succ rounds =>
    rw [unaryAt]
    -- A sign may stand before the value, or none.
    refine peek_bind goesOn (by decide) (fun unsigned => ?_) ?_ ?_
    · rw [unary_eq_atom _ _ unsigned]
      exact atomAt_eq goesOn (by omega)
    · rintro more rfl
      rw [List.length_cons] at enough
      rw [unaryAt_eq (goesOn.next rfl) (by omega), unbounded_unary_minus]
      rcases unbounded (unary scope more) with failure | ⟨next, middle⟩ <;> rfl
    · rintro more rfl
      rw [List.length_cons] at enough
      rw [unbounded_unary_plus]
      exact unaryAt_eq (goesOn.next rfl) (by omega)
termination_by rounds

/-- An atom is read by places as it is read from a text. -/
theorem atomAt_eq {rounds place : Nat} {rest : List Char}
    (goesOn : GoesOn text place rest) (enough : 5 * rest.length < rounds) :
    atomAt text scope rounds place = told text (unbounded (atom scope rest)) := by
  cases rounds with
  | zero => omega
  | succ rounds =>
    rw [atomAt, peek_eq goesOn]
    cases rest with
    | nil =>
      rw [atom.eq_1]
      exact (told_error goesOn _).symm
    | cons first more =>
      rw [List.length_cons] at enough
      show (if first = '(' then _ else if isNumeric first = true then _
        else if first.isAlpha = true then _ else _) = _
      -- The first character tells a bracket, a number and a name apart, in this order.
      by_cases opens : first = '('
      · subst opens
        rw [if_pos rfl, sumAt_eq (goesOn.next rfl) (by omega), unbounded_atom_closing]
        refine told_bind fun value middle read => ?_
        exact closing_told ((goesOn.next rfl).ofSuffix (derives_of_sum read).suffix) value
      rw [if_neg opens, atom.eq_3 scope first more opens]
      by_cases numeric : isNumeric first = true
      · rw [if_pos numeric, if_pos numeric]
        exact tokenAt_eq short_of_isNumeric numeric goesOn
      rw [if_neg numeric, if_neg numeric]
      by_cases letter : first.isAlpha = true
      · rw [if_pos letter, if_pos letter]
        refine tokenAt_eq short_of_isNamePart ?_ goesOn
        simp [isNamePart, Char.isAlphanum, letter]
      · rw [if_neg letter, if_neg letter]
        exact (told_error goesOn _).symm
termination_by rounds

end

/-- Every text is read by places as it is read, with no cut at a wrong place and rounds enough. -/
theorem evaluateAt_eq (scope : Scope α) (text : List Char) :
    evaluateAt text scope = (evaluate scope text).mapError fun failure =>
      .fault ⟨failure.fault, byteLength text - byteLength failure.rest⟩ := by
  have enough : 5 * text.length + 3 < 5 * byteLength text + 4 := by
    have bytes := Text.length_le_byteLength text
    omega
  rw [evaluateAt, sumAt_eq (GoesOn.start text) enough, evaluate]
  cases read : sum scope text with
  | error failure => rfl
  | ok found =>
    obtain ⟨value, rest, shorter⟩ := found
    -- The cursor has come to the end exactly when nothing is left.
    show (if byteLength text - byteLength rest < byteLength text then _ else _) = _
    cases rest with
    | nil => exact if_neg (Nat.lt_irrefl (byteLength text))
    | cons c later =>
      have some := c.utf8Size_pos
      have bytes := Text.length_le_byteLength text
      rw [Text.byteLength_cons]
      exact if_pos (by omega)

end Levels

end Agreement

end Melody.Expression
