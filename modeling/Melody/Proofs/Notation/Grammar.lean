import Mathlib
import Melody.Notation.Expression
import Melody.Proofs.Outcome
import Melody.Proofs.Text.Run

/-! Expressions are read exactly as their grammar derives them, with the value it gives them. -/

namespace Melody.Expression

/-- The levels of the grammar, of which each binds tighter than the one before. -/
inductive Level where
  | sum
  | product
  | unary
  | atom
deriving DecidableEq, Repr

/-- A word is the longest run of characters of one kind before a rest. -/
structure LongestRun (part : Char → Bool) (word rest : List Char) : Prop where
  nonempty : word ≠ []
  within : ∀ c ∈ word, part c = true
  longest : ∀ c ∈ rest.head?, part c = false

/-- What a text has before a rest is derived at a level of the grammar, with a value. -/
inductive Derives {α : Type} [Scalar α] (scope : Scope α) :
    Level → List Char → List Char → α → Prop where
  /-- A sum starts with a product. -/
  | product {text rest : List Char} {value : α} (first : Derives scope .product text rest value) :
      Derives scope .sum text rest value
  /-- Further products are added to all that stands before them. -/
  | plus {text middle rest : List Char} {value next : α}
      (before : Derives scope .sum text ('+' :: middle) value)
      (last : Derives scope .product middle rest next) :
      Derives scope .sum text rest (value + next)
  /-- Further products are subtracted from all that stands before them. -/
  | minus {text middle rest : List Char} {value next : α}
      (before : Derives scope .sum text ('-' :: middle) value)
      (last : Derives scope .product middle rest next) :
      Derives scope .sum text rest (value - next)
  /-- A product starts with a signed factor. -/
  | unary {text rest : List Char} {value : α} (first : Derives scope .unary text rest value) :
      Derives scope .product text rest value
  /-- All that stands before a further factor is multiplied by it. -/
  | times {text middle rest : List Char} {value next : α}
      (before : Derives scope .product text ('*' :: middle) value)
      (last : Derives scope .unary middle rest next) :
      Derives scope .product text rest (value * next)
  /-- All that stands before a further factor is divided by it. -/
  | divided {text middle rest : List Char} {value next : α}
      (before : Derives scope .product text ('/' :: middle) value)
      (last : Derives scope .unary middle rest next) :
      Derives scope .product text rest (value / next)
  | negative {text rest : List Char} {value : α} (signed : Derives scope .unary text rest value) :
      Derives scope .unary ('-' :: text) rest (-value)
  | positive {text rest : List Char} {value : α} (signed : Derives scope .unary text rest value) :
      Derives scope .unary ('+' :: text) rest value
  | atom {text rest : List Char} {value : α} (unsigned : Derives scope .atom text rest value) :
      Derives scope .unary text rest value
  | group {text rest : List Char} {value : α}
      (inside : Derives scope .sum text (')' :: rest) value) :
      Derives scope .atom ('(' :: text) rest value
  /-- A numeral is made of digits and points, as many as there are. -/
  | numeral {word rest : List Char} {value : α} (run : LongestRun isNumeric word rest)
      (known : scope.numeral word = some value) : Derives scope .atom (word ++ rest) rest value
  /-- A name starts with a letter and goes on as far as it can. -/
  | name {first : Char} {more rest : List Char} {value : α} (letter : first.isAlpha = true)
      (run : LongestRun isNamePart (first :: more) rest)
      (known : scope.name (first :: more) = some value) :
      Derives scope .atom (first :: more ++ rest) rest value

section Bounds

variable {α : Type} {bound : List Char → Prop}

/-- What has been read without the bound on the length of its rest. -/
def unbounded (found : Except Failure (α × { rest : List Char // bound rest })) :
    Except Failure (α × List Char) :=
  found.map fun (value, rest) => (value, rest.1)

/-- The rest of what has been read keeps its bound. -/
theorem bound_of_unbounded {found : Except Failure (α × { rest : List Char // bound rest })}
    {value : α} {rest : List Char} (read : unbounded found = .ok (value, rest)) : bound rest := by
  cases found with
  | error failure => contradiction
  | ok pair =>
    cases read
    exact pair.2.2

/-- Characters before a text make no difference to what is left of it. -/
@[simp] theorem unbounded_after {first : Char} {more rest : List Char}
    (shorter : rest.length < more.length) (found : Extended α rest) :
    unbounded (Extended.after shorter found : Extended α (first :: more)) = unbounded found := by
  rcases found with failure | ⟨value, last, bound⟩ <;> rfl

/-- The longest run of characters is looked up as a whole. -/
theorem unbounded_token {part : Char → Bool} {look : List Char → Option α}
    {fault : List Char → Fault} {first : Char} {more rest : List Char} {value : α}
    (starts : part first = true) :
    unbounded (token part look fault first more) = .ok (value, rest) ↔
      ∃ word, first :: more = word ++ rest ∧ LongestRun part word rest ∧
        look word = some value := by
  -- The run is the same whether it is taken from the text or cut off in front of the rest.
  constructor
  · intro read
    have whole : first :: more = (first :: more.takeWhile part) ++ more.dropWhile part := by
      rw [List.cons_append, List.takeWhile_append_dropWhile]
    unfold token at read
    split at read
    · rename_i found known
      cases read
      refine ⟨_, whole, ⟨List.cons_ne_nil _ _, ?_, Text.head?_dropWhile_stop part more⟩, known⟩
      exact List.forall_mem_cons.mpr ⟨starts, Text.part_of_mem_takeWhile⟩
    · contradiction
  · rintro ⟨word, split, ⟨nonempty, within, longest⟩, known⟩
    obtain ⟨head, tail, rfl⟩ := List.exists_cons_of_ne_nil nonempty
    rw [List.cons_append] at split
    obtain ⟨rfl, rfl⟩ := List.cons.inj split
    have inside := (List.forall_mem_cons.mp within).2
    have taken := Text.takeWhile_append_stop inside longest
    have left := Text.dropWhile_append_stop inside longest
    unfold token
    rw [taken, known]
    simp [unbounded, Except.map, left]

end Bounds

variable {α : Type} [Scalar α] {scope : Scope α} {text rest : List Char} {value : α}

/-- No letter is a part of a numeral. -/
theorem not_isNumeric_of_isAlpha {c : Char} (letter : c.isAlpha = true) : ¬ isNumeric c = true := by
  -- The codes of letters lie above those of digits, and the point is none of them.
  intro numeric
  simp only [isNumeric, Char.isDigit, Char.isAlpha, Char.isUpper, Char.isLower, Bool.or_eq_true,
    Bool.and_eq_true, decide_eq_true_eq, beq_iff_eq, ge_iff_le, UInt32.le_iff_toNat_le] at *
  rcases numeric with digit | rfl
  · simp at letter digit
    omega
  · simp at letter

section Equations

variable (scope : Scope α) (value : α) (text : List Char)

/-- A sum is a product with what is added to it. -/
theorem unbounded_sum :
    unbounded (sum scope text) =
      unbounded (product scope text) >>= fun (first, rest) =>
        unbounded (sumFrom scope first rest) := by
  -- What is left of the product is what the sum goes on with.
  rw [sum]
  rcases product scope text with failure | ⟨first, rest, shorter⟩
  · rfl
  · show _ = unbounded (sumFrom scope first rest)
    dsimp only
    rcases sumFrom scope first rest with failure | ⟨total, last, bound⟩ <;> rfl

/-- A product is a factor with what it is multiplied by. -/
theorem unbounded_product :
    unbounded (product scope text) =
      unbounded (unary scope text) >>= fun (first, rest) =>
        unbounded (productFrom scope first rest) := by
  -- What is left of the factor is what the product goes on with.
  rw [product]
  rcases unary scope text with failure | ⟨first, rest, shorter⟩
  · rfl
  · show _ = unbounded (productFrom scope first rest)
    dsimp only
    rcases productFrom scope first rest with failure | ⟨total, last, bound⟩ <;> rfl

/-- A plus is followed by a product that is added. -/
theorem unbounded_sumFrom_plus :
    unbounded (sumFrom scope value ('+' :: text)) =
      unbounded (product scope text) >>= fun (next, rest) =>
        unbounded (sumFrom scope (value + next) rest) := by
  rw [sumFrom]
  rcases product scope text with failure | ⟨next, rest, shorter⟩
  · rfl
  · exact unbounded_after shorter _

/-- A minus is followed by a product that is subtracted. -/
theorem unbounded_sumFrom_minus :
    unbounded (sumFrom scope value ('-' :: text)) =
      unbounded (product scope text) >>= fun (next, rest) =>
        unbounded (sumFrom scope (value - next) rest) := by
  rw [sumFrom]
  rcases product scope text with failure | ⟨next, rest, shorter⟩
  · rfl
  · exact unbounded_after shorter _

/-- A sum ends where neither plus nor minus follows. -/
theorem unbounded_sumFrom_stop (stop : ∀ c ∈ text.head?, c ≠ '+' ∧ c ≠ '-') :
    unbounded (sumFrom scope value text) = .ok (value, text) := by
  rw [sumFrom.eq_def]
  split
  · exact absurd rfl (stop '+' rfl).1
  · exact absurd rfl (stop '-' rfl).2
  · rfl

/-- A star is followed by a factor that is multiplied. -/
theorem unbounded_productFrom_times :
    unbounded (productFrom scope value ('*' :: text)) =
      unbounded (unary scope text) >>= fun (next, rest) =>
        unbounded (productFrom scope (value * next) rest) := by
  rw [productFrom]
  rcases unary scope text with failure | ⟨next, rest, shorter⟩
  · rfl
  · exact unbounded_after shorter _

/-- A stroke is followed by a factor that is divided by. -/
theorem unbounded_productFrom_over :
    unbounded (productFrom scope value ('/' :: text)) =
      unbounded (unary scope text) >>= fun (next, rest) =>
        unbounded (productFrom scope (value / next) rest) := by
  rw [productFrom]
  rcases unary scope text with failure | ⟨next, rest, shorter⟩
  · rfl
  · exact unbounded_after shorter _

/-- A product ends where neither star nor stroke follows. -/
theorem unbounded_productFrom_stop (stop : ∀ c ∈ text.head?, c ≠ '*' ∧ c ≠ '/') :
    unbounded (productFrom scope value text) = .ok (value, text) := by
  rw [productFrom.eq_def]
  split
  · exact absurd rfl (stop '*' rfl).1
  · exact absurd rfl (stop '/' rfl).2
  · rfl

/-- A minus before a factor changes its sign. -/
theorem unbounded_unary_minus :
    unbounded (unary scope ('-' :: text)) =
      (unbounded (unary scope text)).map fun (next, rest) => (-next, rest) := by
  rw [unary]
  rcases unary scope text with failure | ⟨next, rest, shorter⟩ <;> rfl

/-- A plus before a factor changes nothing. -/
theorem unbounded_unary_plus :
    unbounded (unary scope ('+' :: text)) = unbounded (unary scope text) := by
  rw [unary]
  rcases unary scope text with failure | ⟨next, rest, shorter⟩ <;> rfl

/-- A factor without a sign is an atom. -/
theorem unary_eq_atom (unsigned : ∀ c ∈ text.head?, c ≠ '-' ∧ c ≠ '+') :
    unary scope text = atom scope text := by
  rw [unary.eq_def]
  split
  · exact absurd rfl (unsigned '-' rfl).1
  · exact absurd rfl (unsigned '+' rfl).2
  · rfl

/-- A sum in parentheses is followed by the one that closes them. -/
theorem unbounded_atom_group :
    unbounded (atom scope ('(' :: text)) = .ok (value, rest) ↔
      unbounded (sum scope text) = .ok (value, ')' :: rest) := by
  -- The text inside is read first, and then the character behind it decides.
  rw [atom.eq_2]
  rcases sum scope text with failure | ⟨inside, last, shorter⟩
  · simp [Parsed.closed, unbounded, Except.map]
  · rcases last with _ | ⟨c, last⟩
    · simp [Parsed.closed, unbounded, Except.map]
    · by_cases closes : c = ')'
      · subst closes
        simp [Parsed.closed, unbounded, Except.map]
      · simp [Parsed.closed, unbounded, Except.map, closes]

/-- A numeral is read as the longest run of its characters. -/
theorem unbounded_atom_numeral {first : Char} {more : List Char}
    (numeric : isNumeric first = true) :
    unbounded (atom scope (first :: more)) = .ok (value, rest) ↔
      ∃ word, first :: more = word ++ rest ∧ LongestRun isNumeric word rest ∧
        scope.numeral word = some value := by
  -- A numeral starts with no parenthesis, so the third case of an atom is reached.
  have opening : first ≠ '(' := by
    rintro rfl
    contradiction
  rw [atom.eq_3 scope first more opening, if_pos numeric]
  exact unbounded_token numeric

/-- A name is read as the longest run of its characters. -/
theorem unbounded_atom_name {first : Char} {more : List Char} (letter : first.isAlpha = true) :
    unbounded (atom scope (first :: more)) = .ok (value, rest) ↔
      ∃ word, first :: more = word ++ rest ∧ LongestRun isNamePart word rest ∧
        scope.name word = some value := by
  -- A letter is neither a parenthesis nor a part of a numeral.
  have opening : first ≠ '(' := by
    rintro rfl
    contradiction
  have starts : isNamePart first = true := by
    simp [isNamePart, Char.isAlphanum, letter]
  rw [atom.eq_3 scope first more opening, if_neg (not_isNumeric_of_isAlpha letter),
    if_pos letter]
  exact unbounded_token starts

end Equations

/-- A text that does not stop before one of two characters goes on with one of them. -/
theorem starts_of_not_stop {first second : Char} {text : List Char}
    (onward : ¬ ∀ c ∈ text.head?, c ≠ first ∧ c ≠ second) :
    ∃ more, more.length < text.length ∧ (text = first :: more ∨ text = second :: more) := by
  -- A text that does not stop here begins with one of the two signs.
  cases text with
  | nil => simp at onward
  | cons c more =>
    refine ⟨more, Nat.lt_succ_self _, ?_⟩
    by_cases same : c = first
    · exact .inl (congrArg (· :: more) same)
    · have other : c = second := by simpa [same] using onward
      exact .inr (congrArg (· :: more) other)

/-- No atom starts with a sign. -/
theorem unsigned_of_derives (derived : Derives scope .atom text rest value) :
    ∀ c ∈ text.head?, c ≠ '-' ∧ c ≠ '+' := by
  -- The three kinds of atoms start with a parenthesis, a digit or point, and a letter.
  intro c starts
  cases derived with
  | group inside =>
    cases starts
    decide
  | numeral run known =>
    obtain ⟨first, more, rfl⟩ := List.exists_cons_of_ne_nil run.nonempty
    have numeric : isNumeric first = true := run.within first (List.mem_cons_self ..)
    cases starts
    constructor <;> rintro rfl <;> contradiction
  | name letter run known =>
    cases starts
    constructor <;> rintro rfl <;> contradiction

mutual

/-- What is read as a sum is derived as one. -/
theorem derives_of_sum {text rest : List Char} {value : α}
    (read : unbounded (sum scope text) = .ok (value, rest)) :
    Derives scope .sum text rest value := by
  -- The first product is a sum, which what follows makes longer.
  rw [unbounded_sum] at read
  obtain ⟨⟨first, middle⟩, head, tail⟩ := bind_eq_ok.mp read
  have shorter := bound_of_unbounded head
  exact derives_of_sumFrom (.product (derives_of_product head)) tail
termination_by (text.length, 3)

/-- What is read after a sum makes a longer sum of it. -/
theorem derives_of_sumFrom {start text rest : List Char} {before value : α}
    (derived : Derives scope .sum start text before)
    (read : unbounded (sumFrom scope before text) = .ok (value, rest)) :
    Derives scope .sum start rest value := by
  by_cases stop : ∀ c ∈ text.head?, c ≠ '+' ∧ c ≠ '-'
  · rw [unbounded_sumFrom_stop _ _ _ stop] at read
    cases read
    exact derived
  · -- Each further product is added or subtracted before the next one is read.
    obtain ⟨more, less, same | same⟩ := starts_of_not_stop stop
    · rw [same] at derived read
      rw [unbounded_sumFrom_plus] at read
      obtain ⟨⟨next, middle⟩, head, tail⟩ := bind_eq_ok.mp read
      have shorter := Nat.lt_trans (bound_of_unbounded head) less
      exact derives_of_sumFrom (.plus derived (derives_of_product head)) tail
    · rw [same] at derived read
      rw [unbounded_sumFrom_minus] at read
      obtain ⟨⟨next, middle⟩, head, tail⟩ := bind_eq_ok.mp read
      have shorter := Nat.lt_trans (bound_of_unbounded head) less
      exact derives_of_sumFrom (.minus derived (derives_of_product head)) tail
termination_by (text.length, 4)

/-- What is read as a product is derived as one. -/
theorem derives_of_product {text rest : List Char} {value : α}
    (read : unbounded (product scope text) = .ok (value, rest)) :
    Derives scope .product text rest value := by
  -- The first factor is a product, which what follows makes longer.
  rw [unbounded_product] at read
  obtain ⟨⟨first, middle⟩, head, tail⟩ := bind_eq_ok.mp read
  have shorter := bound_of_unbounded head
  exact derives_of_productFrom (.unary (derives_of_unary head)) tail
termination_by (text.length, 2)

/-- What is read after a product makes a longer product of it. -/
theorem derives_of_productFrom {start text rest : List Char} {before value : α}
    (derived : Derives scope .product start text before)
    (read : unbounded (productFrom scope before text) = .ok (value, rest)) :
    Derives scope .product start rest value := by
  by_cases stop : ∀ c ∈ text.head?, c ≠ '*' ∧ c ≠ '/'
  · rw [unbounded_productFrom_stop _ _ _ stop] at read
    cases read
    exact derived
  · -- Each further factor is multiplied or divided by before the next one is read.
    obtain ⟨more, less, same | same⟩ := starts_of_not_stop stop
    · rw [same] at derived read
      rw [unbounded_productFrom_times] at read
      obtain ⟨⟨next, middle⟩, head, tail⟩ := bind_eq_ok.mp read
      have shorter := Nat.lt_trans (bound_of_unbounded head) less
      exact derives_of_productFrom (.times derived (derives_of_unary head)) tail
    · rw [same] at derived read
      rw [unbounded_productFrom_over] at read
      obtain ⟨⟨next, middle⟩, head, tail⟩ := bind_eq_ok.mp read
      have shorter := Nat.lt_trans (bound_of_unbounded head) less
      exact derives_of_productFrom (.divided derived (derives_of_unary head)) tail
termination_by (text.length, 4)

/-- What is read as a factor is derived as one. -/
theorem derives_of_unary {text rest : List Char} {value : α}
    (read : unbounded (unary scope text) = .ok (value, rest)) :
    Derives scope .unary text rest value := by
  -- Signs are taken off one by one, down to the atom behind them.
  by_cases stop : ∀ c ∈ text.head?, c ≠ '-' ∧ c ≠ '+'
  · rw [unary_eq_atom _ _ stop] at read
    exact .atom (derives_of_atom read)
  · obtain ⟨more, less, same | same⟩ := starts_of_not_stop stop
    · rw [same, unbounded_unary_minus] at read
      rw [same]
      cases signed : unbounded (unary scope more) with
      | error failure =>
        rw [signed] at read
        contradiction
      | ok found =>
        rw [signed] at read
        cases read
        exact .negative (derives_of_unary signed)
    · rw [same, unbounded_unary_plus] at read
      rw [same]
      exact .positive (derives_of_unary read)
termination_by (text.length, 1)

/-- What is read as an atom is derived as one. -/
theorem derives_of_atom {text rest : List Char} {value : α}
    (read : unbounded (atom scope text) = .ok (value, rest)) :
    Derives scope .atom text rest value := by
  -- The kind of an atom is told from its first character alone.
  match text with
  | [] =>
    rw [atom] at read
    contradiction
  | first :: more =>
    by_cases opening : first = '('
    · subst opening
      exact .group (derives_of_sum ((unbounded_atom_group ..).mp read))
    · by_cases numeric : isNumeric first = true
      · obtain ⟨word, split, run, known⟩ := (unbounded_atom_numeral _ _ numeric).mp read
        rw [split]
        exact .numeral run known
      · by_cases letter : first.isAlpha = true
        · obtain ⟨word, split, run, known⟩ := (unbounded_atom_name _ _ letter).mp read
          obtain ⟨head, tail, rfl⟩ := List.exists_cons_of_ne_nil run.nonempty
          rw [List.cons_append] at split
          obtain ⟨rfl, rfl⟩ := List.cons.inj split
          exact .name letter run known
        · rw [atom.eq_3 scope first more opening, if_neg numeric, if_neg letter] at read
          contradiction
termination_by (text.length, 0)

end

/-- What a reader of a level makes of a text that is derived there. -/
def Reads (scope : Scope α) (level : Level) (text rest : List Char) (value : α) : Prop :=
  match level with
  -- A sum or a product goes on with what follows it.
  | .sum => (∀ c ∈ rest.head?, c ≠ '*' ∧ c ≠ '/') →
      unbounded (sum scope text) = unbounded (sumFrom scope value rest)
  | .product => unbounded (product scope text) = unbounded (productFrom scope value rest)
  | .unary => unbounded (unary scope text) = .ok (value, rest)
  | .atom => unbounded (atom scope text) = .ok (value, rest)

/-- What is derived at a level is read there. -/
theorem reads_of_derives {level : Level} (derived : Derives scope level text rest value) :
    Reads scope level text rest value := by
  -- The induction is on the derivation, whose left part is read before its right part.
  induction derived with
  | product first ih =>
    intro stop
    rw [unbounded_sum, ih, unbounded_productFrom_stop _ _ _ stop]
    rfl
  | plus before last first second =>
    intro stop
    rw [first (by simp), unbounded_sumFrom_plus, second, unbounded_productFrom_stop _ _ _ stop]
    rfl
  | minus before last first second =>
    intro stop
    rw [first (by simp), unbounded_sumFrom_minus, second, unbounded_productFrom_stop _ _ _ stop]
    rfl
  | unary first ih =>
    show unbounded (product scope _) = _
    rw [unbounded_product, ih]
    rfl
  | times before last first second =>
    show unbounded (product scope _) = _
    rw [first, unbounded_productFrom_times, second]
    rfl
  | divided before last first second =>
    show unbounded (product scope _) = _
    rw [first, unbounded_productFrom_over, second]
    rfl
  | negative signed ih =>
    show unbounded (unary scope _) = _
    rw [unbounded_unary_minus, ih]
    rfl
  | positive signed ih =>
    show unbounded (unary scope _) = _
    rw [unbounded_unary_plus, ih]
  | atom unsigned ih =>
    show unbounded (unary scope _) = _
    rw [unary_eq_atom _ _ (unsigned_of_derives unsigned), ih]
  | group inside ih =>
    refine (unbounded_atom_group ..).mpr ?_
    rw [ih (by simp), unbounded_sumFrom_stop _ _ _ (by simp)]
  | numeral run known =>
    obtain ⟨first, more, rfl⟩ := List.exists_cons_of_ne_nil run.nonempty
    have numeric : isNumeric first = true := run.within first (List.mem_cons_self ..)
    exact (unbounded_atom_numeral _ _ numeric).mpr ⟨_, rfl, run, known⟩
  | name letter run known =>
    exact (unbounded_atom_name _ _ letter).mpr ⟨_, rfl, run, known⟩

/-- A text has the value that the grammar derives for the whole of it, and no other. -/
theorem evaluate_eq_ok_iff (scope : Scope α) (text : List Char) (value : α) :
    evaluate scope text = .ok value ↔ Derives scope .sum text [] value := by
  -- A text has a value when its sum leaves nothing of it.
  have whole : evaluate scope text = .ok value ↔ unbounded (sum scope text) = .ok (value, []) := by
    unfold evaluate
    rcases sum scope text with failure | ⟨total, rest, shorter⟩
    · exact ⟨nofun, nofun⟩
    · cases rest <;> simp [unbounded, Except.map]
  rw [whole]
  constructor
  · exact derives_of_sum
  · intro derived
    have read := reads_of_derives derived (by simp)
    rw [read, unbounded_sumFrom_stop _ _ _ (by simp)]

end Melody.Expression
