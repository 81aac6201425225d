import Melody.Proofs.Notation.Grammar

/-! An expression that fails does so within its text, where an unknown name is what stands there. -/

namespace Melody.Expression

variable {α : Type} [Scalar α] {scope : Scope α} {level : Level} {text rest more : List Char}
  {value : α} {failure : Failure}

/-- A failure lies in a text, and a name that is unknown is what stands there. -/
structure Failure.Within (text : List Char) (failure : Failure) : Prop where
  suffix : failure.rest <:+ text
  named : ∀ name, failure.fault = .unknownVariable name → name <+: failure.rest

/-- What lies in the end of a text lies in the text. -/
theorem Failure.Within.of_suffix (within : failure.Within rest) (suffix : rest <:+ text) :
    failure.Within text :=
  ⟨within.suffix.trans suffix, within.named⟩

/-- What is left of a text is the end of it. -/
theorem Derives.suffix (derived : Derives scope level text rest value) : rest <:+ text := by
  -- Each rule leaves a rest of what its parts leave, behind the characters that it takes itself.
  induction derived with
  | product _ ih | unary _ ih | atom _ ih => exact ih
  | plus _ _ first second | minus _ _ first second | times _ _ first second
  | divided _ _ first second => exact second.trans ((List.suffix_cons _ _).trans first)
  | negative _ ih | positive _ ih => exact ih.trans (List.suffix_cons _ _)
  | group _ ih => exact (List.suffix_cons _ _).trans (ih.trans (List.suffix_cons _ _))
  | numeral _ _ | name _ _ _ => exact List.suffix_append _ _

omit [Scalar α] in
/-- A word that has no value is to blame from its first character on. -/
theorem within_of_token {part : Char → Bool} {look : List Char → Option α}
    {fault : List Char → Fault} {first : Char}
    (blamed : ∀ word name, fault word = .unknownVariable name → word = name)
    (failed : unbounded (token part look fault first more) = .error failure) :
    failure.Within (first :: more) := by
  -- A token only fails in its word, which is what the text begins with.
  unfold token at failed
  split at failed
  · contradiction
  · cases failed
    refine ⟨List.suffix_refl _, fun name same => ?_⟩
    rw [← blamed _ name same]
    exact List.cons_prefix_cons.mpr ⟨rfl, List.takeWhile_prefix part⟩

mutual

/-- A sum fails within its text. -/
theorem within_of_sum {text : List Char} {failure : Failure}
    (failed : unbounded (sum scope text) = .error failure) : failure.Within text := by
  -- The first product fails, or what follows it does.
  rw [unbounded_sum] at failed
  rcases bind_eq_error.mp failed with head | ⟨⟨first, middle⟩, head, tail⟩
  · exact within_of_product head
  · have shorter := bound_of_unbounded head
    exact (within_of_sumFrom tail).of_suffix (derives_of_product head).suffix
termination_by (text.length, 3)

/-- What follows a sum fails within its text. -/
theorem within_of_sumFrom {text : List Char} {value : α} {failure : Failure}
    (failed : unbounded (sumFrom scope value text) = .error failure) : failure.Within text := by
  -- Where no sign follows, the sum ends without a fault; otherwise the fault is in what follows.
  by_cases stop : ∀ c ∈ text.head?, c ≠ '+' ∧ c ≠ '-'
  · rw [unbounded_sumFrom_stop _ _ _ stop] at failed
    contradiction
  · obtain ⟨more, less, same | same⟩ := starts_of_not_stop stop
    · rw [same, unbounded_sumFrom_plus] at failed
      refine Failure.Within.of_suffix ?_ (same ▸ List.suffix_cons _ _)
      rcases bind_eq_error.mp failed with head | ⟨⟨next, middle⟩, head, tail⟩
      · exact within_of_product head
      · have shorter := Nat.lt_trans (bound_of_unbounded head) less
        exact (within_of_sumFrom tail).of_suffix (derives_of_product head).suffix
    · rw [same, unbounded_sumFrom_minus] at failed
      refine Failure.Within.of_suffix ?_ (same ▸ List.suffix_cons _ _)
      rcases bind_eq_error.mp failed with head | ⟨⟨next, middle⟩, head, tail⟩
      · exact within_of_product head
      · have shorter := Nat.lt_trans (bound_of_unbounded head) less
        exact (within_of_sumFrom tail).of_suffix (derives_of_product head).suffix
termination_by (text.length, 4)

/-- A product fails within its text. -/
theorem within_of_product {text : List Char} {failure : Failure}
    (failed : unbounded (product scope text) = .error failure) : failure.Within text := by
  -- The first factor fails, or what follows it does.
  rw [unbounded_product] at failed
  rcases bind_eq_error.mp failed with head | ⟨⟨first, middle⟩, head, tail⟩
  · exact within_of_unary head
  · have shorter := bound_of_unbounded head
    exact (within_of_productFrom tail).of_suffix (derives_of_unary head).suffix
termination_by (text.length, 2)

/-- What follows a product fails within its text. -/
theorem within_of_productFrom {text : List Char} {value : α} {failure : Failure}
    (failed : unbounded (productFrom scope value text) = .error failure) :
    failure.Within text := by
  -- As for sums, a fault can only be in what follows the sign.
  by_cases stop : ∀ c ∈ text.head?, c ≠ '*' ∧ c ≠ '/'
  · rw [unbounded_productFrom_stop _ _ _ stop] at failed
    contradiction
  · obtain ⟨more, less, same | same⟩ := starts_of_not_stop stop
    · rw [same, unbounded_productFrom_times] at failed
      refine Failure.Within.of_suffix ?_ (same ▸ List.suffix_cons _ _)
      rcases bind_eq_error.mp failed with head | ⟨⟨next, middle⟩, head, tail⟩
      · exact within_of_unary head
      · have shorter := Nat.lt_trans (bound_of_unbounded head) less
        exact (within_of_productFrom tail).of_suffix (derives_of_unary head).suffix
    · rw [same, unbounded_productFrom_over] at failed
      refine Failure.Within.of_suffix ?_ (same ▸ List.suffix_cons _ _)
      rcases bind_eq_error.mp failed with head | ⟨⟨next, middle⟩, head, tail⟩
      · exact within_of_unary head
      · have shorter := Nat.lt_trans (bound_of_unbounded head) less
        exact (within_of_productFrom tail).of_suffix (derives_of_unary head).suffix
termination_by (text.length, 4)

/-- A factor fails within its text. -/
theorem within_of_unary {text : List Char} {failure : Failure}
    (failed : unbounded (unary scope text) = .error failure) : failure.Within text := by
  by_cases stop : ∀ c ∈ text.head?, c ≠ '-' ∧ c ≠ '+'
  · rw [unary_eq_atom _ _ stop] at failed
    exact within_of_atom failed
  · -- A sign does not fail, so the factor behind it does.
    obtain ⟨more, less, same | same⟩ := starts_of_not_stop stop
    · rw [same, unbounded_unary_minus] at failed
      refine Failure.Within.of_suffix ?_ (same ▸ List.suffix_cons _ _)
      cases signed : unbounded (unary scope more) with
      | error cause =>
        rw [signed] at failed
        cases failed
        exact within_of_unary signed
      | ok found =>
        rw [signed] at failed
        contradiction
    · rw [same, unbounded_unary_plus] at failed
      exact (within_of_unary failed).of_suffix (same ▸ List.suffix_cons _ _)
termination_by (text.length, 1)

/-- An atom fails within its text. -/
theorem within_of_atom {text : List Char} {failure : Failure}
    (failed : unbounded (atom scope text) = .error failure) : failure.Within text := by
  match text with
  | [] =>
    rw [atom] at failed
    cases failed
    exact ⟨List.suffix_refl _, nofun⟩
  | first :: more =>
    by_cases opening : first = '('
    · subst opening
      rw [atom.eq_2] at failed
      refine Failure.Within.of_suffix ?_ (List.suffix_cons _ _)
      cases inside : sum scope more with
      | error cause =>
        rw [inside] at failed
        cases failed
        exact within_of_sum (by rw [inside]; rfl)
      | ok found =>
        -- The parenthesis that should close is missing where the sum ends.
        obtain ⟨value, rest, shorter⟩ := found
        have read : unbounded (sum scope more) = .ok (value, rest) := by rw [inside]; rfl
        rw [inside] at failed
        simp only [Parsed.closed] at failed
        split at failed
        · contradiction
        · cases failed
          exact ⟨(derives_of_sum read).suffix, nofun⟩
    · rw [atom.eq_3 scope first more opening] at failed
      split at failed
      · exact within_of_token (fun _ _ same => by contradiction) failed
      · split at failed
        · exact within_of_token (fun _ _ same => Fault.unknownVariable.inj same) failed
        · cases failed
          exact ⟨List.suffix_refl _, nofun⟩
termination_by (text.length, 0)

end

/-- An expression fails within its text. -/
theorem within_of_evaluate (failed : evaluate scope text = .error failure) :
    failure.Within text := by
  unfold evaluate at failed
  cases read : sum scope text with
  | error cause =>
    rw [read] at failed
    cases failed
    exact within_of_sum (by rw [read]; rfl)
  | ok found =>
    -- All that is left behind a sum is too much.
    obtain ⟨total, rest, shorter⟩ := found
    have derived : Derives scope .sum text rest total := derives_of_sum (by rw [read]; rfl)
    rw [read] at failed
    cases rest with
    | nil => contradiction
    | cons c later =>
      cases failed
      exact ⟨derived.suffix, nofun⟩

end Melody.Expression
