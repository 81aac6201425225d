/-! Steps that may fail succeed when each of their parts does, and fail as the first that does. -/

namespace Melody

variable {ε β δ : Type}

/-- Two steps one after the other succeed when each of them does. -/
theorem bind_eq_ok {first : Except ε β} {second : β → Except ε δ} {result : δ} :
    first >>= second = .ok result ↔ ∃ value, first = .ok value ∧ second value = .ok result := by
  cases first with
  | error error => simp [bind, Except.bind]
  | ok value => simp [bind, Except.bind]

/-- Two steps one after the other fail as the first of them that does. -/
theorem bind_eq_error {first : Except ε β} {second : β → Except ε δ} {error : ε} :
    first >>= second = .error error ↔
      first = .error error ∨ ∃ value, first = .ok value ∧ second value = .error error := by
  cases first with
  | error cause => simp [bind, Except.bind]
  | ok value => simp [bind, Except.bind]

/-- What is made of a step's result is there when the step succeeds. -/
theorem map_eq_ok {outcome : Except ε β} {function : β → δ} {result : δ} :
    outcome.map function = .ok result ↔ ∃ value, outcome = .ok value ∧ function value = result := by
  cases outcome with
  | error error => simp [Except.map]
  | ok value => simp [Except.map]

/-- Two steps whose errors are told in another way fail as the steps that tell them so. -/
theorem mapError_bind {ε' : Type} (told : ε → ε') (first : Except ε β) (second : β → Except ε δ) :
    (first >>= second).mapError told =
      first.mapError told >>= fun value => (second value).mapError told := by
  cases first <;> rfl

/-- Steps over some values and then over others succeed when both parts do. -/
theorem foldlM_append_eq_ok {σ : Type} {step : σ → β → Except ε σ} {values later : List β}
    {state last : σ} :
    (values ++ later).foldlM step state = .ok last ↔
      ∃ middle, values.foldlM step state = .ok middle ∧ later.foldlM step middle = .ok last := by
  rw [List.foldlM_append]
  exact bind_eq_ok

/-- Steps fail with the error of the first value that is refused, after which nothing is done. -/
theorem foldlM_eq_error {σ : Type} {step : σ → β → Except ε σ} {values : List β} {state : σ}
    {error : ε} :
    values.foldlM step state = .error error ↔ ∃ before value after middle,
      values = before ++ value :: after ∧ before.foldlM step state = .ok middle ∧
        step middle value = .error error := by
  -- The first value is the one that is refused, or it is one of those before.
  induction values generalizing state with
  | nil =>
    constructor
    · intro failed
      contradiction
    · rintro ⟨before, value, after, middle, split, _⟩
      cases before <;> contradiction
  | cons first rest ih =>
    rw [List.foldlM_cons]
    cases taken : step state first with
    | error cause =>
      constructor
      · intro failed
        cases failed
        exact ⟨[], first, rest, state, rfl, rfl, taken⟩
      · rintro ⟨before, value, after, middle, split, passed, refused⟩
        cases before with
        | nil =>
          cases split
          cases passed
          rw [taken] at refused
          exact refused
        | cons head tail =>
          cases split
          obtain ⟨next, stepped, _⟩ := bind_eq_ok.mp passed
          rw [taken] at stepped
          contradiction
    | ok next =>
      constructor
      · intro failed
        obtain ⟨before, value, after, middle, split, passed, refused⟩ := ih.mp failed
        refine ⟨first :: before, value, after, middle, congrArg _ split, ?_, refused⟩
        exact bind_eq_ok.mpr ⟨next, taken, passed⟩
      · rintro ⟨before, value, after, middle, split, passed, refused⟩
        refine ih.mpr ?_
        cases before with
        | nil =>
          cases split
          cases passed
          rw [taken] at refused
          contradiction
        | cons head tail =>
          cases split
          obtain ⟨other, stepped, onward⟩ := bind_eq_ok.mp passed
          rw [taken] at stepped
          cases stepped
          exact ⟨tail, value, after, middle, rfl, onward, refused⟩

/-- What succeeds has a result. -/
theorem exists_of_isOk {outcome : Except ε β} (succeeds : outcome.isOk = true) :
    ∃ value, outcome = .ok value := by
  cases outcome with
  | error error => contradiction
  | ok value => exact ⟨value, rfl⟩

/-- A step that succeeds on each of some values has each of its results from one of them. -/
theorem exists_of_mem_mapM {step : β → Except ε δ} {values : List β} {results : List δ}
    (succeeds : values.mapM step = .ok results) {result : δ} (member : result ∈ results) :
    ∃ value ∈ values, step value = .ok result := by
  -- Each result comes from the value at its place.
  induction values generalizing results with
  | nil =>
    cases succeeds
    cases member
  | cons value later ih =>
    rw [List.mapM_cons] at succeeds
    obtain ⟨first, stepped, more⟩ := bind_eq_ok.mp succeeds
    obtain ⟨rest, others, same⟩ := bind_eq_ok.mp more
    cases same
    rcases List.mem_cons.mp member with rfl | behind
    · exact ⟨value, List.mem_cons_self .., stepped⟩
    · obtain ⟨other, present, given⟩ := ih others behind
      exact ⟨other, List.mem_cons_of_mem _ present, given⟩

/-- Steps over some values fail as one of the values does. -/
theorem exists_of_forM_eq_error {step : β → Except ε Unit} {values : List β} {error : ε}
    (failed : values.forM step = .error error) : ∃ value ∈ values, step value = .error error := by
  -- The first failure is that of the whole loop.
  induction values with
  | nil => contradiction
  | cons value later ih =>
    rcases bind_eq_error.mp failed with head | ⟨_, _, tail⟩
    · exact ⟨value, List.mem_cons_self .., head⟩
    · obtain ⟨other, present, refused⟩ := ih tail
      exact ⟨other, List.mem_cons_of_mem _ present, refused⟩

/-- A step that fails on some values fails as one of them does. -/
theorem exists_of_mapM_eq_error {step : β → Except ε δ} {values : List β} {error : ε}
    (failed : values.mapM step = .error error) : ∃ value ∈ values, step value = .error error := by
  -- The first failure ends the walk, and is that of a value.
  induction values with
  | nil => contradiction
  | cons value later ih =>
    rw [List.mapM_cons] at failed
    rcases bind_eq_error.mp failed with head | ⟨_, _, tail⟩
    · exact ⟨value, List.mem_cons_self .., head⟩
    · rcases bind_eq_error.mp tail with behind | ⟨_, _, returned⟩
      · obtain ⟨other, present, refused⟩ := ih behind
        exact ⟨other, List.mem_cons_of_mem _ present, refused⟩
      · contradiction

/-- Steps over some values succeed when each of them does. -/
theorem forM_eq_ok {step : β → Except ε Unit} {values : List β} :
    values.forM step = .ok () ↔ ∀ value ∈ values, step value = .ok () := by
  -- The loop goes on only after a success.
  induction values with
  | nil => exact ⟨fun _ => List.forall_mem_nil _, fun _ => rfl⟩
  | cons value later ih =>
    rw [List.forall_mem_cons, ← ih]
    exact bind_eq_ok.trans
      ⟨fun ⟨_, first, rest⟩ => ⟨first, rest⟩, fun ⟨first, rest⟩ => ⟨(), first, rest⟩⟩

/-- A step that gives nothing but the value of a function gives all of them if it succeeds. -/
theorem mapM_eq_map {step : β → Except ε δ} {function : β → δ}
    (only : ∀ {value result}, step value = .ok result → result = function value)
    {values : List β} {results : List δ} (succeeds : values.mapM step = .ok results) :
    results = values.map function ∧ ∀ value ∈ values, step value = .ok (function value) := by
  -- The induction is on the values, all of which succeed.
  induction values generalizing results with
  | nil =>
    cases succeeds
    exact ⟨rfl, List.forall_mem_nil _⟩
  | cons value later ih =>
    rw [List.mapM_cons] at succeeds
    obtain ⟨first, stepped, more⟩ := bind_eq_ok.mp succeeds
    obtain ⟨rest, others, same⟩ := bind_eq_ok.mp more
    cases same
    obtain ⟨mapped, all⟩ := ih others
    obtain rfl := only stepped
    exact ⟨congrArg _ mapped, List.forall_mem_cons.mpr ⟨stepped, all⟩⟩

end Melody
