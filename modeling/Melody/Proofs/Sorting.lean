/-! Stable sorting does not depend on values that are left out, nor on those that come before. -/

namespace Melody

variable {β : Type} {le : β → β → Bool}

section Parting

variable (trans : ∀ a b c, le a b = true → le b c = true → le a c = true)
  (total : ∀ a b, (le a b || le b a) = true)

include trans total

/-- A value is sorted in between those that come before it and all others. -/
theorem mergeSort_cons_eq (value : β) (values : List β) :
    (value :: values).mergeSort le = (values.mergeSort le).filter (!le value ·) ++
        value :: (values.mergeSort le).filter (le value ·) ∧
      values.mergeSort le = (values.mergeSort le).filter (!le value ·) ++
        (values.mergeSort le).filter (le value ·) := by
  -- Sorting puts the value in one place and leaves the order of the others as it was without it.
  obtain ⟨early, late, whole, parts, before⟩ := List.mergeSort_cons trans total value values
  have sorted := List.pairwise_mergeSort trans total (value :: values)
  rw [whole, List.pairwise_append] at sorted
  have after : ∀ other ∈ late, le value other = true := (List.pairwise_cons.mp sorted.2.1).1
  -- What stands before the value and what stands behind it can be told apart by comparison.
  have none : early.filter (le value ·) = [] :=
    List.filter_eq_nil_iff.mpr fun other member => by simpa using before other member
  have gone : late.filter (!le value ·) = [] :=
    List.filter_eq_nil_iff.mpr fun other member => by simp [after other member]
  have kept : early.filter (!le value ·) = early := List.filter_eq_self.mpr before
  have all : late.filter (le value ·) = late := List.filter_eq_self.mpr after
  rw [whole, parts, List.filter_append, List.filter_append, none, gone, kept, all,
    List.append_nil, List.nil_append]
  exact ⟨rfl, rfl⟩

/-- Values can be chosen before they are sorted or after. -/
theorem filter_mergeSort (keep : β → Bool) (values : List β) :
    (values.mergeSort le).filter keep = (values.filter keep).mergeSort le := by
  induction values with
  | nil => simp
  | cons value later ih =>
    obtain ⟨whole, parts⟩ := mergeSort_cons_eq trans total value later
    rw [whole, List.filter_append]
    by_cases kept : keep value = true
    · -- Comparing with the value parts those that are chosen in the same way.
      rw [List.filter_cons_of_pos kept, List.filter_cons_of_pos kept,
        (mergeSort_cons_eq trans total value _).1, ← ih]
      simp only [List.filter_filter, Bool.and_comm]
    · rw [List.filter_cons_of_neg kept, List.filter_cons_of_neg kept, ← List.filter_append,
        ← parts, ih]

/-- Values that come before all others are sorted on their own. -/
theorem mergeSort_append {front back : List β}
    (before : ∀ value ∈ front, ∀ other ∈ back, le value other = true) :
    (front ++ back).mergeSort le = front.mergeSort le ++ back.mergeSort le := by
  induction front with
  | nil => simp
  | cons value later ih =>
    have ih := ih fun next member => before next (List.mem_cons_of_mem _ member)
    have behind : ∀ other ∈ back.mergeSort le, le value other = true := fun other member =>
      before value (List.mem_cons_self ..) other (List.mem_mergeSort.mp member)
    -- Among the others there is nothing that the value would be sorted behind.
    have none : (back.mergeSort le).filter (!le value ·) = [] :=
      List.filter_eq_nil_iff.mpr fun other member => by simp [behind other member]
    have all : (back.mergeSort le).filter (le value ·) = back.mergeSort le :=
      List.filter_eq_self.mpr behind
    rw [List.cons_append, (mergeSort_cons_eq trans total value _).1, ih, List.filter_append,
      List.filter_append, none, all, List.append_nil, (mergeSort_cons_eq trans total value later).1,
      List.append_assoc, List.cons_append]

end Parting

end Melody
