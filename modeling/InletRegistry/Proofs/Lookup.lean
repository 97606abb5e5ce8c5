/-!
# Lookups in lists of pairs

The tables of the registry are lists of pairs that are read with `List.lookup`. These are the laws of
reading: what is found is there, a key that is left out is not found, and leaving it out leaves what
the others find as it was.
-/

namespace InletRegistry.Lookup

variable {α β : Type} [DecidableEq α] {l : List (α × β)} {k i : α} {v : β}

theorem mem_of_lookup (h : l.lookup k = some v) : (k, v) ∈ l := by
  obtain ⟨before, after, rfl, _⟩ := List.lookup_eq_some_iff.mp h
  exact List.mem_append_right _ List.mem_cons_self

theorem lookup_filter_self : (l.filter fun e => e.1 ≠ i).lookup i = none := by
  rw [List.lookup_eq_none_iff]
  intro e he
  have hne : e.1 ≠ i := of_decide_eq_true (List.mem_filter.mp he).2
  exact bne_iff_ne.mpr hne.symm

theorem lookup_filter_ne (h : k ≠ i) : (l.filter fun e => e.1 ≠ i).lookup k = l.lookup k := by
  induction l with
  | nil => rfl
  | cons e l ih =>
    obtain ⟨j, w⟩ := e
    by_cases hj : j = i
    · have hk : (k == i) = false := beq_eq_false_iff_ne.mpr h
      simp only [List.filter_cons, hj, ne_eq, not_true_eq_false, decide_false, Bool.false_eq_true,
        ↓reduceIte, List.lookup_cons, hk]
      exact ih
    · simp only [List.filter_cons, hj, ne_eq, not_false_eq_true, decide_true, ↓reduceIte,
        List.lookup_cons]
      rw [ih]

/-- Leaving out what is not found under a key leaves what is. -/
theorem lookup_filter_of {q : α × β → Bool} (h : ∀ e ∈ l, e.1 = k → q e = true) :
    (l.filter q).lookup k = l.lookup k := by
  induction l with
  | nil => rfl
  | cons e l ih =>
    obtain ⟨j, w⟩ := e
    have hrest := ih fun e he => h e (List.mem_cons_of_mem _ he)
    by_cases hj : j = k
    · rw [List.filter_cons, if_pos (h (j, w) List.mem_cons_self hj), List.lookup_cons,
        List.lookup_cons, hrest]
    · have hk : (k == j) = false := beq_eq_false_iff_ne.mpr (Ne.symm hj)
      rw [List.filter_cons]
      split
      · rw [List.lookup_cons, List.lookup_cons, hrest]
      · rw [List.lookup_cons, hk, hrest]

end InletRegistry.Lookup
