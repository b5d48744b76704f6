import LinearAssignment.Matching.Greedy
import LinearAssignment.Proofs.CoverDuality

/-! # The greedy matching is a matching of zeros

    Each greedy step pairs an unpaired row with a free column at a zero, which is the
    shortest augmenting path there is.  What is grown from the greedy matching is therefore
    a maximum matching. -/

namespace LinearAssignment

namespace ZeroPattern

variable {p : ZeroPattern} {μ : Matching}

theorem mem_available {i j : Nat} :
    j ∈ p.available μ i ↔ p.IsZero i j ∧ μ.row? j = none := by
  simp [available, mem_zerosOf]

/-- A candidate is a zero in an unpaired row and a free column. -/
theorem candidate?_eq_some {i : Nat} {c : Candidate} (h : p.candidate? μ i = some c) :
    c.row = i ∧ μ.col? i = none ∧ p.IsZero i c.col ∧ μ.row? c.col = none := by
  unfold candidate? at h
  split at h
  · simp at h
  · next hrow =>
    split at h
    · simp at h
    · next j js havail =>
      obtain rfl := Option.some.inj h
      have hj : j ∈ p.available μ i := by simp [havail]
      obtain ⟨hz, hfree⟩ := mem_available.mp hj
      exact ⟨rfl, by simpa using hrow, hz, hfree⟩

theorem choice?_eq_some {c : Candidate} (h : p.choice? μ = some c) :
    μ.col? c.row = none ∧ p.IsZero c.row c.col ∧ μ.row? c.col = none := by
  have hmem := List.minOn?_mem h
  obtain ⟨i, _, hi⟩ := List.mem_filterMap.mp hmem
  obtain ⟨rfl, hrest⟩ := candidate?_eq_some hi
  exact hrest

/-- A greedy step keeps a matching of zeros one. -/
theorem Matches.assign_of_choice? (hμ : p.Matches μ) {c : Candidate}
    (hc : p.choice? μ = some c) : p.Matches (μ.assign c.row c.col) := by
  obtain ⟨hrow, hz, hcol⟩ := choice?_eq_some hc
  exact (augmenting_singleton hrow hcol hz).matches_flip hμ

theorem Matches.extend (hμ : p.Matches μ) (steps : Nat) : p.Matches (p.extend steps μ) := by
  induction steps generalizing μ with
  | zero => exact hμ
  | succ steps ih =>
    unfold ZeroPattern.extend
    cases hc : p.choice? μ with
    | none => exact hμ
    | some c => exact ih (hμ.assign_of_choice? hc)

theorem greedyMatching_matches (p : ZeroPattern) : p.Matches p.greedyMatching :=
  p.matches_empty.extend p.nrows

/-- **The matching that the solver works with is maximum.** -/
theorem maximumMatching_isMaximum (p : ZeroPattern) : p.IsMaximum p.maximumMatching :=
  augment_isMaximum p.greedyMatching_matches

end ZeroPattern

end LinearAssignment
