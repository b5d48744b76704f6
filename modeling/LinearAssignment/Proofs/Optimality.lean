import Mathlib.Algebra.Order.BigOperators.Group.Finset
import LinearAssignment.Proofs.DualAccounting

/-! # Answers are best

    At the end of a run no cell of the working matrix is negative and the permutation found
    costs nothing there, so no permutation costs less.  Every stage took the same off all
    permutations, so none costs less in the balanced matrix either; and the permutations of
    the balanced matrix are the assignments of the source.

    * `Grid.assignmentCosts`: what assignments can cost.
    * `Run.exists_optimum`: the permutation found is a cheapest one.
    * `isBest_solve`: the total is the least or the greatest cost of any assignment. -/

namespace LinearAssignment

namespace Grid

/-- What the one-to-one assignments of a grid cost. -/
def assignmentCosts (g : Grid Rat) : Set Rat :=
  {cost | ∃ pairs, g.IsAssignment pairs ∧ g.costOf pairs = cost}

/-- In a reduced matrix no permutation has a negative cost. -/
theorem IsReduced.costAlong_nonneg {g : Grid Rat} (hg : g.IsReduced) {n : Nat}
    (σ : Equiv.Perm (Fin n)) : 0 ≤ g.costAlong σ := by
  refine Finset.sum_nonneg fun i _ => ?_
  cases hcell : g.cell? i (σ i) with
  | none => rw [value, hcell, Option.getD_none]
  | some v =>
    rw [value_of_cell? hcell]
    exact not_lt.mp (hg.nonneg i (σ i) v hcell)

/-- The costs of assignments are the costs of what permutations leave in the grid. -/
theorem mem_assignmentCosts {g : Grid Rat} {cost : Rat} :
    cost ∈ g.assignmentCosts ↔
      ∃ σ : Equiv.Perm (Fin g.dimension), g.costOf (g.pairsAlong σ) = cost := by
  constructor
  · intro h
    obtain ⟨pairs, hpairs, hcost⟩ := h
    obtain ⟨σ, hperm⟩ := hpairs.exists_perm rfl
    exact ⟨σ, (g.costOf_perm hperm).trans hcost⟩
  · intro h
    obtain ⟨σ, hσ⟩ := h
    exact ⟨_, isAssignment_pairsAlong rfl, hσ⟩

end Grid

namespace Run

variable (c : Config) (a : CostMatrix Rat)

/-- **The permutation that a run ends in is a cheapest one of the balanced matrix.** -/
theorem exists_optimum :
    ∃ (μ : Matching) (σ : Equiv.Perm (Fin a.dimension)),
      (ofSource c a).descent.ending = .complete μ ∧
        ((ofSource c a).solutionOf μ).assignment = a.pairsAlong σ ∧
        ((ofSource c a).solutionOf μ).totalCost = a.costOf (a.pairsAlong σ) ∧
        ∀ τ : Equiv.Perm (Fin a.dimension),
          (ofSource c a).balanced.costAlong σ ≤ (ofSource c a).balanced.costAlong τ := by
  obtain ⟨w, μ, σ, hrounds, hfree, hending, hpairs, htotal⟩ := exists_free_permutation c a
  refine ⟨μ, σ, hending, hpairs, htotal, fun τ => ?_⟩
  obtain ⟨r, q, hr, hq⟩ := exists_minima c a
  -- Both permutations lost the same; what is left is zero for one and not negative for the other.
  have hnonneg := (hrounds.isReduced (isReduced_reduced c a)).costAlong_nonneg τ
  rw [costAlong_balanced_eq c a hr hq hrounds σ, costAlong_balanced_eq c a hr hq hrounds τ,
    hfree]
  simpa only [add_le_add_iff_right] using hnonneg

/-- When minimizing, a cheapest permutation leaves a cheapest assignment. -/
theorem isLeast_of_optimum {σ : Equiv.Perm (Fin a.dimension)} (h : c.objective = .minimize)
    (hopt : ∀ τ : Equiv.Perm (Fin a.dimension),
      (ofSource c a).balanced.costAlong σ ≤ (ofSource c a).balanced.costAlong τ) :
    IsLeast a.assignmentCosts (a.costOf (a.pairsAlong σ)) := by
  refine ⟨Grid.mem_assignmentCosts.mpr ⟨σ, rfl⟩, ?_⟩
  intro cost hcost
  obtain ⟨τ, rfl⟩ := Grid.mem_assignmentCosts.mp hcost
  have hle := hopt τ
  rwa [costAlong_balanced_minimize c a h σ, costAlong_balanced_minimize c a h τ] at hle

/-- When maximizing, a cheapest permutation leaves a dearest assignment. -/
theorem isGreatest_of_optimum {σ : Equiv.Perm (Fin a.dimension)} (h : c.objective = .maximize)
    (hopt : ∀ τ : Equiv.Perm (Fin a.dimension),
      (ofSource c a).balanced.costAlong σ ≤ (ofSource c a).balanced.costAlong τ) :
    IsGreatest a.assignmentCosts (a.costOf (a.pairsAlong σ)) := by
  refine ⟨Grid.mem_assignmentCosts.mpr ⟨σ, rfl⟩, ?_⟩
  intro cost hcost
  obtain ⟨τ, rfl⟩ := Grid.mem_assignmentCosts.mp hcost
  obtain ⟨top, htop, _⟩ := Grid.exists_greatest? a.nrows_pos a.ncols_pos
  have hle := hopt τ
  rw [costAlong_balanced_maximize c a h htop σ, costAlong_balanced_maximize c a h htop τ] at hle
  exact (sub_le_sub_iff_left _).mp hle

end Run

/-- **Every non-empty table of rationals is answered, and best.**  The answer is a one-to-one
    assignment of as many rows as the smaller dimension; its total is the sum of its cells in
    the table; and over all such assignments no total is smaller, or larger when
    maximizing. -/
theorem isBest_solve (g : Grid Rat) (hm : 0 < g.nrows) (hn : 0 < g.ncols) (maximize : Bool) :
    ∃ sol, solve g.rows maximize = .ok sol ∧ g.IsAssignment sol.assignment ∧
      g.costOf sol.assignment = sol.totalCost ∧
      (maximize = false → IsLeast g.assignmentCosts sol.totalCost) ∧
      (maximize = true → IsGreatest g.assignmentCosts sol.totalCost) := by
  obtain ⟨a, ha, rfl⟩ := CostMatrix.exists_ofRows hm hn
  let c := (Solver.ofFlag maximize).config
  obtain ⟨μ, σ, hending, hpairs, htotal, hopt⟩ := Run.exists_optimum c a
  refine ⟨(Run.ofSource c a).solutionOf μ, ?_, ?_, ?_, ?_, ?_⟩
  · show (Solver.ofFlag maximize).solve a.rows = .ok ((Run.ofSource c a).solutionOf μ)
    exact (Solver.ofFlag maximize).solve_eq_ok_of_complete ha rfl hending
  · show a.toGrid.IsAssignment _
    rw [hpairs]
    exact Grid.isAssignment_pairsAlong rfl
  · rw [hpairs, htotal]
  · intro hmin
    show IsLeast a.assignmentCosts _
    rw [htotal]
    exact Run.isLeast_of_optimum c a (congrArg Objective.ofFlag hmin) hopt
  · intro hmax
    show IsGreatest a.assignmentCosts _
    rw [htotal]
    exact Run.isGreatest_of_optimum c a (congrArg Objective.ofFlag hmax) hopt

/-- More rows than columns, values of both signs and ties, for both objectives. -/
theorem isBest_solve_mixed_signs :
    let g : Grid Rat := ⟨2, [[-3, 1/2], [4, 4], [-3, -3], [0, 1/2]], by decide⟩
    0 < g.nrows ∧ 0 < g.ncols ∧
      (∃ sol, solve g.rows false = .ok sol ∧ IsLeast g.assignmentCosts sol.totalCost) ∧
      ∃ sol, solve g.rows true = .ok sol ∧ IsGreatest g.assignmentCosts sol.totalCost := by
  intro g
  have hm : 0 < g.nrows := by decide
  have hn : 0 < g.ncols := by decide
  obtain ⟨cheap, hcheap, _, _, hleast, _⟩ := isBest_solve g hm hn false
  obtain ⟨dear, hdear, _, _, _, hgreatest⟩ := isBest_solve g hm hn true
  exact ⟨hm, hn, ⟨cheap, hcheap, hleast rfl⟩, dear, hdear, hgreatest rfl⟩

end LinearAssignment
