import Mathlib.Algebra.BigOperators.Fin
import LinearAssignment.Proofs.Feasibility
import LinearAssignment.Proofs.PermutationCost

/-! # The accounts of a run

    Every stage of a run on rationals takes a known amount off the cost of every permutation
    of the squared matrix: the row minima, the column minima, and at each round the value
    adjusted by, once for every line that the cover falls short of the number of rows.  At
    the end the permutation found costs nothing, so what was taken off is what it cost.

    * `Run.costAlong_balanced_eq`: the balance after any number of rounds.
    * `Run.costAlong_balanced_minimize`, `Run.costAlong_balanced_maximize`: what a
      permutation of the balanced matrix costs in the source.
    * `Run.exists_free_permutation`: the permutation found costs nothing at the end.
    * `costAlong_balance`: all of it together. -/

namespace LinearAssignment

namespace Grid

variable {K : Type} [Scalar K] [Scalar.ExactNearZero K]

/-- Every row of a grid with columns has a smallest value. -/
theorem exists_rowMinima_eq {g : Grid K} (hn : 0 < g.ncols) :
    ∃ r : List K, g.rowMinima = r.map some := by
  refine ⟨_, map_eq_map_some_filterMap fun row hrow => ?_⟩
  have hne : row ≠ [] := by
    intro hnil
    have hlen := g.rect row hrow
    rw [hnil, List.length_nil] at hlen
    omega
  obtain ⟨d, hd, _⟩ := Scalar.least?_spec hne
  exact ⟨d, hd⟩

/-- Every column of a grid with rows has a smallest value. -/
theorem exists_columnMinima_eq {g : Grid K} (hm : 0 < g.nrows) :
    ∃ c : List K, g.columnMinima = c.map some := by
  refine ⟨_, map_eq_map_some_filterMap fun col hcol => ?_⟩
  obtain ⟨j, hj, rfl⟩ := List.mem_map.mp hcol
  obtain ⟨v, hv⟩ := g.exists_cell? hm (List.mem_range.mp hj)
  have hne : g.column j ≠ [] := List.ne_nil_of_mem (mem_column.mpr ⟨0, hv⟩)
  obtain ⟨d, hd, _⟩ := Scalar.least?_spec hne
  exact ⟨d, hd⟩

end Grid

namespace Run

variable (c : Config) (a : CostMatrix Rat)

/-! ## What the stages take off -/

/-- Every row of the balanced matrix has a smallest value, and so has every column once the
    rows are reduced. -/
theorem exists_minima :
    ∃ r q : List Rat, (ofSource c a).balanced.rowMinima = r.map some ∧
      (ofSource c a).rowReduced.columnMinima = q.map some := by
  have hpos := dimension_pos a
  have hcols : 0 < (ofSource c a).balanced.ncols := (ncols_balanced c a).symm ▸ hpos
  have hrows : 0 < (ofSource c a).rowReduced.nrows := by
    rw [show (ofSource c a).rowReduced.nrows = a.dimension from
      (Grid.nrows_reduceRows _).trans (nrows_balanced c a)]
    exact hpos
  obtain ⟨r, hr⟩ := Grid.exists_rowMinima_eq hcols
  obtain ⟨q, hq⟩ := Grid.exists_columnMinima_eq hrows
  exact ⟨r, q, hr, hq⟩

/-- **The balance of a run.**  Rounds on the reduced matrix leave, of what a permutation
    costs in the balanced matrix, all but the minima and the drops of the rounds. -/
theorem costAlong_balanced_eq {r q : List Rat} (hr : (ofSource c a).balanced.rowMinima = r.map some)
    (hq : (ofSource c a).rowReduced.columnMinima = q.map some) {rs : List (Round Rat)}
    {w : Grid Rat} (hrounds : Rounds (ofSource c a).reduced rs w)
    (σ : Equiv.Perm (Fin a.dimension)) :
    (ofSource c a).balanced.costAlong σ =
      w.costAlong σ + r.sum + q.sum + (rs.map (Round.drop a.dimension)).sum := by
  have hrows := nrows_balanced c a
  have hcols := ncols_balanced c a
  have hrow := Grid.costAlong_reduceRows hrows hcols hr σ
  have hrows' : (ofSource c a).rowReduced.nrows = a.dimension :=
    (Grid.nrows_reduceRows _).trans hrows
  have hcols' : (ofSource c a).rowReduced.ncols = a.dimension := hcols
  have hcol : (ofSource c a).rowReduced.costAlong σ =
      (ofSource c a).reduced.costAlong σ + q.sum :=
    Grid.costAlong_reduceColumns hrows' hcols' hq σ
  have hloop := hrounds.costAlong_eq (nrows_reduced c a) (ncols_reduced c a) σ
  calc (ofSource c a).balanced.costAlong σ
      = (ofSource c a).rowReduced.costAlong σ + r.sum := hrow
    _ = (ofSource c a).reduced.costAlong σ + q.sum + r.sum := by rw [hcol]
    _ = w.costAlong σ + (rs.map (Round.drop a.dimension)).sum + q.sum + r.sum := by rw [hloop]
    _ = w.costAlong σ + r.sum + q.sum + (rs.map (Round.drop a.dimension)).sum := by ring

/-! ## What a permutation costs in the source -/

/-- When minimizing, a permutation costs what its pairs cost in the source. -/
theorem costAlong_balanced_minimize (h : c.objective = .minimize)
    (σ : Equiv.Perm (Fin a.dimension)) :
    (ofSource c a).balanced.costAlong σ = a.costOf (a.pairsAlong σ) := by
  have hbalanced : (ofSource c a).balanced = a.toGrid.balanced := by
    show (c.objective.costs a.toGrid).balanced = _
    rw [h]
    rfl
  rw [hbalanced, Grid.costAlong_balanced, Grid.costAlong_eq_costOf]

/-- When maximizing, a permutation costs what its pairs fall short of the largest value. -/
theorem costAlong_balanced_maximize (h : c.objective = .maximize) {top : Rat}
    (htop : a.greatest? = some top) (σ : Equiv.Perm (Fin a.dimension)) :
    (ofSource c a).balanced.costAlong σ =
      (min a.nrows a.ncols : Nat) * top - a.costOf (a.pairsAlong σ) := by
  have hbalanced : (ofSource c a).balanced = a.toGrid.complement.balanced := by
    show (c.objective.costs a.toGrid).balanced = _
    rw [h]
    rfl
  have hassign : a.toGrid.IsAssignment (a.pairsAlong σ) := Grid.isAssignment_pairsAlong rfl
  rw [hbalanced, Grid.costAlong_balanced, Grid.costAlong_eq_costOf,
    Grid.pairsAlong_complement, Grid.costOf_complement htop, hassign.length_eq]
  intro p hp
  exact ⟨hassign.row_lt p hp, hassign.col_lt p hp⟩

/-! ## The end of a run -/

/-- The total of a feasible solution is the cost of its pairs. -/
theorem totalCost_eq_costOf {sol : Solution Rat} (h : sol.IsFeasible) :
    sol.totalCost = sol.source.costOf sol.assignment := by
  obtain ⟨values, hvalues, htotal⟩ := h.total_eq
  have hmap : sol.assignment.map (fun p => sol.source.value p.row p.col) = values := by
    have hget := congrArg (List.map fun v : Option Rat => v.getD 0) hvalues
    simpa [Function.comp_def, Grid.value] using hget
  rw [htotal, Scalar.total_rat, Grid.costOf, hmap]

/-- **A run ends in a permutation that costs nothing any more**, and its solution consists of
    what the permutation leaves in the source. -/
theorem exists_free_permutation :
    ∃ (w : Grid Rat) (μ : Matching) (σ : Equiv.Perm (Fin a.dimension)),
      Rounds (ofSource c a).reduced (ofSource c a).descent.rounds w ∧ w.costAlong σ = 0 ∧
        (ofSource c a).descent.ending = .complete μ ∧
        ((ofSource c a).solutionOf μ).assignment = a.pairsAlong σ ∧
        ((ofSource c a).solutionOf μ).totalCost = a.costOf (a.pairsAlong σ) := by
  obtain ⟨μ, hending⟩ := exists_complete c a
  obtain ⟨w, hrounds, _, _, hμ, _⟩ := exists_last c a hending
  obtain ⟨σ, hσ, hpairs⟩ := exists_realPairs_eq c a hending
  have hfree : w.costAlong σ = 0 := by
    -- Each pair of the matching is a zero of the last matrix.
    have hmatches := w.zeroPattern.maximumMatching_isMaximum.toMatches
    refine Finset.sum_eq_zero fun i _ => ?_
    exact Grid.value_of_isZero (hmatches.isZero i (σ i) (hμ ▸ hσ i))
  have htotal := totalCost_eq_costOf (isFeasible_solutionOf c a hending)
  rw [assignment_solutionOf, source_solutionOf, hpairs] at htotal
  exact ⟨w, μ, σ, hrounds, hfree, hending, hpairs, htotal⟩

/-- With no cost left, the cost in the balanced matrix is all that was taken off, and so the
    total cost is that constant, counted from the largest values when maximizing. -/
theorem totalCost_of_costAlong {total : Rat} {sol : Solution Rat}
    {σ : Equiv.Perm (Fin a.dimension)} (hsol : sol.totalCost = a.costOf (a.pairsAlong σ))
    (h : (ofSource c a).balanced.costAlong σ = total) :
    (c.objective = .minimize → sol.totalCost = total) ∧
      (c.objective = .maximize → ∃ top, IsGreatest {v | ∃ i j, a.cell? i j = some v} top ∧
        sol.totalCost = (min a.nrows a.ncols : Nat) * top - total) := by
  constructor
  · intro hmin
    rw [hsol, ← costAlong_balanced_minimize c a hmin, h]
  · intro hmax
    obtain ⟨top, htop, hgreatest⟩ := Grid.exists_greatest? a.nrows_pos a.ncols_pos
    refine ⟨top, hgreatest, ?_⟩
    rw [costAlong_balanced_maximize c a hmax htop] at h
    rw [hsol, ← h, sub_sub_cancel]

end Run

/-! ## The balance -/

/-- **The accounts balance over the whole run.**  For every accepted table within the limit
    and either objective there are row minima and column minima; after any number of rounds
    the cost of every permutation of the balanced matrix is its cost in the working matrix,
    and the minima, and the drops of the rounds so far.  So every working matrix ranks all
    permutations alike, and the constant at the end is the total cost when minimizing, and
    what the total cost falls short of the largest values when maximizing. -/
theorem costAlong_balance (s : Solver) {table : RawTable Rat} {a : CostMatrix Rat}
    (ha : CostMatrix.ofRows table = .ok a) (hlimit : s.exceededLimit? a = none) :
    let run := Run.ofSource s.config a
    let n := a.dimension
    ∃ r q : List Rat, run.balanced.rowMinima = r.map some ∧
      run.rowReduced.columnMinima = q.map some ∧
      (∀ t w, run.working[t]? = some w → ∀ σ : Equiv.Perm (Fin n),
        run.balanced.costAlong σ =
          w.costAlong σ + r.sum + q.sum + ((run.descent.rounds.take t).map (Round.drop n)).sum) ∧
      (∀ w ∈ run.working, w.nrows = n ∧ w.ncols = n ∧ ∀ σ τ : Equiv.Perm (Fin n),
        w.costAlong σ ≤ w.costAlong τ ↔ run.balanced.costAlong σ ≤ run.balanced.costAlong τ) ∧
      ∃ sol, s.solve table = .ok sol ∧
        let total := r.sum + q.sum + (run.descent.rounds.map (Round.drop n)).sum
        (s.config.objective = .minimize → sol.totalCost = total) ∧
        (s.config.objective = .maximize → ∃ top,
          IsGreatest {v | ∃ i j, a.cell? i j = some v} top ∧
            sol.totalCost = (min a.nrows a.ncols : Nat) * top - total) := by
  intro run n
  obtain ⟨r, q, hr, hq⟩ := Run.exists_minima s.config a
  have hbalance : ∀ t w, run.working[t]? = some w → ∀ σ : Equiv.Perm (Fin n),
      run.balanced.costAlong σ =
        w.costAlong σ + r.sum + q.sum + ((run.descent.rounds.take t).map (Round.drop n)).sum := by
    intro t w hw σ
    obtain ⟨last, hrounds⟩ := Run.exists_rounds s.config a
    exact Run.costAlong_balanced_eq s.config a hr hq (hrounds.take hw) σ
  refine ⟨r, q, hr, hq, hbalance, ?_, ?_⟩
  · intro w hw
    obtain ⟨hrows, hcols⟩ := Run.shape_of_mem_working s.config a hw
    refine ⟨hrows, hcols, fun σ τ => ?_⟩
    obtain ⟨t, ht⟩ := List.mem_iff_getElem?.mp hw
    rw [hbalance t w ht σ, hbalance t w ht τ]
    simp only [add_le_add_iff_right]
  · obtain ⟨w, μ, σ, hrounds, hfree, hending, _, htotal⟩ :=
      Run.exists_free_permutation s.config a
    have hend := Run.costAlong_balanced_eq s.config a hr hq hrounds σ
    rw [hfree, zero_add] at hend
    have hsolve : s.solve table = .ok (run.solutionOf μ) :=
      s.solve_eq_ok_of_complete ha hlimit hending
    exact ⟨run.solutionOf μ, hsolve, Run.totalCost_of_costAlong s.config a htotal hend⟩

/-- More rows than columns, rewards of both signs and ties: the dummy column, the conversion
    to costs and several rounds all enter the balance. -/
theorem costAlong_balance_rewards :
    let s : Solver := ⟨⟨.maximize, none, true⟩, rfl⟩
    let table : RawTable Rat := [[-1, 2, 3], [2, 4, 6], [3, 6, 9], [4, 8, 12]]
    ∃ a : CostMatrix Rat, CostMatrix.ofRows table = .ok a ∧ s.exceededLimit? a = none ∧
      ∃ (sol : Solution Rat) (r q : List Rat) (top : Rat), s.solve table = .ok sol ∧
        (Run.ofSource s.config a).balanced.rowMinima = r.map some ∧
        (Run.ofSource s.config a).rowReduced.columnMinima = q.map some ∧
        IsGreatest {v | ∃ i j, a.cell? i j = some v} top ∧
        sol.totalCost = (min a.nrows a.ncols : Nat) * top - (r.sum + q.sum +
          ((Run.ofSource s.config a).descent.rounds.map (Round.drop a.dimension)).sum) := by
  intro s table
  let g : Grid Rat := ⟨3, table, by decide⟩
  obtain ⟨a, ha, _⟩ := CostMatrix.exists_ofRows (g := g) (by decide) (by decide)
  obtain ⟨r, q, hr, hq, _, _, sol, hsol, _, hmax⟩ := costAlong_balance s ha rfl
  obtain ⟨top, htop, htotal⟩ := hmax rfl
  exact ⟨a, ha, rfl, sol, r, q, top, hsol, hr, hq, htop, htotal⟩

end LinearAssignment
