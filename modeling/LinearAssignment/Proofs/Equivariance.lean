import LinearAssignment.Proofs.Optimality
import LinearAssignment.Proofs.RelabelledCover

/-! # Runs on relabelled tables

    Ties between zeros are broken by the order of the lines, so on a relabelled table the loop
    finds other matchings.  It goes through the relabelled matrices all the same: the lines of
    a round agree, hence the value adjusted by and the matrix that is left.  The pairs chosen
    at the end may differ, but both totals are the best there are, and what assignments can
    cost does not depend on the order of the lines.

    * `Grid.inStep_relabel`: rounds on a matrix and on the matrix relabelled.
    * `Run.Relabelled`: a run that goes through the matrices of another, relabelled.
    * `Grid.assignmentCosts_relabel`: what assignments can cost.
    * `solveMatrix_relabel`: solving commutes with relabelling, but for the pairs chosen. -/

namespace LinearAssignment

/-! ## Rounds -/

/-- Both rounds adjust by one value and leave one matrix, up to the relabelling.  Nothing is
    said of the matchings. -/
structure Round.Relabelled {m n : Nat} (π : Relabelling m n) (r s : Round Rat) : Prop where
  value_eq : s.value = r.value
  matrix_eq : s.matrix = r.matrix.relabel π

namespace Grid

variable {m n : Nat} {π : Relabelling m n} {g : Grid Rat}

/-- A round on a matrix is matched by one on the matrix relabelled. -/
theorem IsRound.exists_relabelled (hg : g.AtLeast m n) {r : Round Rat} (hr : g.IsRound r) :
    ∃ s, (g.relabel π).IsRound s ∧ Round.Relabelled π r s := by
  have hcarries := hg.carries π
  have hμ := hr.isMaximum
  have hν := ZeroPattern.maximumMatching_isMaximum (g.relabel π).zeroPattern
  let ν := (g.relabel π).zeroPattern.maximumMatching
  let lines := (g.relabel π).zeroPattern.cover ν
  have hunc : ∀ i j, lines.isUncovered (π.row i) (π.col j) = r.lines.isUncovered i j := by
    rw [hr.lines]
    exact hcarries.isUncovered_eq hμ hν
  have hdbl : ∀ i j, lines.isDoublyCovered (π.row i) (π.col j) = r.lines.isDoublyCovered i j := by
    rw [hr.lines]
    exact hcarries.isDoublyCovered_eq hμ hν
  have hincomplete : ν.isComplete = false := (hcarries.isComplete_eq hμ hν).trans hr.incomplete
  have hvalue : (g.relabel π).minUncovered lines = .ok r.value :=
    (minUncovered_relabel_iff hunc hg).mpr hr.value
  refine ⟨⟨ν, lines, r.value, (g.relabel π).adjustBy lines r.value⟩, ?_, rfl, ?_⟩
  · exact ⟨rfl, hincomplete, rfl, hν.size_cover, hvalue, rfl⟩
  · rw [hr.matrix]
    exact adjustBy_relabel hunc hg hdbl r.value

/-- **The loops on a matrix and on the matrix relabelled keep in step.** -/
theorem inStep_relabel (π : Relabelling m n) :
    InStep (fun g h : Grid Rat => g.AtLeast m n ∧ h = g.relabel π) (Round.Relabelled π) where
  forth := by
    intro g h hgh r hr
    obtain ⟨hg, rfl⟩ := hgh
    obtain ⟨s, hs, hrelabelled⟩ := IsRound.exists_relabelled (π := π) hg hr
    refine ⟨s, hs, hrelabelled, hg.of_shape ?_ ?_, hrelabelled.matrix_eq⟩
    · rw [hr.matrix, nrows_adjustBy]
    · rw [hr.matrix, ncols_adjustBy]
  back := by
    intro g h hgh s hs
    obtain ⟨hg, rfl⟩ := hgh
    -- Moving the lines back makes a round of the other one.
    obtain ⟨r, hr, _⟩ := IsRound.exists_relabelled (π := π.symm) (hg.relabel π) hs
    rw [relabel_symm hg] at hr
    exact ⟨r, hr⟩

end Grid

/-! ## Traces -/

section Traces

variable {K : Type} {m n : Nat} {π : Relabelling m n}

theorem Trace.relabel_append (t u : Trace K) :
    Trace.relabel π (t ++ u) = Trace.relabel π t ++ Trace.relabel π u :=
  List.map_append

/-- Labels do not change. -/
theorem Trace.labels_relabel (t : Trace K) : Trace.labels (Trace.relabel π t) = Trace.labels t := by
  rw [Trace.labels, Trace.relabel, List.map_map]
  rfl

/-- Rounds that are alike have the same values. -/
theorem values_eq_of_relabelled {rs ss : List (Round Rat)}
    (h : List.Forall₂ (Round.Relabelled π) rs ss) : ss.map (·.value) = rs.map (·.value) := by
  induction h with
  | nil => rfl
  | cons hrs _ ih => rw [List.map_cons, List.map_cons, ih, hrs.value_eq]

/-- Their snapshots are relabelled, and their labels, which tell the values, are the same. -/
theorem Descent.steps_relabel {d e : Descent Rat}
    (h : List.Forall₂ (Round.Relabelled π) d.rounds e.rounds) :
    e.steps = Trace.relabel π d.steps := by
  unfold Descent.steps
  generalize d.rounds = rs, e.rounds = ss at h
  induction h with
  | nil => rfl
  | cons hrs _ ih =>
    rw [List.map_cons, List.map_cons, ih, hrs.value_eq, hrs.matrix_eq]
    rfl

end Traces

/-! ## Runs -/

namespace Run

/-- The second run goes through the matrices of the first one relabelled. -/
structure Relabelled {m n : Nat} (π : Relabelling m n) (r s : Run Rat) : Prop where
  config_eq : s.config = r.config
  source_eq : s.source.toGrid = r.source.toGrid.relabel π
  costs_eq : s.costs = r.costs.relabel π
  balanced_eq : s.balanced = r.balanced.relabel π
  rowReduced_eq : s.rowReduced = r.rowReduced.relabel π
  reduced_eq : s.reduced = r.reduced.relabel π
  rounds : List.Forall₂ (Round.Relabelled π) r.descent.rounds s.descent.rounds

variable {m n : Nat} {π : Relabelling m n} {r s : Run Rat}

/-- **A run on a relabelled matrix goes through relabelled matrices.** -/
theorem relabelled_ofSource (c : Config) {a b : CostMatrix Rat} (ha : a.toGrid.AtLeast m n)
    (hb : b.toGrid = a.toGrid.relabel π) : Relabelled π (ofSource c a) (ofSource c b) := by
  have hcosts : (ofSource c b).costs = (ofSource c a).costs.relabel π := by
    show c.objective.costs b.toGrid = _
    rw [hb, Grid.costs_relabel ha]
    rfl
  have hcosts_le : (ofSource c a).costs.AtLeast m n :=
    ha.of_shape (nrows_costs ..) (ncols_costs ..)
  have hbalanced : (ofSource c b).balanced = (ofSource c a).balanced.relabel π := by
    show (ofSource c b).costs.balanced = _
    rw [hcosts, Grid.balanced_relabel hcosts_le]
    rfl
  have hbalanced_le : (ofSource c a).balanced.AtLeast m n := hcosts_le.balanced
  have hrow : (ofSource c b).rowReduced = (ofSource c a).rowReduced.relabel π := by
    show (ofSource c b).balanced.reduceRows = _
    rw [hbalanced, Grid.reduceRows_relabel hbalanced_le]
    rfl
  have hrow_le : (ofSource c a).rowReduced.AtLeast m n :=
    hbalanced_le.of_shape (Grid.nrows_reduceRows _) (Grid.ncols_reduceRows _)
  have hreduced : (ofSource c b).reduced = (ofSource c a).reduced.relabel π := by
    show (ofSource c b).rowReduced.reduceColumns = _
    rw [hrow, Grid.reduceColumns_relabel hrow_le]
    rfl
  have hreduced_le : (ofSource c a).reduced.AtLeast m n :=
    hrow_le.of_shape (Grid.nrows_reduceColumns _) (Grid.ncols_reduceColumns _)
  refine ⟨rfl, hb, hcosts, hbalanced, hrow, hreduced, ?_⟩
  show List.Forall₂ _ (ofSource c a).descent.rounds
    ((ofSource c b).reduced.descend (roundBudget (ofSource c b).reduced.nrows)).rounds
  rw [hreduced, Grid.nrows_relabel]
  exact (Grid.inStep_relabel π).rounds_descend _ ⟨hreduced_le, rfl⟩

/-- Padding is announced alike. -/
theorem Relabelled.padding_eq (h : Relabelled π r s) : s.padding = r.padding := by
  rw [padding, padding, h.source_eq, Grid.padding, Grid.nrows_relabel, Grid.ncols_relabel,
    Grid.padding]

/-- **Every snapshot of the second run is that of the first one relabelled.** -/
theorem Relabelled.steps_eq (h : Relabelled π r s) : s.steps = Trace.relabel π r.steps := by
  simp only [steps, Trace.relabel_append, h.config_eq, h.source_eq, h.costs_eq, h.balanced_eq,
    h.rowReduced_eq, h.reduced_eq, h.padding_eq, Descent.steps_relabel h.rounds]
  congr 3
  · congr 1
    split <;> rfl
  · cases r.padding.label? <;> rfl

theorem Relabelled.trace_eq (h : Relabelled π r s) : s.trace = Trace.relabel π r.trace := by
  unfold trace
  rw [h.config_eq, h.steps_eq]
  split
  · rfl
  · exact List.map_take.symm

end Run

/-! ## Assignments -/

/-- The pair of the lines that a row and a column are moved to. -/
def Pair.relabel {m n : Nat} (π : Relabelling m n) (p : Pair) : Pair :=
  ⟨π.row p.row, π.col p.col⟩

namespace Grid

variable {m n : Nat} {π : Relabelling m n}

theorem IsAssignment.relabel {K : Type} {g : Grid K} (hg : g.AtLeast m n) {pairs : List Pair}
    (h : g.IsAssignment pairs) :
    (g.relabel π).IsAssignment (pairs.map (Pair.relabel π)) where
  row_lt := by
    intro p hp
    obtain ⟨p, hmem, rfl⟩ := List.mem_map.mp hp
    rw [nrows_relabel]
    exact (π.row_lt_iff hg.row_le p.row).mpr (h.row_lt p hmem)
  col_lt := by
    intro p hp
    obtain ⟨p, hmem, rfl⟩ := List.mem_map.mp hp
    exact (π.col_lt_iff hg.col_le p.col).mpr (h.col_lt p hmem)
  rows_nodup := by
    have hmoved := h.rows_nodup.map π.row.injective
    rwa [List.map_map] at hmoved ⊢
  cols_nodup := by
    have hmoved := h.cols_nodup.map π.col.injective
    rwa [List.map_map] at hmoved ⊢
  length_eq := by
    rw [List.length_map, nrows_relabel, ncols_relabel]
    exact h.length_eq

theorem costOf_relabel {g : Grid Rat} (hg : g.AtLeast m n) (pairs : List Pair) :
    (g.relabel π).costOf (pairs.map (Pair.relabel π)) = g.costOf pairs := by
  rw [costOf, costOf, List.map_map]
  refine congrArg List.sum (List.map_congr_left fun p _ => ?_)
  show ((g.relabel π).cell? (π.row p.row) (π.col p.col)).getD 0 = _
  rw [cell?_relabel hg]
  rfl

theorem assignmentCosts_subset_relabel {g : Grid Rat} (hg : g.AtLeast m n) :
    g.assignmentCosts ⊆ (g.relabel π).assignmentCosts := by
  intro cost hcost
  obtain ⟨pairs, hpairs, rfl⟩ := hcost
  exact ⟨_, hpairs.relabel hg, costOf_relabel hg pairs⟩

/-- **What assignments can cost does not depend on the order of the lines.** -/
theorem assignmentCosts_relabel {g : Grid Rat} (hg : g.AtLeast m n) :
    (g.relabel π).assignmentCosts = g.assignmentCosts := by
  refine Set.Subset.antisymm ?_ (assignmentCosts_subset_relabel hg)
  have hback := assignmentCosts_subset_relabel (π := π.symm) (hg.relabel π)
  rwa [relabel_symm hg] at hback

end Grid

namespace Run

/-- The total that a run ends in is the least, or the greatest, that an assignment can cost. -/
theorem isBest_of_complete (c : Config) (a : CostMatrix Rat) {μ : Matching}
    (h : (ofSource c a).descent.ending = .complete μ) :
    (c.objective = .minimize →
        IsLeast a.assignmentCosts ((ofSource c a).solutionOf μ).totalCost) ∧
      (c.objective = .maximize →
        IsGreatest a.assignmentCosts ((ofSource c a).solutionOf μ).totalCost) := by
  obtain ⟨ν, σ, hending, _, htotal, hopt⟩ := exists_optimum c a
  obtain rfl : μ = ν := Ending.complete.inj (h.symm.trans hending)
  rw [htotal]
  exact ⟨fun hmin => isLeast_of_optimum c a hmin hopt,
    fun hmax => isGreatest_of_optimum c a hmax hopt⟩

/-- Matrices whose assignments can cost the same end in the same total. -/
theorem totalCost_eq_of_assignmentCosts_eq (c : Config) {a b : CostMatrix Rat}
    (hcosts : b.assignmentCosts = a.assignmentCosts) {μ ν : Matching}
    (hμ : (ofSource c a).descent.ending = .complete μ)
    (hν : (ofSource c b).descent.ending = .complete ν) :
    ((ofSource c b).solutionOf ν).totalCost = ((ofSource c a).solutionOf μ).totalCost := by
  have ha := isBest_of_complete c a hμ
  have hb := isBest_of_complete c b hν
  rw [hcosts] at hb
  cases hobjective : c.objective with
  | minimize => exact (hb.1 hobjective).unique (ha.1 hobjective)
  | maximize => exact (hb.2 hobjective).unique (ha.2 hobjective)

end Run

/-! ## Solutions -/

/-- **Solving commutes with relabelling, but for the pairs chosen.**  Whatever the order of the
    rows and of the columns, an accepted matrix in another order is accepted too.  Both are
    solved with as many adjustments, by the same values in the same sequence; the traces have
    the same labels, and every snapshot of the one is that of the other with rows and columns
    moved in the same way, dummy lines staying; and the totals are equal. -/
theorem solveMatrix_relabel (s : Solver) (a : CostMatrix Rat) (hlimit : s.exceededLimit? a = none)
    (π : Relabelling a.nrows a.ncols) :
    ∃ b : CostMatrix Rat, CostMatrix.ofRows (a.toGrid.relabel π).rows = .ok b ∧
      b.nrows = a.nrows ∧ b.ncols = a.ncols ∧
      (∀ (i : Fin a.nrows) (j : Fin a.ncols),
        b.cell? (π.rows i) (π.cols j) = a.cell? i j) ∧
      ∃ sol sol', s.solveMatrix a = .ok sol ∧ s.solveMatrix b = .ok sol' ∧
        sol'.adjustments = sol.adjustments ∧
        (Run.ofSource s.config b).descent.rounds.map (·.value) =
          (Run.ofSource s.config a).descent.rounds.map (·.value) ∧
        sol'.trace.labels = sol.trace.labels ∧
        sol'.trace = Trace.relabel π sol.trace ∧
        sol'.totalCost = sol.totalCost := by
  have ha : a.toGrid.AtLeast a.nrows a.ncols := ⟨le_rfl, le_rfl⟩
  obtain ⟨b, hb, hgrid⟩ := CostMatrix.exists_ofRows (g := a.toGrid.relabel π)
    ((Grid.nrows_relabel π a.toGrid).symm ▸ a.nrows_pos) a.ncols_pos
  have hrows : b.nrows = a.nrows := by rw [hgrid, Grid.nrows_relabel]
  have hcols : b.ncols = a.ncols := by rw [hgrid, Grid.ncols_relabel]
  have hlimit' : s.exceededLimit? b = none := by
    unfold Solver.exceededLimit? at hlimit ⊢
    rwa [hgrid, Grid.dimension_relabel]
  obtain ⟨μ, hμ⟩ := Run.exists_complete s.config a
  obtain ⟨ν, hν⟩ := Run.exists_complete s.config b
  have hrun := Run.relabelled_ofSource s.config ha hgrid
  have hcosts : b.assignmentCosts = a.assignmentCosts := by
    rw [hgrid, Grid.assignmentCosts_relabel ha]
  refine ⟨b, hb, hrows, hcols, ?_, _, _, s.solveMatrix_eq_ok_of_complete hlimit hμ,
    s.solveMatrix_eq_ok_of_complete hlimit' hν, ?_, values_eq_of_relabelled hrun.rounds, ?_,
    hrun.trace_eq, Run.totalCost_eq_of_assignmentCosts_eq s.config hcosts hμ hν⟩
  · intro i j
    rw [hgrid, ← Grid.cell?_relabel (π := π) ha]
    exact congrArg₂ _ (extendPerm_fin π.rows i).symm (extendPerm_fin π.cols j).symm
  · exact hrun.rounds.length_eq.symm
  · show Trace.labels (Run.ofSource s.config b).trace = _
    rw [hrun.trace_eq, Trace.labels_relabel]
    rfl

/-- A dummy column, an adjustment and ties: the totals are equal although the pairs chosen are
    not those of the first solution moved along. -/
theorem solveMatrix_relabel_ties :
    let s : Solver := ⟨⟨.minimize, none, true⟩, rfl⟩
    let a : CostMatrix Rat := ⟨⟨2, [[1, 2], [2, 4], [2, 5]], by decide⟩, by decide, by decide,
      by decide, by decide +kernel⟩
    let π : Relabelling 3 2 := ⟨Equiv.swap 0 1, Equiv.swap 0 1⟩
    s.exceededLimit? a = none ∧
      ∃ b sol sol', CostMatrix.ofRows (a.toGrid.relabel π).rows = .ok b ∧
        s.solveMatrix a = .ok sol ∧ s.solveMatrix b = .ok sol' ∧
        sol'.adjustments = sol.adjustments ∧ sol'.trace = Trace.relabel π sol.trace ∧
        sol'.totalCost = sol.totalCost ∧
        ∃ p ∈ sol.assignment, p.relabel π ∉ sol'.assignment := by
  intro s a π
  obtain ⟨b, hb, _, _, _, sol, sol', hsol, hsol', hadjustments, _, _, htrace, htotal⟩ :=
    solveMatrix_relabel s a rfl π
  have hb : CostMatrix.ofRows (a.toGrid.relabel π).rows = .ok b := hb
  have hsolve : s.solve (a.toGrid.relabel π).rows = .ok sol' := by
    rw [Solver.solve, hb]
    exact hsol'
  have hpairs : (s.solveMatrix a).toOption.map (·.assignment) = some [⟨0, 1⟩, ⟨2, 0⟩] := by
    decide +kernel
  have hpairs' : (s.solve (a.toGrid.relabel π).rows).toOption.map (·.assignment) =
      some [⟨0, 1⟩, ⟨1, 0⟩] := by
    decide +kernel
  rw [hsol] at hpairs
  rw [hsolve] at hpairs'
  have hleft : sol.assignment = [⟨0, 1⟩, ⟨2, 0⟩] := Option.some.inj hpairs
  have hright : sol'.assignment = [⟨0, 1⟩, ⟨1, 0⟩] := Option.some.inj hpairs'
  refine ⟨rfl, b, sol, sol', hb, hsol, hsol', hadjustments, htrace, htotal, ⟨2, 0⟩, ?_, ?_⟩
  · rw [hleft]
    decide
  · rw [hright]
    decide

end LinearAssignment
