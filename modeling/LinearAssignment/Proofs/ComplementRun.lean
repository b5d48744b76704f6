import LinearAssignment.Proofs.ComplementRange
import LinearAssignment.Proofs.DualAccounting

/-! # Maximizing is minimizing the complement

    A run that maximizes replaces every value by its distance from a largest one, and from then
    on it is the run that minimizes these distances: padding comes after the conversion, so even
    the dummy cells are zero in both.  The distances are accepted as input whenever the values
    are, in floats as well as in rationals.

    * `RawTable.distancesFrom`: the table of the distances.
    * `Solution.MirroredBy`: what solutions of the two runs have in common.
    * `mirrored_solve`: the two runs, over any scalars whose distances stay in range.
    * `solve_distances`: the same for floats, and for rationals with the sum of the totals. -/

namespace LinearAssignment

open Scalar

/-- Every value replaced by its distance from `top`. -/
def RawTable.distancesFrom {K : Type} [Scalar K] (top : K) (table : RawTable K) : RawTable K :=
  table.map (·.map (top - ·))

variable {K : Type} [Scalar K]

/-! ## Solutions -/

/-- The second solution is the one to the complement of the first one's matrix: the same pairs
    after the same adjustments, and the same trace once the first one has been converted. -/
structure Solution.MirroredBy (sol sol' : Solution K) : Prop where
  source_eq : sol'.source.toGrid = sol.source.complement
  assignment_eq : sol'.assignment = sol.assignment
  padding_eq : sol'.padding = sol.padding
  adjustments_eq : sol'.adjustments = sol.adjustments
  head_trace : sol'.trace.head? = some ⟨"Input matrix", sol'.source.rows⟩
  tail_trace : sol.trace.tail =
    ⟨"Convert maximization to minimization", sol'.source.rows⟩ :: sol'.trace.tail

/-- Both attempts end in mirrored solutions or in one and the same failure. -/
inductive OutcomesMirrored :
    Except (Failure K) (Solution K) → Except (Failure K) (Solution K) → Prop where
  | solved {sol sol' : Solution K} : sol.MirroredBy sol' → OutcomesMirrored (.ok sol) (.ok sol')
  | failed (failure : Failure K) : OutcomesMirrored (.error failure) (.error failure)

/-! ## Runs -/

namespace Run

variable {a b : CostMatrix K}

/-- From the conversion on, both runs work on one matrix. -/
theorem balanced_complement (hb : b.toGrid = a.complement) :
    (ofSource (.ofFlag false) b).balanced = (ofSource (.ofFlag true) a).balanced :=
  congrArg Grid.balanced hb

theorem descent_complement (hb : b.toGrid = a.complement) :
    (ofSource (.ofFlag false) b).descent = (ofSource (.ofFlag true) a).descent := by
  show (b.toGrid.balanced.reduceRows.reduceColumns).descend _ =
    (a.complement.balanced.reduceRows.reduceColumns).descend _
  rw [hb]
  rfl

theorem nrows_eq_of_complement (hb : b.toGrid = a.complement) : b.nrows = a.nrows :=
  (congrArg Grid.nrows hb).trans a.toGrid.nrows_complement

theorem ncols_eq_of_complement (hb : b.toGrid = a.complement) : b.ncols = a.ncols :=
  (congrArg Grid.ncols hb).trans a.toGrid.ncols_complement

theorem padding_complement (hb : b.toGrid = a.complement) :
    (ofSource (.ofFlag false) b).padding = (ofSource (.ofFlag true) a).padding :=
  congrArg₂ Padding.ofShape (nrows_eq_of_complement hb) (ncols_eq_of_complement hb)

theorem realPairs_complement (hb : b.toGrid = a.complement) (μ : Matching) :
    (ofSource (.ofFlag false) b).realPairs μ = (ofSource (.ofFlag true) a).realPairs μ := by
  have hrows : (ofSource (.ofFlag false) b).source.nrows =
      (ofSource (.ofFlag true) a).source.nrows :=
    nrows_eq_of_complement hb
  have hcols : (ofSource (.ofFlag false) b).source.ncols =
      (ofSource (.ofFlag true) a).source.ncols :=
    ncols_eq_of_complement hb
  unfold realPairs
  rw [hrows, hcols]

/-- Behind the input, the run that maximizes records the conversion and then what the other one
    records. -/
theorem tail_trace_complement (hb : b.toGrid = a.complement) :
    (ofSource (.ofFlag true) a).trace.tail =
      .ofGrid "Convert maximization to minimization" b.toGrid ::
        (ofSource (.ofFlag false) b).trace.tail := by
  have hrow : (ofSource (.ofFlag false) b).rowReduced = (ofSource (.ofFlag true) a).rowReduced :=
    congrArg Grid.reduceRows (balanced_complement hb)
  have hreduced : (ofSource (.ofFlag false) b).reduced = (ofSource (.ofFlag true) a).reduced :=
    congrArg Grid.reduceColumns hrow
  unfold trace steps
  rw [padding_complement hb, balanced_complement hb, hrow, hreduced, descent_complement hb, hb]
  rfl

theorem mirrored_solutionOf (hb : b.toGrid = a.complement) (μ : Matching) :
    ((ofSource (.ofFlag true) a).solutionOf μ).MirroredBy
      ((ofSource (.ofFlag false) b).solutionOf μ) where
  source_eq := hb
  assignment_eq := realPairs_complement hb μ
  padding_eq := padding_complement hb
  adjustments_eq := by rw [adjustments_solutionOf, adjustments_solutionOf, descent_complement hb]
  head_trace := rfl
  tail_trace := tail_trace_complement hb

theorem mirrored_outcome (hb : b.toGrid = a.complement) :
    OutcomesMirrored (ofSource (.ofFlag true) a).outcome (ofSource (.ofFlag false) b).outcome := by
  unfold outcome
  rw [descent_complement hb]
  cases (ofSource (.ofFlag true) a).descent.outcome with
  | error defect => exact .failed _
  | ok μ => exact .solved (mirrored_solutionOf hb μ)

end Run

/-! ## Dummy cells -/

/-- A cell that squaring has added is zero. -/
theorem Grid.cell?_balanced_of_outside {g : Grid K} {i j : Nat} (hi : i < g.dimension)
    (hj : j < g.dimension) (hout : g.nrows ≤ i ∨ g.ncols ≤ j) :
    g.balanced.cell? i j = some 0 := by
  unfold balanced
  split
  · next h =>
    rw [isSquare, beq_iff_eq] at h
    rw [dimension, h, max_self] at hi hj
    omega
  · have hnone := (g.cell?_eq_none_iff i j).mpr hout
    rw [cell?_padTo, if_pos ⟨hi, hj⟩, hnone]
    rfl

/-- In a run the dummy cells are zero, whatever the objective. -/
theorem Run.cell?_balanced_of_outside (c : Config) (a : CostMatrix K) {i j : Nat}
    (hi : i < a.dimension) (hj : j < a.dimension) (hout : a.nrows ≤ i ∨ a.ncols ≤ j) :
    (ofSource c a).balanced.cell? i j = some 0 := by
  rw [← dimension_costs c.objective] at hi hj
  rw [← nrows_costs c.objective, ← ncols_costs c.objective] at hout
  exact Grid.cell?_balanced_of_outside hi hj hout

/-! ## Solving -/

theorem CostMatrix.rows_complement {a : CostMatrix K} {table : RawTable K} {top : K}
    (ha : ofRows table = .ok a) (htop : greatest? table.flatten = some top) :
    a.complement.rows = table.distancesFrom top := by
  have hrows := rows_of_ofRows ha
  have hgreatest : a.greatest? = some top := by
    rw [Grid.greatest?, Grid.cells, hrows, htop]
  rw [Grid.complement, hgreatest, RawTable.distancesFrom, ← hrows]
  exact Grid.rows_map ..

/-- **Maximizing is minimizing the distances from a largest value**, which are accepted. -/
theorem mirrored_solve [RangeClosed K] {table : RawTable K} {a : CostMatrix K} {top : K}
    (ha : CostMatrix.ofRows table = .ok a) (htop : greatest? table.flatten = some top) :
    ∃ b : CostMatrix K, b.toGrid = a.complement ∧
      CostMatrix.ofRows (table.distancesFrom top) = .ok b ∧
      OutcomesMirrored (solve table true) (solve (table.distancesFrom top) false) := by
  obtain ⟨b, hb⟩ := a.exists_complement
  have haccepted : CostMatrix.ofRows (table.distancesFrom top) = .ok b := by
    rw [← CostMatrix.rows_complement ha htop, ← hb]
    exact b.ofRows_rows
  refine ⟨b, hb, haccepted, ?_⟩
  rw [solve, solve, (Solver.ofFlag true).solve_of_ofRows ha rfl,
    (Solver.ofFlag false).solve_of_ofRows haccepted rfl]
  exact Run.mirrored_outcome hb

/-- In exact arithmetic the two totals make up a largest value for each pair. -/
theorem Run.totalCost_add_totalCost {a b : CostMatrix Rat} (hb : b.toGrid = a.complement)
    {top : Rat} (htop : a.greatest? = some top) {μ : Matching}
    (hμ : (ofSource (.ofFlag true) a).descent.ending = .complete μ) :
    ((ofSource (.ofFlag true) a).solutionOf μ).totalCost +
        ((ofSource (.ofFlag false) b).solutionOf μ).totalCost =
      (min a.nrows a.ncols : Nat) * top := by
  have hμ' : (ofSource (.ofFlag false) b).descent.ending = .complete μ := by
    rw [descent_complement hb, hμ]
  have hfeasible := isFeasible_solutionOf _ a hμ
  have hpairs := realPairs_complement hb μ
  rw [totalCost_eq_costOf hfeasible, totalCost_eq_costOf (isFeasible_solutionOf _ b hμ')]
  show a.costOf ((ofSource (.ofFlag true) a).realPairs μ) +
    b.costOf ((ofSource (.ofFlag false) b).realPairs μ) = _
  have hlength : ((ofSource (.ofFlag true) a).realPairs μ).length = min a.nrows a.ncols :=
    hfeasible.length_eq
  have hinside : ∀ p ∈ (ofSource (.ofFlag true) a).realPairs μ, p.row < a.nrows ∧ p.col < a.ncols :=
    hfeasible.inside
  -- The distances of the pairs make up for their values.
  rw [hpairs, hb, Grid.costOf_complement htop hinside, hlength]
  ring

/-- **Maximizing is minimizing the complement.**  For every accepted table with a largest value,
    the table of the distances from that value is accepted too, and minimizing over it goes the
    way that maximizing over the table goes: the same pairs, padding and number of adjustments,
    and the same trace from the conversion on, or the same failure.  Dummy cells are zero
    whatever the objective.  In exact arithmetic both are solved, and the totals add up to as
    many largest values as there are pairs. -/
theorem solve_distances :
    (∀ (table : RawTable Float) (a : CostMatrix Float) (top : Float),
      CostMatrix.ofRows table = .ok a → greatest? table.flatten = some top →
        ∃ b, CostMatrix.ofRows (table.distancesFrom top) = .ok b ∧
          OutcomesMirrored (solve table true) (solve (table.distancesFrom top) false)) ∧
    (∀ (a : CostMatrix Float) (maximize : Bool) (i j : Nat), i < a.dimension → j < a.dimension →
      a.nrows ≤ i ∨ a.ncols ≤ j →
        (Run.ofSource (.ofFlag maximize) a).balanced.cell? i j = some 0) ∧
    ∀ (table : RawTable Rat) (a : CostMatrix Rat) (top : Rat),
      CostMatrix.ofRows table = .ok a → greatest? table.flatten = some top →
        ∃ b sol sol', CostMatrix.ofRows (table.distancesFrom top) = .ok b ∧
          solve table true = .ok sol ∧ solve (table.distancesFrom top) false = .ok sol' ∧
          sol.MirroredBy sol' ∧
          sol.totalCost + sol'.totalCost = (min a.nrows a.ncols : Nat) * top := by
  refine ⟨?_, fun a maximize i j => Run.cell?_balanced_of_outside (.ofFlag maximize) a, ?_⟩
  · intro table a top ha htop
    obtain ⟨b, _, hb, houtcomes⟩ := mirrored_solve ha htop
    exact ⟨b, hb, houtcomes⟩
  · intro table a top ha htop
    obtain ⟨b, hgrid, hb, _⟩ := mirrored_solve ha htop
    obtain ⟨μ, hμ⟩ := Run.exists_complete (.ofFlag true) a
    have hμ' : (Run.ofSource (.ofFlag false) b).descent.ending = .complete μ := by
      rw [Run.descent_complement hgrid, hμ]
    have hgreatest : a.greatest? = some top := by
      rw [Grid.greatest?, Grid.cells, CostMatrix.rows_of_ofRows ha, htop]
    exact ⟨b, _, _, hb, (Solver.ofFlag true).solve_eq_ok_of_complete ha rfl hμ,
      (Solver.ofFlag false).solve_eq_ok_of_complete hb rfl hμ', Run.mirrored_solutionOf hgrid μ,
      Run.totalCost_add_totalCost hgrid hgreatest hμ⟩

/-- Rewards of two workers for three tasks: floats near the end of the range, whose distances are
    rounded, and rationals. -/
theorem solve_distances_rewards :
    let table : RawTable Float := [[1e300, 0.1, -1e300], [2.5, 1e300, 3]]
    let a : CostMatrix Float := ⟨⟨3, table, by decide⟩, by decide, by decide, by decide +kernel,
      by decide +kernel⟩
    let exact : RawTable Rat := [[1, 2, 3], [2, 4, 6]]
    CostMatrix.ofRows table = .ok a ∧ greatest? table.flatten = some 1e300 ∧
      (∃ b, CostMatrix.ofRows (table.distancesFrom 1e300) = .ok b) ∧
      (∃ sol sol', solve table true = .ok sol ∧
        solve (table.distancesFrom 1e300) false = .ok sol' ∧ sol.MirroredBy sol') ∧
      (Run.ofSource (.ofFlag true) a).balanced.cell? 2 1 = some 0 ∧
      ∃ sol sol', solve exact true = .ok sol ∧ solve (exact.distancesFrom 6) false = .ok sol' ∧
        sol.assignment = sol'.assignment ∧ sol.totalCost + sol'.totalCost = 12 := by
  intro table a exact
  obtain ⟨hfloats, hdummies, hrationals⟩ := solve_distances
  have htop : greatest? table.flatten = some 1e300 := by decide +kernel
  obtain ⟨b, hb, houtcomes⟩ := hfloats table a 1e300 a.ofRows_rows htop
  refine ⟨a.ofRows_rows, htop, ⟨b, hb⟩, ?_,
    hdummies a true 2 1 (by decide) (by decide) (.inl (by decide)), ?_⟩
  · -- These floats are solved, so it is no failure that the two attempts share.
    have hsolved : (solve table true).toOption.isSome = true := by decide +kernel
    generalize solve table true = outcome, solve (table.distancesFrom 1e300) false = outcome' at *
    cases houtcomes with
    | @solved sol sol' hmirrored => exact ⟨sol, sol', rfl, rfl, hmirrored⟩
    | failed failure => cases hsolved
  · let e : CostMatrix Rat := ⟨⟨3, exact, by decide⟩, by decide, by decide, by decide,
      by decide +kernel⟩
    have htop' : greatest? exact.flatten = some 6 := by decide +kernel
    obtain ⟨_, sol, sol', _, hsol, hsol', hmirrored, htotal⟩ :=
      hrationals exact e 6 e.ofRows_rows htop'
    refine ⟨sol, sol', hsol, hsol', hmirrored.assignment_eq.symm, htotal.trans ?_⟩
    show ((2 : Nat) : Rat) * 6 = 12
    norm_num

end LinearAssignment
