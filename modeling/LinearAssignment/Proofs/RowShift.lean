import LinearAssignment.Proofs.DualAccounting

/-! # Runs on matrices with constants added to their rows

    Where a table has no more rows than columns, every row is assigned and no dummy column is
    added, so a constant added to a row is taken off again when the rows are reduced.  From
    there on two such runs are one run.

    * `Grid.addRows`: a constant added to every value of a row.
    * `Grid.reduceRows_addRows`: reduced rows do not show the constants.
    * `Run.rowReduced_addRows`: conversion and squaring leave constants on the rows, so runs
      agree from row reduction on.
    * `Run.totalCost_addRows`: the total gains all the constants. -/

namespace LinearAssignment

namespace Grid

/-- The constant `c i` added to every value of row `i`. -/
def addRows (c : Nat → Rat) (g : Grid Rat) : Grid Rat := g.mapIdx fun i _ v => v + c i

variable {c : Nat → Rat} {g : Grid Rat}

@[simp] theorem ncols_addRows (c : Nat → Rat) (g : Grid Rat) : (g.addRows c).ncols = g.ncols := rfl

@[simp] theorem nrows_addRows (c : Nat → Rat) (g : Grid Rat) : (g.addRows c).nrows = g.nrows :=
  nrows_mapIdx ..

@[simp] theorem dimension_addRows (c : Nat → Rat) (g : Grid Rat) :
    (g.addRows c).dimension = g.dimension := by
  rw [dimension, nrows_addRows, ncols_addRows, dimension]

theorem cell?_addRows (c : Nat → Rat) (g : Grid Rat) (i j : Nat) :
    (g.addRows c).cell? i j = (g.cell? i j).map (· + c i) :=
  cell?_mapIdx ..

/-! ## Stages -/

/-- The smallest value of a row gains the constant of the row. -/
theorem rowMinima_addRows (c : Nat → Rat) (g : Grid Rat) (i : Nat) :
    (g.addRows c).rowMinima[i]?.getD none = (g.rowMinima[i]?.getD none).map (· + c i) := by
  have hrow : (g.addRows c).rows[i]? = g.rows[i]?.map (List.map (· + c i)) := by
    rw [addRows, mapIdx, List.getElem?_mapIdx]
    refine congrArg (Option.map · _) (funext fun row => ?_)
    exact List.ext_getElem? fun j => by rw [List.getElem?_mapIdx, List.getElem?_map]
  have hmono : StrictMono (· + c i : Rat → Rat) := fun _ _ h => add_lt_add_left h (c i)
  rw [rowMinima, rowMinima, List.getElem?_map, List.getElem?_map, hrow]
  cases g.rows[i]? with
  | none => rfl
  | some row => exact Scalar.least?_map hmono row

/-- **Reduced rows do not show the constants.** -/
theorem reduceRows_addRows (c : Nat → Rat) (g : Grid Rat) :
    (g.addRows c).reduceRows = g.reduceRows := by
  refine ext_cell? rfl ?_ fun i j => ?_
  · rw [nrows_reduceRows, nrows_reduceRows, nrows_addRows]
  · rw [cell?_reduceRows, cell?_reduceRows, cell?_addRows, rowMinima_addRows]
    cases hcell : g.cell? i j with
    | none => rfl
    | some v =>
      have hcols : 0 < g.ncols := Nat.zero_lt_of_lt (lt_ncols_of_cell? hcell)
      obtain ⟨d, hd, _, _⟩ := rowMinima_spec (lt_nrows_of_cell? hcell) hcols
      simp only [hd, Option.getD_some, Option.map_some, lowerBy_rat, add_sub_add_right_eq_sub]

/-- The complement of a grid with constants on its rows is its complement with constants on
    its rows: what the largest value gains, and what each row then falls short of it. -/
theorem exists_complement_addRows (c : Nat → Rat) (hm : 0 < g.nrows) (hn : 0 < g.ncols) :
    ∃ c', (g.addRows c).complement = g.complement.addRows c' := by
  obtain ⟨top, htop, _⟩ := exists_greatest? hm hn
  obtain ⟨top', htop', _⟩ := exists_greatest? (g := g.addRows c) (by simpa using hm) hn
  refine ⟨fun i => top' - top - c i, ?_⟩
  unfold complement
  rw [htop, htop']
  refine ext_cell? rfl (by simp [map]) fun i j => ?_
  simp only [map, cell?_mapIdx, cell?_addRows, Option.map_map]
  refine congrArg (Option.map · _) (funext fun v => ?_)
  show top' - (v + c i) = top - v + (top' - top - c i)
  ring

theorem exists_costs_addRows (o : Objective) (c : Nat → Rat) (hm : 0 < g.nrows)
    (hn : 0 < g.ncols) : ∃ c', o.costs (g.addRows c) = (o.costs g).addRows c' := by
  cases o with
  | minimize => exact ⟨c, rfl⟩
  | maximize => exact exists_complement_addRows c hm hn

/-- With no more rows than columns, squaring adds no cell to a row that has a constant. -/
theorem balanced_addRows (c : Nat → Rat) (h : g.nrows ≤ g.ncols) :
    (g.addRows c).balanced = g.balanced.addRows fun i => if i < g.nrows then c i else 0 := by
  refine ext_cell? ?_ ?_ fun i j => ?_
  · rw [ncols_balanced, ncols_addRows, ncols_balanced, dimension_addRows]
  · rw [nrows_balanced, nrows_addRows, nrows_balanced, dimension_addRows]
  · have hsquare : (g.addRows c).isSquare = g.isSquare := by
      rw [isSquare, nrows_addRows, ncols_addRows, isSquare]
    have hdim : g.dimension = g.ncols := Nat.max_eq_right h
    rw [cell?_addRows]
    unfold balanced
    rw [hsquare, dimension_addRows]
    split
    · rw [cell?_addRows]
      cases hcell : g.cell? i j with
      | none => rfl
      | some v => rw [Option.map_some, Option.map_some, if_pos (lt_nrows_of_cell? hcell)]
    · -- Below the rows of `g` there are dummy cells only, and there the constant is zero.
      rw [cell?_padTo, cell?_padTo, cell?_addRows]
      by_cases hin : i < g.dimension ∧ j < g.dimension
      · rw [if_pos hin, if_pos hin, Option.map_some]
        by_cases hi : i < g.nrows
        · obtain ⟨v, hv⟩ := g.exists_cell? hi (hdim ▸ hin.2)
          rw [hv, if_pos hi]
          rfl
        · have hnone : g.cell? i j = none :=
            (g.cell?_eq_none_iff i j).mpr (.inl (Nat.le_of_not_lt hi))
          rw [hnone, if_neg hi]
          exact congrArg some (add_zero 0).symm
      · rw [if_neg hin, if_neg hin]
        rfl

/-! ## Totals -/

/-- A permutation meets every row, so it gains all constants. -/
theorem costAlong_addRows (c : Nat → Rat) (h : g.nrows ≤ g.ncols)
    (σ : Equiv.Perm (Fin g.dimension)) :
    (g.addRows c).costAlong σ = g.costAlong σ + ∑ i ∈ Finset.range g.nrows, c i := by
  have hdim : g.dimension = g.ncols := Nat.max_eq_right h
  have hshares := costAlong_of_shares (g := g.addRows c) (w := g) σ
    (fun i => if (i : Nat) < g.nrows then c i else 0) (fun _ => 0) ?_
  · have hfilter : (Finset.range g.dimension).filter (· < g.nrows) = Finset.range g.nrows := by
      ext i
      simp only [Finset.mem_filter, Finset.mem_range]
      omega
    rw [hshares, Finset.sum_const_zero, add_zero,
      Fin.sum_univ_eq_sum_range (fun i => if i < g.nrows then c i else 0),
      ← Finset.sum_filter, hfilter]
  · intro i j
    by_cases hi : (i : Nat) < g.nrows
    · obtain ⟨v, hv⟩ := g.exists_cell? hi (j := j) (hdim ▸ j.isLt)
      have hcell : (g.addRows c).cell? i j = some (v + c i) := by
        rw [cell?_addRows, hv, Option.map_some]
      rw [value_of_cell? hcell, value_of_cell? hv, if_pos hi, add_zero]
    · -- A dummy row has no constant.
      have hout : g.nrows ≤ i := Nat.le_of_not_lt hi
      rw [value_of_outside (.inl hout), value_of_outside (.inl (by simpa using hout)), if_neg hi,
        add_zero, add_zero]

theorem pairsAlong_addRows (c : Nat → Rat) (g : Grid Rat) {n : Nat} (σ : Equiv.Perm (Fin n)) :
    (g.addRows c).pairsAlong σ = g.pairsAlong σ := by
  rw [pairsAlong, nrows_addRows, ncols_addRows]
  rfl

theorem costOf_addRows (c : Nat → Rat) (h : g.nrows ≤ g.ncols)
    (σ : Equiv.Perm (Fin g.dimension)) :
    (g.addRows c).costOf (g.pairsAlong σ) =
      g.costOf (g.pairsAlong σ) + ∑ i ∈ Finset.range g.nrows, c i := by
  have halong := costAlong_addRows c h σ
  rwa [costAlong_eq_costOf, costAlong_eq_costOf, pairsAlong_addRows] at halong

end Grid

/-! ## Runs -/

namespace Run

variable {a b : CostMatrix Rat} {x : Nat → Rat}

/-- **Conversion and squaring leave the constants on the rows, and row reduction takes them
    off.** -/
theorem rowReduced_addRows (c : Config) (h : a.nrows ≤ a.ncols)
    (hb : b.toGrid = a.toGrid.addRows x) :
    (ofSource c b).rowReduced = (ofSource c a).rowReduced := by
  obtain ⟨y, hcosts⟩ := Grid.exists_costs_addRows c.objective x a.nrows_pos a.ncols_pos
  have hshape : (c.objective.costs a.toGrid).nrows ≤ (c.objective.costs a.toGrid).ncols := by
    rwa [nrows_costs, ncols_costs]
  show (c.objective.costs b.toGrid).balanced.reduceRows = _
  rw [hb, hcosts, Grid.balanced_addRows y hshape, Grid.reduceRows_addRows]
  rfl

/-- The two runs reduce to one matrix and descend from it in the same way. -/
theorem descent_addRows (c : Config) (h : a.nrows ≤ a.ncols)
    (hb : b.toGrid = a.toGrid.addRows x) :
    (ofSource c b).reduced = (ofSource c a).reduced ∧
      (ofSource c b).descent = (ofSource c a).descent := by
  have hreduced : (ofSource c b).reduced = (ofSource c a).reduced :=
    congrArg Grid.reduceColumns (rowReduced_addRows c h hb)
  refine ⟨hreduced, ?_⟩
  show (ofSource c b).reduced.descend (roundBudget (ofSource c b).reduced.nrows) = _
  rw [hreduced]
  rfl

theorem padding_addRows (c : Config) (hb : b.toGrid = a.toGrid.addRows x) :
    (ofSource c b).padding = (ofSource c a).padding := by
  show b.toGrid.padding = a.toGrid.padding
  rw [hb, Grid.padding, Grid.nrows_addRows, Grid.ncols_addRows, Grid.padding]

/-- One matching stands for the same pairs in both. -/
theorem realPairs_addRows (c : Config) (hb : b.toGrid = a.toGrid.addRows x) (μ : Matching) :
    (ofSource c b).realPairs μ = (ofSource c a).realPairs μ := by
  have hrows : (ofSource c b).source.nrows = (ofSource c a).source.nrows := by
    show b.nrows = a.nrows
    rw [hb, Grid.nrows_addRows]
  have hcols : (ofSource c b).source.ncols = (ofSource c a).source.ncols := by
    show b.ncols = a.ncols
    rw [hb, Grid.ncols_addRows]
  rw [realPairs, realPairs, hrows, hcols]

/-- **The total gains the constants of all rows.** -/
theorem totalCost_addRows (c : Config) (h : a.nrows ≤ a.ncols)
    (hb : b.toGrid = a.toGrid.addRows x) {μ : Matching}
    (hμ : (ofSource c a).descent.ending = .complete μ) :
    ((ofSource c b).solutionOf μ).totalCost =
      ((ofSource c a).solutionOf μ).totalCost + ∑ i ∈ Finset.range a.nrows, x i := by
  have hμ' : (ofSource c b).descent.ending = .complete μ := by
    rw [(descent_addRows c h hb).2]
    exact hμ
  obtain ⟨σ, _, hpairs⟩ := exists_realPairs_eq c a hμ
  rw [totalCost_eq_costOf (isFeasible_solutionOf c b hμ'),
    totalCost_eq_costOf (isFeasible_solutionOf c a hμ), assignment_solutionOf,
    assignment_solutionOf, realPairs_addRows c hb, hpairs]
  show b.toGrid.costOf _ = a.toGrid.costOf _ + _
  rw [hb, Grid.costOf_addRows x h σ]

end Run

end LinearAssignment
