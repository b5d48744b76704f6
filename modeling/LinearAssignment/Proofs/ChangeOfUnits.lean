import LinearAssignment.Proofs.RowShift
import LinearAssignment.Proofs.Scaling

/-! # Changing the units in which costs are counted

    Costs counted in a smaller unit are all multiplied by one factor, and costs of a worker
    counted from another zero all gain one constant.  Over the rationals neither changes which
    pairs are chosen, although ties are broken by position: the runs go the same way, step by
    step.

    * `Solution.Scaled`, `Solution.Shifted`: what either change makes of a solution.
    * `Trace.fromReduction`: the part of a trace that constants on the rows do not show in.
    * `solveMatrix_change_of_units`: what solving does with both changes. -/

namespace LinearAssignment

/-! ## Parts of a trace -/

/-- The part of a trace from row reduction on. -/
def Trace.fromReduction {K : Type} (t : Trace K) : Trace K :=
  t.dropWhile (·.label != "Row reduction")

theorem Padding.label_ne {p : Padding} {label : String} (h : p.label? = some label) :
    label ≠ "Row reduction" := by
  have hcount : ∀ count line, countLabel count line ≠ "Row reduction" := by
    intro count line hlabel
    -- The two differ in their first letter.
    have hhead : (countLabel count line).toList.head? = some 'A' := by
      unfold countLabel
      split <;> simp [toString]
    rw [hlabel] at hhead
    cases hhead
  unfold label? at h
  split at h
  · exact Option.some.inj h ▸ hcount _ _
  · split at h
    · exact Option.some.inj h ▸ hcount _ _
    · cases h

namespace Run

variable {K : Type} [Scalar K]

/-- From row reduction on, the steps are the two reductions and the rounds. -/
theorem fromReduction_steps (r : Run K) :
    Trace.fromReduction r.steps = .ofGrid "Row reduction" r.rowReduced ::
      .ofGrid "Column reduction" r.reduced :: r.descent.steps := by
  unfold steps Trace.fromReduction
  rw [List.append_assoc]
  refine (List.dropWhile_append_of_pos ?_).trans rfl
  -- No step before the reductions is called by their name.
  intro step hstep
  rw [bne_iff_ne]
  rcases List.mem_append.mp hstep with hstep | hsquaring
  · rcases List.mem_append.mp hstep with hinput | hconversion
    · obtain rfl := List.mem_singleton.mp hinput
      simp [Step.ofGrid]
    · split at hconversion
      · obtain rfl := List.mem_singleton.mp hconversion
        simp [Step.ofGrid]
      · cases hconversion
  · cases hlabel : r.padding.label? with
    | none =>
      rw [hlabel] at hsquaring
      cases hsquaring
    | some label =>
      rw [hlabel] at hsquaring
      obtain rfl := List.mem_singleton.mp hsquaring
      exact Padding.label_ne hlabel

/-- Runs that reduce and descend alike have traces alike from row reduction on. -/
theorem fromReduction_trace_eq {r s : Run K} (hconfig : s.config = r.config)
    (hrow : s.rowReduced = r.rowReduced) (hreduced : s.reduced = r.reduced)
    (hdescent : s.descent = r.descent) :
    Trace.fromReduction s.trace = Trace.fromReduction r.trace := by
  unfold trace
  rw [hconfig]
  split
  · rw [fromReduction_steps, fromReduction_steps, hrow, hreduced, hdescent]
  · rfl

/-- And if they are padded alike, the labels before it are the same too. -/
theorem labels_trace_eq {r s : Run K} (hconfig : s.config = r.config)
    (hpadding : s.padding = r.padding) (hdescent : s.descent = r.descent) :
    Trace.labels s.trace = Trace.labels r.trace := by
  have hsteps : Trace.labels s.steps = Trace.labels r.steps := by
    unfold Trace.labels steps
    rw [hconfig, hpadding, hdescent]
    cases r.config.objective <;> cases r.padding.label? <;> rfl
  unfold trace
  rw [hconfig]
  split
  · exact hsteps
  · rfl

end Run

/-! ## Solutions -/

/-- The second solution is the first one with everything that is counted in costs multiplied
    by `k`, and nothing else changed. -/
structure Solution.Scaled (k : Rat) (sol sol' : Solution Rat) : Prop where
  source : sol'.source.toGrid = sol.source.toGrid.scale k
  assignment : sol'.assignment = sol.assignment
  totalCost : sol'.totalCost = k * sol.totalCost
  objective : sol'.objective = sol.objective
  trace : List.Forall₂ (Step.Scaled k) sol.trace sol'.trace
  padding : sol'.padding = sol.padding
  adjustments : sol'.adjustments = sol.adjustments

theorem Run.Scaled.solutionOf {k : Rat} {r s : Run Rat} (h : r.Scaled k s) (μ : Matching) :
    (r.solutionOf μ).Scaled k (s.solutionOf μ) where
  source := h.source_eq
  assignment := h.realPairs_eq μ
  totalCost := by
    show s.costOf (s.realPairs μ) = k * r.costOf (r.realPairs μ)
    rw [h.realPairs_eq, h.costOf_eq]
  objective := congrArg Config.objective h.config_eq
  trace := h.trace
  padding := h.padding_eq
  adjustments := by
    rw [adjustments_solutionOf, adjustments_solutionOf, h.rounds_eq, List.length_map]

/-- The second solution is for the first one's matrix with constants added to its rows: the
    same pairs, a trace with the same labels that is the same from row reduction on, and a total
    that gains all constants. -/
structure Solution.Shifted (x : Nat → Rat) (sol sol' : Solution Rat) : Prop where
  source : sol'.source.toGrid = sol.source.toGrid.addRows x
  assignment : sol'.assignment = sol.assignment
  totalCost : sol'.totalCost = sol.totalCost + ∑ i ∈ Finset.range sol.source.nrows, x i
  objective : sol'.objective = sol.objective
  labels : Trace.labels sol'.trace = Trace.labels sol.trace
  fromReduction : Trace.fromReduction sol'.trace = Trace.fromReduction sol.trace
  padding : sol'.padding = sol.padding
  adjustments : sol'.adjustments = sol.adjustments

theorem Run.shifted_solutionOf {x : Nat → Rat} {a b : CostMatrix Rat} (c : Config)
    (h : a.nrows ≤ a.ncols) (hb : b.toGrid = a.toGrid.addRows x) {μ : Matching}
    (hμ : (ofSource c a).descent.ending = .complete μ) :
    ((ofSource c a).solutionOf μ).Shifted x ((ofSource c b).solutionOf μ) := by
  obtain ⟨hreduced, hdescent⟩ := descent_addRows c h hb
  have hpadding := padding_addRows c hb
  exact {
    source := hb
    assignment := realPairs_addRows c hb μ
    totalCost := totalCost_addRows c h hb hμ
    objective := rfl
    labels := labels_trace_eq rfl hpadding hdescent
    fromReduction := fromReduction_trace_eq rfl (rowReduced_addRows c h hb) hreduced hdescent
    padding := hpadding
    adjustments := by rw [adjustments_solutionOf, adjustments_solutionOf, hdescent] }

/-! ## Both changes -/

/-- The limit looks at the shape alone. -/
theorem Solver.exceededLimit?_congr {s : Solver} {a b : CostMatrix Rat}
    (h : b.dimension = a.dimension) : s.exceededLimit? b = s.exceededLimit? a := by
  rw [exceededLimit?, exceededLimit?, h]

/-- **The units in which costs are counted do not decide which pairs are chosen.**  For either
    objective, multiplying all costs by a positive factor multiplies the total, every snapshot
    and every value adjusted by, and changes neither the pairs nor the padding nor the number
    of adjustments.  Where there are no more rows than columns, adding a constant to the costs
    of each row changes none of these either; all snapshots from row reduction on stay as
    they are, and the total gains the sum of the constants. -/
theorem solveMatrix_change_of_units (s : Solver) (a : CostMatrix Rat)
    (hlimit : s.exceededLimit? a = none) :
    (∀ k : Rat, 0 < k → ∃ b, CostMatrix.ofRows (a.toGrid.scale k).rows = .ok b ∧
      ∃ sol sol', s.solveMatrix a = .ok sol ∧ s.solveMatrix b = .ok sol' ∧ sol.Scaled k sol' ∧
        (Run.ofSource s.config b).descent.rounds.map (·.value) =
          (Run.ofSource s.config a).descent.rounds.map (k * ·.value)) ∧
    (a.nrows ≤ a.ncols → ∀ x : Nat → Rat,
      ∃ b, CostMatrix.ofRows (a.toGrid.addRows x).rows = .ok b ∧
        ∃ sol sol', s.solveMatrix a = .ok sol ∧ s.solveMatrix b = .ok sol' ∧
          sol.Shifted x sol') := by
  obtain ⟨μ, hμ⟩ := Run.exists_complete s.config a
  have hsol := s.solveMatrix_eq_ok_of_complete hlimit hμ
  constructor
  · intro k hk
    obtain ⟨b, hb, hgrid⟩ := CostMatrix.exists_ofRows (g := a.toGrid.scale k)
      ((Grid.nrows_scale k a.toGrid).symm ▸ a.nrows_pos) a.ncols_pos
    have hlimit' : s.exceededLimit? b = none :=
      (Solver.exceededLimit?_congr (by rw [hgrid, Grid.dimension_scale])).trans hlimit
    have hrun := Run.scaled_ofSource hk s.config hgrid
    refine ⟨b, hb, _, _, hsol, s.solveMatrix_eq_ok_of_complete hlimit' (hrun.complete μ hμ),
      hrun.solutionOf μ, ?_⟩
    rw [hrun.rounds_eq, List.map_map]
    rfl
  · intro hshape x
    obtain ⟨b, hb, hgrid⟩ := CostMatrix.exists_ofRows (g := a.toGrid.addRows x)
      ((Grid.nrows_addRows x a.toGrid).symm ▸ a.nrows_pos) a.ncols_pos
    have hlimit' : s.exceededLimit? b = none :=
      (Solver.exceededLimit?_congr (by rw [hgrid, Grid.dimension_addRows])).trans hlimit
    -- From row reduction on the two runs are one, so that one ends as the other does.
    have hμ' : (Run.ofSource s.config b).descent.ending = .complete μ := by
      rw [(Run.descent_addRows s.config hshape hgrid).2, hμ]
    exact ⟨b, hb, _, _, hsol, s.solveMatrix_eq_ok_of_complete hlimit' hμ',
      Run.shifted_solutionOf s.config hshape hgrid hμ⟩

/-- Rewards of two workers for three tasks, with a dummy row and an adjustment: in thirds, and
    then with a constant for each worker. -/
theorem solveMatrix_change_of_units_rewards :
    let s : Solver := ⟨⟨.maximize, some 3, true⟩, rfl⟩
    let a : CostMatrix Rat := ⟨⟨3, [[1, 2, 3], [2, 4, 6]], by decide⟩, by decide, by decide,
      by decide, by decide +kernel⟩
    s.exceededLimit? a = none ∧
      (∃ b sol', CostMatrix.ofRows (a.toGrid.scale 3).rows = .ok b ∧
        s.solveMatrix b = .ok sol' ∧ sol'.assignment = [⟨0, 1⟩, ⟨1, 2⟩] ∧ sol'.totalCost = 24 ∧
        sol'.adjustments = 1) ∧
      (∃ b sol', CostMatrix.ofRows (a.toGrid.addRows fun i => 5 - 7 * i).rows = .ok b ∧
        s.solveMatrix b = .ok sol' ∧ sol'.assignment = [⟨0, 1⟩, ⟨1, 2⟩] ∧
        sol'.totalCost = 8 + (5 + -2)) := by
  intro s a
  have hsolved : (s.solveMatrix a).toOption.map (fun sol =>
      (sol.source.nrows, sol.assignment, sol.totalCost, sol.adjustments)) =
        some (2, [⟨0, 1⟩, ⟨1, 2⟩], 8, 1) := by
    decide +kernel
  have hparts : ∀ sol, s.solveMatrix a = .ok sol → sol.source.nrows = 2 ∧
      sol.assignment = [⟨0, 1⟩, ⟨1, 2⟩] ∧ sol.totalCost = 8 ∧ sol.adjustments = 1 := by
    intro sol hsol
    rw [hsol] at hsolved
    simpa [Except.toOption] using hsolved
  obtain ⟨hscaled, hshifted⟩ := solveMatrix_change_of_units s a rfl
  refine ⟨rfl, ?_, ?_⟩
  · obtain ⟨b, hb, sol, sol', hsol, hsol', hk, _⟩ := hscaled 3 (by norm_num)
    obtain ⟨_, hpairs, htotal, hadjustments⟩ := hparts sol hsol
    refine ⟨b, sol', hb, hsol', hk.assignment.trans hpairs, ?_, hk.adjustments.trans hadjustments⟩
    rw [hk.totalCost, htotal]
    norm_num
  · obtain ⟨b, hb, sol, sol', hsol, hsol', hx⟩ := hshifted (by decide) fun i => 5 - 7 * i
    obtain ⟨hrows, hpairs, htotal, _⟩ := hparts sol hsol
    refine ⟨b, sol', hb, hsol', hx.assignment.trans hpairs, ?_⟩
    rw [hx.totalCost, htotal, hrows, Finset.sum_range_succ, Finset.sum_range_one]
    norm_num

end LinearAssignment
