import LinearAssignment.Proofs.Rounds
import LinearAssignment.Solver

/-! # Runs from end to end

    What the parts of a run have to do with one another: the shape that every working matrix
    has, the state in which the adjustment loop starts, and which solutions a solver hands
    out.

    * `Run.working`: the working matrices from column reduction on.
    * `Run.isReduced_reduced`: the loop starts on a reduced square matrix.
    * `Solver.answerValidated_eq_ok_iff`: a solution comes from a complete matching.
    * `CostMatrix.exists_ofRows`: over exact scalars every non-empty grid is accepted. -/

namespace LinearAssignment

variable {K : Type} [Scalar K]

/-! ## Accepted tables -/

theorem Grid.width_rows {α : Type} (g : Grid α) (h : g.rows ≠ []) :
    RawTable.width g.rows = g.ncols := by
  obtain ⟨row, rows, hrows⟩ := List.exists_cons_of_ne_nil h
  have hlength := g.rect row (hrows ▸ List.mem_cons_self)
  rw [hrows]
  exact hlength

namespace CostMatrix

theorem rows_of_ofRows {table : RawTable K} {a : CostMatrix K} (h : ofRows table = .ok a) :
    a.rows = table := by
  unfold ofRows at h
  split at h
  · cases h
  · obtain rfl := Except.ok.inj h
    rfl

theorem finite_cells (a : CostMatrix K) : ∀ v ∈ a.cells, Scalar.isFinite v = true := by
  intro v hv
  obtain ⟨row, hrow, hv⟩ := List.mem_flatten.mp hv
  exact a.finite row hrow v hv

theorem nrows_pos (a : CostMatrix K) : 0 < a.nrows :=
  List.length_pos_of_ne_nil a.rows_ne_nil

/-- Over exact scalars no value is out of range. -/
theorem rangeFault?_eq_none [Scalar.ExactNearZero K] {values : List K} (h : values ≠ [])
    (dim : Nat) : Scalar.rangeFault? values dim = none := by
  obtain ⟨lo, hlo, _, _⟩ := Scalar.least?_spec h
  obtain ⟨hi, hhi, _, _⟩ := Scalar.greatest?_spec h
  simp [Scalar.rangeFault?, Scalar.extremes?, hlo, hhi, Scalar.inRange,
    Scalar.ExactNearZero.isFinite]

theorem fault?_rows_eq_none [Scalar.ExactNearZero K] {g : Grid K} (hm : 0 < g.nrows)
    (hn : 0 < g.ncols) : RawTable.fault? g.rows = none := by
  have hwidth := g.width_rows (List.ne_nil_of_length_pos hm)
  have hragged : RawTable.firstRagged? g.rows = none := by
    unfold RawTable.firstRagged?
    rw [RawTable.firstRow?_eq_none_iff]
    intro i row hrow
    rw [if_pos]
    rw [hwidth, g.length_of_getElem? hrow]
  have hcells : RawTable.firstCell? g.rows (Scalar.cellFault? (K := K)) = none := by
    rw [RawTable.firstCell?_eq_none_iff]
    intro i row _ j v _
    simp [Scalar.cellFault?, Scalar.ExactNearZero.isFinite]
  have hne : g.rows.flatten ≠ [] := by
    obtain ⟨v, hv⟩ := g.exists_cell? hm hn
    exact List.ne_nil_of_mem (Grid.mem_cells.mpr ⟨0, 0, hv⟩)
  -- The checks pass in their order: width, lengths, cells, range.
  unfold RawTable.fault?
  rw [hwidth, if_neg (Nat.ne_of_gt hn), hragged, hcells]
  exact rangeFault?_eq_none hne _

/-- **Over exact scalars every grid with a row and a column is accepted as it is.** -/
theorem exists_ofRows [Scalar.ExactNearZero K] {g : Grid K} (hm : 0 < g.nrows)
    (hn : 0 < g.ncols) : ∃ a : CostMatrix K, ofRows g.rows = .ok a ∧ a.toGrid = g := by
  have hfault := fault?_rows_eq_none hm hn
  cases hok : ofRows g.rows with
  | error failure =>
    unfold ofRows at hok
    split at hok
    · next hsome =>
      rw [hfault] at hsome
      cases hsome
    · cases hok
  | ok a =>
    refine ⟨a, rfl, ?_⟩
    -- The width of an accepted table is the length of its first row, so the grids agree.
    have hrows := rows_of_ofRows hok
    obtain ⟨row, rows, hcons⟩ := List.exists_cons_of_length_pos hm
    have hcols : a.ncols = g.ncols := by
      rw [← g.rect row (by simp [hcons]), ← a.rect row (by simp [hrows, hcons])]
    obtain ⟨⟨_, _, _⟩, _, _, _, _⟩ := a
    obtain ⟨_, _, _⟩ := g
    simp_all

end CostMatrix

namespace Run

/-! ## The shape of a run -/

/-- The working matrices from column reduction on: before each round and at the end. -/
def working (r : Run K) : List (Grid K) := r.descent.matrices r.reduced

theorem nrows_costs (o : Objective) (g : Grid K) : (o.costs g).nrows = g.nrows := by
  cases o with
  | minimize => rfl
  | maximize => exact g.nrows_complement

theorem ncols_costs (o : Objective) (g : Grid K) : (o.costs g).ncols = g.ncols := by
  cases o with
  | minimize => rfl
  | maximize => exact g.ncols_complement

theorem dimension_costs (o : Objective) (g : Grid K) :
    (o.costs g).dimension = g.dimension := by
  rw [Grid.dimension, nrows_costs, ncols_costs, Grid.dimension]

variable (c : Config) (a : CostMatrix K)

theorem nrows_balanced : (ofSource c a).balanced.nrows = a.dimension := by
  have := (c.objective.costs a.toGrid).nrows_balanced
  rwa [dimension_costs] at this

theorem ncols_balanced : (ofSource c a).balanced.ncols = a.dimension := by
  have := (c.objective.costs a.toGrid).ncols_balanced
  rwa [dimension_costs] at this

theorem nrows_reduced : (ofSource c a).reduced.nrows = a.dimension := by
  rw [← nrows_balanced c a]
  exact (Grid.nrows_reduceColumns _).trans (Grid.nrows_reduceRows _)

theorem ncols_reduced : (ofSource c a).reduced.ncols = a.dimension := by
  rw [← ncols_balanced c a]
  rfl

theorem dimension_pos : 0 < a.dimension :=
  Nat.lt_of_lt_of_le a.nrows_pos (Nat.le_max_left ..)

/-- The adjustment loop starts on a reduced matrix. -/
theorem isReduced_reduced [Scalar.ExactNearZero K] : (ofSource c a).reduced.IsReduced := by
  apply Grid.isReduced_reduce
  · exact (nrows_balanced c a).symm ▸ dimension_pos a
  · exact (ncols_balanced c a).symm ▸ dimension_pos a

/-- The rounds of a run lead from the reduced matrix to the last working matrix. -/
theorem exists_rounds : ∃ w, Rounds (ofSource c a).reduced (ofSource c a).descent.rounds w := by
  obtain ⟨w, hrounds, _⟩ := Grid.descend_spec _ (ofSource c a).reduced
  exact ⟨w, hrounds⟩

/-- A complete matching at the end of a run was found on the last working matrix, which is
    as large as the balanced one. -/
theorem exists_last {μ : Matching} (h : (ofSource c a).descent.ending = .complete μ) :
    ∃ w, Rounds (ofSource c a).reduced (ofSource c a).descent.rounds w ∧
      w.nrows = a.dimension ∧ w.ncols = a.dimension ∧
      μ = w.zeroPattern.maximumMatching ∧ μ.isComplete = true := by
  obtain ⟨w, hrounds, hμ, hcomplete⟩ := Grid.descend_complete h
  obtain ⟨hrows, hcols⟩ := hrounds.shape
  exact ⟨w, hrounds, hrows.trans (nrows_reduced c a), hcols.trans (ncols_reduced c a), hμ,
    hcomplete⟩

/-- Some of the rounds of a run lead to each of its working matrices. -/
theorem exists_rounds_of_mem_working {w : Grid K} (hw : w ∈ (ofSource c a).working) :
    ∃ rs, Rounds (ofSource c a).reduced rs w := by
  obtain ⟨last, hrounds⟩ := exists_rounds c a
  obtain ⟨t, ht⟩ := List.mem_iff_getElem?.mp hw
  exact ⟨_, hrounds.take ht⟩

theorem shape_of_mem_working {w : Grid K} (hw : w ∈ (ofSource c a).working) :
    w.nrows = a.dimension ∧ w.ncols = a.dimension := by
  obtain ⟨rs, hrounds⟩ := exists_rounds_of_mem_working c a hw
  obtain ⟨hrows, hcols⟩ := hrounds.shape
  exact ⟨hrows.trans (nrows_reduced c a), hcols.trans (ncols_reduced c a)⟩

/-- Every working matrix of the loop is reduced. -/
theorem isReduced_of_mem_working [Scalar.ExactNearZero K] {w : Grid K}
    (hw : w ∈ (ofSource c a).working) : w.IsReduced := by
  obtain ⟨rs, hrounds⟩ := exists_rounds_of_mem_working c a hw
  exact hrounds.isReduced (isReduced_reduced c a)

/-- Over exact scalars a run on an `n` by `n` problem makes at most `n * (n - 1) / 2`
    adjustments. -/
theorem length_rounds_le [Scalar.ExactNearZero K] :
    (ofSource c a).descent.rounds.length ≤ a.dimension * (a.dimension - 1) / 2 := by
  obtain ⟨last, hrounds⟩ := exists_rounds c a
  have hlen := hrounds.length_le (isReduced_reduced c a)
  rwa [nrows_reduced, Nat.choose_two_right] at hlen

/-- Over exact scalars the loop of a run ends in a complete matching. -/
theorem exists_complete [Scalar.ExactNearZero K] :
    ∃ μ, (ofSource c a).descent.ending = .complete μ :=
  (isReduced_reduced c a).exists_complete
    ((nrows_reduced c a).trans (ncols_reduced c a).symm)

/-! ## Outcomes -/

@[simp] theorem source_solutionOf (r : Run K) (μ : Matching) :
    (r.solutionOf μ).source = r.source := rfl

@[simp] theorem assignment_solutionOf (r : Run K) (μ : Matching) :
    (r.solutionOf μ).assignment = r.realPairs μ := rfl

@[simp] theorem adjustments_solutionOf (r : Run K) (μ : Matching) :
    (r.solutionOf μ).adjustments = r.descent.rounds.length := rfl

theorem outcome_eq_ok_iff {r : Run K} {sol : Solution K} :
    r.outcome = .ok sol ↔ ∃ μ, r.descent.ending = .complete μ ∧ sol = r.solutionOf μ := by
  unfold outcome Descent.outcome
  cases r.descent.ending with
  | complete μ =>
    simp only [Except.ok.injEq, Ending.complete.injEq, exists_eq_left']
    exact eq_comm
  | stuck μ lines defect => simp
  | exhausted => simp

end Run

namespace Solver

/-- A solver that is given an accepted matrix within its limit answers with the outcome of
    the run. -/
theorem solve_of_ofRows (s : Solver) {table : RawTable K} {a : CostMatrix K}
    (ha : CostMatrix.ofRows table = .ok a) (hlimit : s.exceededLimit? a = none) :
    s.solve table = (Run.ofSource s.config a).outcome := by
  rw [solve, ha, answerValidated, answer, hlimit]

/-- A run that ends in a complete matching is answered with its solution. -/
theorem solve_eq_ok_of_complete (s : Solver) {table : RawTable K} {a : CostMatrix K}
    (ha : CostMatrix.ofRows table = .ok a) (hlimit : s.exceededLimit? a = none) {μ : Matching}
    (h : (Run.ofSource s.config a).descent.ending = .complete μ) :
    s.solve table = .ok ((Run.ofSource s.config a).solutionOf μ) := by
  rw [s.solve_of_ofRows ha hlimit]
  exact Run.outcome_eq_ok_iff.mpr ⟨μ, h, rfl⟩

/-- Within the limit, a run that ends in a complete matching is answered with its solution. -/
theorem solveMatrix_eq_ok_of_complete (s : Solver) {a : CostMatrix K}
    (hlimit : s.exceededLimit? a = none) {μ : Matching}
    (h : (Run.ofSource s.config a).descent.ending = .complete μ) :
    s.solveMatrix a = .ok ((Run.ofSource s.config a).solutionOf μ) := by
  rw [solveMatrix, answer, hlimit]
  exact Run.outcome_eq_ok_iff.mpr ⟨μ, h, rfl⟩

/-- **A solution comes from a complete matching found on an accepted matrix.** -/
theorem answerValidated_eq_ok_iff (s : Solver) {input : Except (Failure K) (CostMatrix K)}
    {sol : Solution K} :
    (s.answerValidated input).outcome = .ok sol ↔
      ∃ a μ, input = .ok a ∧ s.exceededLimit? a = none ∧
        (Run.ofSource s.config a).descent.ending = .complete μ ∧
        sol = (Run.ofSource s.config a).solutionOf μ := by
  cases input with
  | error failure => simp [answerValidated]
  | ok a =>
    simp only [answerValidated, answer, Except.ok.injEq, exists_and_left, exists_eq_left']
    cases s.exceededLimit? a with
    | some limit => simp
    | none => simpa using Run.outcome_eq_ok_iff

end Solver

end LinearAssignment
