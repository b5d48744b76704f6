import LinearAssignment.Proofs.Runs

/-! # The adjustment loop never fails and is short

    Over scalars that are exact near zero the four ways in which the loop could give up are
    all dead.  Every working matrix is reduced, so the lines read off its maximum matching
    are as many as the pairs, some cell is on no line while the matching is incomplete, and
    the smallest such cell is positive.  The rank bounds the rounds well below the budget. -/

namespace LinearAssignment

variable {K : Type} [Scalar K] [Scalar.ExactNearZero K]

/-- In a reduced square matrix whose maximum matching is incomplete there is a cell on no
    line, and the smallest of them is found, positive and finite. -/
theorem Grid.IsReduced.exists_adjustment {g : Grid K} (hg : g.IsReduced) {n : Nat}
    (hrows : g.nrows = n) (hcols : g.ncols = n) {μ : Matching}
    (hμ : g.zeroPattern.IsMaximum μ) (hinc : μ.isComplete = false) :
    (∃ i j, i < n ∧ j < n ∧ (g.zeroPattern.cover μ).isUncovered i j = true) ∧
      ∃ d, g.minUncovered (g.zeroPattern.cover μ) = .ok d ∧ 0 < d ∧
        Scalar.isFinite d = true := by
  have hsq : g.nrows = g.ncols := hrows.trans hcols.symm
  constructor
  · obtain ⟨i, j, hunc⟩ := Grid.exists_isUncovered hsq hμ hinc
    have hbounds := ZeroPattern.isUncovered_cover_iff.mp hunc
    refine ⟨i, j, ?_, ?_, hunc⟩
    · simpa [hrows] using hbounds.1
    · simpa [hcols] using hbounds.2.1
  · obtain ⟨d, hd⟩ := Grid.exists_minUncovered_cover hg.nonneg hsq hμ hinc
    exact ⟨d, hd, (Grid.minUncovered_eq_ok_iff.mp hd).2⟩

/-- **The adjustment loop never fails and is short.**  On every accepted matrix within the
    limit, of any shape and for either objective: the lines are always as many as the pairs;
    while the matching is incomplete a cell on no line exists, and the smallest such cell is
    positive and finite; the loop ends, within its budget, in the matching of its last working
    matrix, which is complete and has the size of the balanced one; and the solver answers with
    the solution that this matching stands for, after at most `n * (n - 1) / 2` adjustments,
    where `n` is the larger dimension. -/
theorem solve_adjustments_le (s : Solver) {table : RawTable K} {a : CostMatrix K}
    (ha : CostMatrix.ofRows table = .ok a) (hlimit : s.exceededLimit? a = none) :
    let run := Run.ofSource s.config a
    let n := a.dimension
    (∀ w ∈ run.working,
      let μ := w.zeroPattern.maximumMatching
      let lines := w.zeroPattern.cover μ
      lines.size = μ.size ∧
        (μ.isComplete = false →
          (∃ i j, i < n ∧ j < n ∧ lines.isUncovered i j = true) ∧
            ∃ d, w.minUncovered lines = .ok d ∧ 0 < d ∧ Scalar.isFinite d = true)) ∧
    (∃ w μ, run.working.getLast? = some w ∧ w.nrows = n ∧ w.ncols = n ∧
      μ = w.zeroPattern.maximumMatching ∧ run.descent.ending = .complete μ ∧
      μ.isComplete = true ∧ s.solve table = .ok (run.solutionOf μ)) ∧
    run.descent.rounds.length < roundBudget n ∧
    (∃ sol, s.solve table = .ok sol ∧ sol.adjustments = run.descent.rounds.length ∧
      sol.adjustments ≤ n * (n - 1) / 2) ∧
    ∀ defect, s.solve table ≠ .error (.invariantViolated defect) := by
  intro run n
  obtain ⟨μ, hending⟩ := Run.exists_complete s.config a
  have hlen : run.descent.rounds.length ≤ n * (n - 1) / 2 := Run.length_rounds_le s.config a
  have hsolve : s.solve table = .ok (run.solutionOf μ) :=
    s.solve_eq_ok_of_complete ha hlimit hending
  refine ⟨?_, ?_, ?_, ?_, ?_⟩
  · -- Every working matrix is reduced and square, and its matching is maximum.
    intro w hw
    have hmax := w.zeroPattern.maximumMatching_isMaximum
    obtain ⟨hrows, hcols⟩ := Run.shape_of_mem_working s.config a hw
    refine ⟨hmax.size_cover, fun hinc => ?_⟩
    exact (Run.isReduced_of_mem_working s.config a hw).exists_adjustment hrows hcols hmax hinc
  · obtain ⟨w, hrounds, hrows, hcols, hμ, hcomplete⟩ := Run.exists_last s.config a hending
    have hlast : run.working.getLast? = some w := hrounds.getLast?_matrices
    exact ⟨w, μ, hlast, hrows, hcols, hμ, hending, hcomplete, hsolve⟩
  · show run.descent.rounds.length < roundBudget n
    have hbudget := choose_two_lt_roundBudget n
    rw [Nat.choose_two_right] at hbudget
    omega
  · have hadj : (run.solutionOf μ).adjustments = run.descent.rounds.length :=
      run.adjustments_solutionOf μ
    exact ⟨run.solutionOf μ, hsolve, hadj, hadj ▸ hlen⟩
  · intro defect h
    rw [hsolve] at h
    cases h

/-- Four rows and three columns of products, to be maximized at the limit: the loop has to
    adjust, and it stops in time. -/
theorem solve_adjustments_le_products :
    let s : Solver := ⟨⟨.maximize, some 4, true⟩, rfl⟩
    let table : RawTable Rat := [[1, 2, 3], [2, 4, 6], [3, 6, 9], [4, 8, 12]]
    ∃ a : CostMatrix Rat, CostMatrix.ofRows table = .ok a ∧ s.exceededLimit? a = none ∧
      (∃ w μ, (Run.ofSource s.config a).working.getLast? = some w ∧ w.nrows = 4 ∧
        μ = w.zeroPattern.maximumMatching ∧
        (Run.ofSource s.config a).descent.ending = .complete μ ∧ μ.isComplete = true) ∧
      ∃ sol, s.solve table = .ok sol ∧ sol.adjustments ≤ 6 := by
  intro s table
  let g : Grid Rat := ⟨3, table, by decide⟩
  obtain ⟨a, ha, hga⟩ := CostMatrix.exists_ofRows (g := g) (by decide) (by decide)
  have hdim : a.dimension = 4 := by rw [hga]; rfl
  have hlimit : s.exceededLimit? a = none := by
    unfold Solver.exceededLimit?
    rw [hdim]
    rfl
  have hrun := solve_adjustments_le s ha hlimit
  rw [hdim] at hrun
  obtain ⟨_, ⟨w, μ, hlast, hrows, _, hμ, hending, hcomplete, _⟩, _, ⟨sol, hsol, _, hle⟩, _⟩ := hrun
  exact ⟨a, ha, hlimit, ⟨w, μ, hlast, hrows, hμ, hending, hcomplete⟩, sol, hsol, hle⟩

end LinearAssignment
