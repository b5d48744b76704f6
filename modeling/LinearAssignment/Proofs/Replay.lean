import LinearAssignment.Proofs.Runs

/-! # Traces can be replayed

    A trace holds snapshots and nothing else of the run that left them.  Each snapshot is
    nevertheless what the next stage makes of the one before, from the source on, so whoever
    has a trace can replay it and check every step.  Nothing here depends on the arithmetic
    of the scalars.

    * `Stage.snapshots`: the snapshots that stages leave, each made from the one before.
    * `Adjustments`: the snapshots of the loop, each adjusted from the one before.
    * `Solution.IsLogged`: a trace that starts with the source, goes through the stages and
      the adjustments and ends in the assignment.
    * `Run.isLogged_solutionOf`: the trace of a run that ends in a complete matching.
    * `isLogged_of_eq_ok`: the trace of every answer. -/

namespace LinearAssignment

/-! ## Stages before the loop -/

/-- A stage before the loop: how the trace calls it, and what it makes of a working matrix. -/
structure Stage (K : Type) where
  label : String
  apply : Grid K → Grid K

namespace Stage

section Replay

variable {K : Type}

/-- The working matrix that stages lead to. -/
def result (g : Grid K) : List (Stage K) → Grid K
  | [] => g
  | stage :: stages => result (stage.apply g) stages

/-- One snapshot for each stage, made from the snapshot before. -/
def snapshots (g : Grid K) : List (Stage K) → Trace K
  | [] => []
  | stage :: stages =>
    .ofGrid stage.label (stage.apply g) :: snapshots (stage.apply g) stages

theorem result_append (g : Grid K) (stages more : List (Stage K)) :
    result g (stages ++ more) = result (result g stages) more := by
  induction stages generalizing g with
  | nil => rfl
  | cons stage stages ih => exact ih (stage.apply g)

theorem snapshots_append (g : Grid K) (stages more : List (Stage K)) :
    snapshots g (stages ++ more) = snapshots g stages ++ snapshots (result g stages) more := by
  induction stages generalizing g with
  | nil => rfl
  | cons stage stages ih => exact congrArg _ (ih (stage.apply g))

@[simp] theorem length_snapshots (g : Grid K) (stages : List (Stage K)) :
    (snapshots g stages).length = stages.length := by
  induction stages generalizing g with
  | nil => rfl
  | cons stage stages ih => simp [snapshots, ih]

/-- The last snapshot of the stages shows what they lead to. -/
theorem getLast?_snapshots (label : String) (g : Grid K) (stages : List (Stage K)) :
    (Step.ofGrid label g :: snapshots g stages).getLast?.map (·.matrix) =
      some (result g stages).rows := by
  induction stages generalizing label g with
  | nil => rfl
  | cons stage stages ih =>
    rw [snapshots, List.getLast?_cons_cons]
    exact ih stage.label (stage.apply g)

end Replay

variable {K : Type} [Scalar K]

/-- Conversion to costs, which only maximizing asks for. -/
def conversion (o : Objective) : List (Stage K) :=
  if o.isMaximize then [⟨"Convert maximization to minimization", Grid.complement⟩] else []

/-- How squaring an `m` by `n` table is announced. -/
def paddingLabel (m n : Nat) : String :=
  if m < n then Padding.countLabel (n - m) "row" else Padding.countLabel (m - n) "column"

/-- Squaring, which an `m` by `n` table needs only when it is not square. -/
def squaring (m n : Nat) : List (Stage K) :=
  if m = n then [] else [⟨paddingLabel m n, Grid.balanced⟩]

/-- All stages of an `m` by `n` table before the loop. -/
def preparation (o : Objective) (m n : Nat) : List (Stage K) :=
  conversion o ++ squaring m n
    ++ [⟨"Row reduction", Grid.reduceRows⟩, ⟨"Column reduction", Grid.reduceColumns⟩]

theorem length_preparation (o : Objective) (m n : Nat) :
    (preparation (K := K) o m n).length =
      (if o.isMaximize then 1 else 0) + (if m = n then 0 else 1) + 2 := by
  unfold preparation conversion squaring
  by_cases hmax : o.isMaximize = true <;> by_cases hmn : m = n <;> simp [hmax, hmn]

theorem result_conversion (o : Objective) (g : Grid K) : result g (conversion o) = o.costs g := by
  cases o <;> rfl

theorem result_squaring (g : Grid K) : result g (squaring g.nrows g.ncols) = g.balanced := by
  unfold squaring
  by_cases hmn : g.nrows = g.ncols
  · -- Squaring leaves a square table alone, so leaving the stage out changes nothing.
    rw [if_pos hmn, Grid.balanced, Grid.isSquare, if_pos (beq_iff_eq.mpr hmn)]
    rfl
  · rw [if_neg hmn]
    rfl

theorem snapshots_conversion (o : Objective) (g : Grid K) :
    snapshots g (conversion o) =
      if o.isMaximize then [.ofGrid "Convert maximization to minimization" (o.costs g)]
      else [] := by
  cases o <;> rfl

/-- Squaring is announced by what the padding is called. -/
theorem snapshots_squaring (g : Grid K) :
    snapshots g (squaring g.nrows g.ncols) =
      (g.padding.label?.map fun label => .ofGrid label g.balanced).toList := by
  unfold squaring Grid.padding Padding.label? Padding.ofShape
  rcases Nat.lt_trichotomy g.nrows g.ncols with hlt | heq | hgt
  · have hne : g.nrows ≠ g.ncols := by omega
    have hpos : 0 < max g.nrows g.ncols - g.nrows := by omega
    have hcount : max g.nrows g.ncols - g.nrows = g.ncols - g.nrows := by omega
    rw [if_neg hne, if_pos hpos, paddingLabel, if_pos hlt, hcount]
    rfl
  · simp [heq, snapshots]
  · have hne : g.nrows ≠ g.ncols := by omega
    have hnlt : ¬ g.nrows < g.ncols := by omega
    have hzero : ¬ 0 < max g.nrows g.ncols - g.nrows := by omega
    have hpos : 0 < max g.nrows g.ncols - g.ncols := by omega
    have hcount : max g.nrows g.ncols - g.ncols = g.nrows - g.ncols := by omega
    rw [if_neg hne, if_neg hzero, if_pos hpos, paddingLabel, if_neg hnlt, hcount]
    rfl

end Stage

variable {K : Type} [Scalar K]

/-! ## Adjustments -/

/-- The snapshots of the loop from one working matrix to the last.  Each time the largest
    matching of the matrix before is incomplete, that matrix is adjusted to the cover read
    off this matching, and the label tells the value that the adjustment returned. -/
inductive Adjustments : Grid K → Trace K → Grid K → Prop where
  | nil (g : Grid K) : Adjustments g [] g
  | cons {g g' last : Grid K} {d : K} {log : Trace K} :
      g.zeroPattern.maximumMatching.isComplete = false →
      g.adjust (g.zeroPattern.cover g.zeroPattern.maximumMatching) = .ok (d, g') →
      Adjustments g' log last →
      Adjustments g (.ofGrid s!"Adjust matrix (min uncovered: {Scalar.text d})" g' :: log) last

/-- A round is an adjustment to the cover read off the largest matching. -/
theorem Grid.IsRound.adjust_eq {g : Grid K} {r : Round K} (hr : g.IsRound r) :
    g.adjust (g.zeroPattern.cover g.zeroPattern.maximumMatching) = .ok (r.value, r.matrix) := by
  rw [← hr.matching, ← hr.lines]
  exact (Grid.adjust_eq_ok_iff ..).mpr ⟨hr.value, hr.matrix⟩

/-- The snapshots of a chain of rounds are a log of adjustments. -/
theorem Rounds.adjustments {g last : Grid K} {rs : List (Round K)} (h : Rounds g rs last)
    (ending : Ending K) : Adjustments g (Descent.steps ⟨rs, ending⟩) last := by
  induction h with
  | nil g => exact .nil g
  | cons hr _ ih => exact .cons (hr.matching ▸ hr.incomplete) hr.adjust_eq ih

/-- The last snapshot of a log shows the last working matrix. -/
theorem Adjustments.getLast? {g last : Grid K} {log : Trace K} (h : Adjustments g log last)
    {t : Trace K} (ht : t.getLast?.map (·.matrix) = some g.rows) :
    (t ++ log).getLast?.map (·.matrix) = some last.rows := by
  induction h generalizing t with
  | nil g => rwa [List.append_nil]
  | cons _ _ _ ih =>
    rw [List.append_cons]
    exact ih (by simp [Step.ofGrid])

/-! ## Whole traces -/

/-- The trace of the solution is a log of its run that ends in this working matrix.  It starts
    with the source; every further snapshot is what the next stage makes of the one before;
    after the reductions come as many adjustments as were counted; and the largest matching
    of the last snapshot is complete, with the pairs of the solution inside the source. -/
structure Solution.IsLogged (sol : Solution K) (log : Trace K) (last : Grid K) : Prop where
  trace_eq : sol.trace = .ofGrid "Input matrix" sol.source.toGrid ::
    Stage.snapshots sol.source.toGrid
      (Stage.preparation sol.objective sol.source.nrows sol.source.ncols) ++ log
  /-- Conversion takes every value from the largest one. -/
  complement_eq : ∃ top, sol.source.greatest? = some top ∧
    sol.source.complement = sol.source.map (top - ·)
  adjustments : Adjustments
    (Stage.result sol.source.toGrid
      (Stage.preparation sol.objective sol.source.nrows sol.source.ncols)) log last
  length_log : log.length = sol.adjustments
  last_shown : sol.trace.getLast?.map (·.matrix) = some last.rows
  complete : last.zeroPattern.maximumMatching.isComplete = true
  assignment_eq : sol.assignment =
    (last.zeroPattern.maximumMatching.pairs.filter fun (i, j) =>
      i < sol.source.nrows && j < sol.source.ncols).map fun (i, j) => ⟨i, j⟩
  length_trace : sol.trace.length = 3 + (if sol.objective.isMaximize then 1 else 0)
    + (if sol.source.nrows = sol.source.ncols then 0 else 1) + sol.adjustments

/-- An accepted matrix has a largest value: without one its range would have no bounds. -/
theorem CostMatrix.exists_complement_eq (a : CostMatrix K) :
    ∃ top, a.greatest? = some top ∧ a.complement = a.map (top - ·) := by
  have hrange := a.in_range
  unfold Scalar.rangeFault? Scalar.extremes? at hrange
  cases htop : Scalar.greatest? a.rows.flatten with
  | none =>
    rw [htop] at hrange
    cases hleast : Scalar.least? a.rows.flatten <;> simp [hleast] at hrange
  | some top =>
    have hgreatest : a.greatest? = some top := htop
    refine ⟨top, hgreatest, ?_⟩
    rw [Grid.complement, hgreatest]

namespace Run

variable (c : Config) (a : CostMatrix K)

/-- The stages lead to the matrix on which the loop starts. -/
theorem result_preparation :
    Stage.result a.toGrid (Stage.preparation c.objective a.nrows a.ncols) =
      (ofSource c a).reduced := by
  have hrows : a.nrows = (c.objective.costs a.toGrid).nrows := (nrows_costs ..).symm
  have hcols : a.ncols = (c.objective.costs a.toGrid).ncols := (ncols_costs ..).symm
  rw [Stage.preparation, Stage.result_append, Stage.result_append, Stage.result_conversion,
    hrows, hcols, Stage.result_squaring]
  rfl

/-- The snapshots of a run are those of the stages and those of the loop. -/
theorem steps_eq :
    (ofSource c a).steps = .ofGrid "Input matrix" a.toGrid ::
      Stage.snapshots a.toGrid (Stage.preparation c.objective a.nrows a.ncols)
        ++ (ofSource c a).descent.steps := by
  have hrows : a.nrows = (c.objective.costs a.toGrid).nrows := (nrows_costs ..).symm
  have hcols : a.ncols = (c.objective.costs a.toGrid).ncols := (ncols_costs ..).symm
  have hpadding : (ofSource c a).padding = (c.objective.costs a.toGrid).padding := by
    show Padding.ofShape a.nrows a.ncols = _
    rw [hrows, hcols]
    rfl
  rw [Stage.preparation, Stage.snapshots_append, Stage.snapshots_append, Stage.result_append,
    Stage.result_conversion, Stage.snapshots_conversion, hrows, hcols, Stage.result_squaring,
    Stage.snapshots_squaring, steps, hpadding]
  simp only [List.append_assoc, List.cons_append, List.nil_append]
  rfl

/-- **The trace of a run that ends in a complete matching is a log of the run.** -/
theorem isLogged_solutionOf (hrecord : c.recordTrace = true) {μ : Matching}
    (h : (ofSource c a).descent.ending = .complete μ) :
    ∃ last, ((ofSource c a).solutionOf μ).IsLogged (ofSource c a).descent.steps last := by
  obtain ⟨last, hrounds, _, _, rfl, hcomplete⟩ := exists_last c a h
  have htrace : (ofSource c a).trace = (ofSource c a).steps := if_pos hrecord
  have hadj : Adjustments (ofSource c a).reduced (ofSource c a).descent.steps last :=
    hrounds.adjustments _
  have hlength : (ofSource c a).descent.steps.length = (ofSource c a).descent.rounds.length :=
    List.length_map _
  refine ⟨last, ?_, a.exists_complement_eq, ?_, hlength, ?_, hcomplete, rfl, ?_⟩
  · exact htrace.trans (steps_eq c a)
  · exact (result_preparation c a).symm ▸ hadj
  · show (ofSource c a).trace.getLast?.map (·.matrix) = some last.rows
    rw [htrace, steps_eq]
    refine hadj.getLast? ?_
    rw [Stage.getLast?_snapshots, result_preparation]
  · show (ofSource c a).trace.length = _
    rw [htrace, steps_eq, List.length_append, List.length_cons, Stage.length_snapshots,
      Stage.length_preparation, hlength]
    show _ = 3 + (if c.objective.isMaximize then 1 else 0)
      + (if a.nrows = a.ncols then 0 else 1) + (ofSource c a).descent.rounds.length
    omega

end Run

/-! ## Every answer -/

/-- What a solver that records the trace answers is logged, however its input was validated. -/
theorem Solver.isLogged_of_answerValidated (s : Solver) (hrecord : s.config.recordTrace = true)
    {input : Except (Failure K) (CostMatrix K)} {sol : Solution K}
    (h : (s.answerValidated input).outcome = .ok sol) :
    input = .ok sol.source ∧ sol.objective = s.config.objective ∧
      ∃ log last, sol.IsLogged log last := by
  obtain ⟨a, μ, rfl, _, hending, rfl⟩ := s.answerValidated_eq_ok_iff.mp h
  obtain ⟨last, hlogged⟩ := Run.isLogged_solutionOf s.config a hrecord hending
  exact ⟨rfl, rfl, _, last, hlogged⟩

/-- **The trace of every answer is a faithful log.**  Whatever the input and the scalars, when
    a solver that records the trace answers, the trace starts with what was answered, and it
    can be replayed from there to the assignment. -/
theorem isLogged_of_eq_ok (s : Solver) (hrecord : s.config.recordTrace = true) :
    (∀ (K : Type) [Scalar K] (a : CostMatrix K) (sol : Solution K),
      s.solveMatrix a = .ok sol →
        sol.source = a ∧ sol.objective = s.config.objective ∧
          ∃ log last, sol.IsLogged log last) ∧
    (∀ (K : Type) [Scalar K] (table : RawTable K) (sol : Solution K),
      s.solve table = .ok sol →
        sol.source.rows = table ∧ sol.objective = s.config.objective ∧
          ∃ log last, sol.IsLogged log last) ∧
    ∀ (j : Json) (sol : Solution Float), s.solveJson j = .ok sol →
      j.readTable = .ok sol.source.rows ∧ sol.objective = s.config.objective ∧
        ∃ log last, sol.IsLogged log last := by
  refine ⟨?_, ?_, ?_⟩
  · intro K _ a sol hsol
    have hsol : (s.answerValidated (.ok a)).outcome = .ok sol := hsol
    obtain ⟨hinput, hlogged⟩ := s.isLogged_of_answerValidated hrecord hsol
    exact ⟨(Except.ok.inj hinput).symm, hlogged⟩
  · intro K _ table sol hsol
    obtain ⟨hinput, hlogged⟩ := s.isLogged_of_answerValidated hrecord hsol
    exact ⟨CostMatrix.rows_of_ofRows hinput, hlogged⟩
  · intro j sol hsol
    obtain ⟨hinput, hlogged⟩ := s.isLogged_of_answerValidated hrecord hsol
    refine ⟨?_, hlogged⟩
    unfold CostMatrix.ofJson at hinput
    cases hread : j.readTable with
    | error failure =>
      rw [hread] at hinput
      cases hinput
    | ok table =>
      rw [hread] at hinput
      rw [CostMatrix.rows_of_ofRows hinput]

/-- Products to be maximized with a column too few, so that every kind of stage is taken and
    the loop has to adjust, and a small square table of untyped cells. -/
theorem isLogged_products :
    let s : Solver := ⟨⟨.maximize, none, true⟩, rfl⟩
    let table : RawTable Rat := [[1, 2, 3], [2, 4, 6], [3, 6, 9], [4, 8, 12]]
    let j : Json := .arr [.arr [.int 2, .str " 7"], .arr [.float 2, .int 5]]
    s.config.recordTrace = true ∧
      (∃ a sol, s.solveMatrix a = .ok sol ∧ sol.source = a ∧ s.solve table = .ok sol ∧
        sol.source.rows = table ∧ ∃ log last, sol.IsLogged log last) ∧
      ∃ sol, s.solveJson j = .ok sol ∧ j.readTable = .ok sol.source.rows ∧
        ∃ log last, sol.IsLogged log last := by
  intro s table j
  obtain ⟨hmatrix, htable, hjson⟩ := isLogged_of_eq_ok s rfl
  refine ⟨rfl, ?_, ?_⟩
  · let g : Grid Rat := ⟨3, table, by decide⟩
    obtain ⟨a, ha, _⟩ := CostMatrix.exists_ofRows (g := g) (by decide) (by decide)
    obtain ⟨μ, hending⟩ := Run.exists_complete s.config a
    have hsol := s.solve_eq_ok_of_complete ha rfl hending
    have hsol' := s.solveMatrix_eq_ok_of_complete rfl hending
    obtain ⟨hrows, _, hlogged⟩ := htable Rat table _ hsol
    exact ⟨a, _, hsol', (hmatrix Rat a _ hsol').1, hsol, hrows, hlogged⟩
  · have hj : (s.solveJson j).toOption.isSome = true := by decide +kernel
    cases hsol : s.solveJson j with
    | error failure =>
      rw [hsol] at hj
      cases hj
    | ok sol =>
      obtain ⟨hread, _, hlogged⟩ := hjson j sol hsol
      exact ⟨sol, rfl, hread, hlogged⟩

end LinearAssignment
