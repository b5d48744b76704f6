import LinearAssignment.Proofs.Runs

/-! # What lasts over the rounds of a run

    Every round seeks its matching anew, but a round destroys no pair: the maximum matching
    of one working matrix is a matching of zeros of the next.  So matchings do not shrink, and
    growing each one from the last gives maximum matchings whose paired lines only increase in
    number.  The lines do not depend on the matching that they are read off, so a row and a
    column that this sequence leaves unpaired to the end are spared by all lines.

    * `Grid.IsRound.matches_next`: what is maximum before a round is a matching after it.
    * `Rounds.sizes_pairwise`: the sizes of the matchings ascend.
    * `Rounds.exists_spared`: a cell that is on no line in any round.
    * `working_isReduced`: the invariant of the working matrix of a whole run. -/

namespace LinearAssignment

/-! ## Free columns -/

namespace ZeroPattern

variable {p : ZeroPattern} {μ : Matching}

/-- With fewer pairs than columns some column is free. -/
theorem Matches.exists_free_col (hμ : p.Matches μ) (h : μ.size < p.ncols) :
    ∃ j < p.ncols, μ.row? j = none := by
  by_contra hall
  push Not at hall
  have hsub : Finset.range p.ncols ⊆ μ.pairedCols := by
    intro j hj
    exact Matching.mem_pairedCols.mpr
      (Option.ne_none_iff_exists'.mp (hall j (Finset.mem_range.mp hj)))
  have hcard := Finset.card_le_card hsub
  rw [Finset.card_range, hμ.consistent.card_pairedCols] at hcard
  omega

/-- An incomplete matching of a square pattern leaves a row and a column. -/
theorem Matches.exists_free_cell (hμ : p.Matches μ) (hsq : p.nrows = p.ncols)
    (hinc : μ.isComplete = false) :
    ∃ i j, i < p.nrows ∧ j < p.ncols ∧ μ.col? i = none ∧ μ.row? j = none := by
  obtain ⟨i, hi, hrow⟩ := hμ.exists_unpaired hinc
  obtain ⟨j, hj, hcol⟩ := hμ.exists_free_col (hsq ▸ hμ.size_lt hinc)
  exact ⟨i, j, hi, hj, hrow, hcol⟩

/-- Maximum matchings are complete together. -/
theorem IsMaximum.isComplete_eq {ν : Matching} (hμ : p.IsMaximum μ) (hν : p.IsMaximum ν) :
    μ.isComplete = ν.isComplete := by
  have hsize : μ.size = ν.size :=
    Nat.le_antisymm (hν.size_le hμ.toMatches) (hμ.size_le hν.toMatches)
  rw [Bool.eq_iff_iff, μ.isComplete_iff_size, ν.isComplete_iff_size, hsize, hμ.nrows_eq,
    hν.nrows_eq]

/-- An unpaired row and a free column of a maximum matching meet on no line. -/
theorem IsMaximum.isUncovered (hμ : p.IsMaximum μ) {i j : Nat} (hi : i < p.nrows)
    (hj : j < p.ncols) (hrow : μ.col? i = none) (hcol : μ.row? j = none) :
    (p.cover μ).isUncovered i j = true := by
  refine isUncovered_cover_iff.mpr ⟨hi, hj, .root (mem_unpairedRows.mpr ⟨hi, hrow⟩), ?_⟩
  intro hmarked
  obtain ⟨r, hr⟩ := hμ.exists_row hmarked
  rw [hcol] at hr
  cases hr

/-- What is unpaired in a grown matching was unpaired before. -/
theorem Grows.col?_eq_none {ν : Matching} (h : p.Grows μ ν) {i : Nat} (hi : ν.col? i = none) :
    μ.col? i = none := by
  by_contra hne
  obtain ⟨j, hj⟩ := Matching.mem_pairedRows.mp
    (h.rows (Matching.mem_pairedRows.mpr (Option.ne_none_iff_exists'.mp hne)))
  rw [hi] at hj
  cases hj

theorem Grows.row?_eq_none {ν : Matching} (h : p.Grows μ ν) {j : Nat} (hj : ν.row? j = none) :
    μ.row? j = none := by
  by_contra hne
  obtain ⟨i, hi⟩ := Matching.mem_pairedCols.mp
    (h.cols (Matching.mem_pairedCols.mpr (Option.ne_none_iff_exists'.mp hne)))
  rw [hj] at hi
  cases hi

end ZeroPattern

variable {K : Type} [Scalar K]

/-! ## From one round to the next -/

/-- The lines of a round can be read off any maximum matching. -/
theorem Grid.IsRound.lines_eq {g : Grid K} {r : Round K} (hr : g.IsRound r) {ν : Matching}
    (hν : g.zeroPattern.IsMaximum ν) : r.lines = g.zeroPattern.cover ν :=
  hr.lines.trans (hr.isMaximum.cover_eq hν)

/-- **A maximum matching before a round is a matching of zeros after it.** -/
theorem Grid.IsRound.matches_next {g : Grid K} {r : Round K} (hr : g.IsRound r) {ν : Matching}
    (hν : g.zeroPattern.IsMaximum ν) : r.matrix.zeroPattern.Matches ν := by
  rw [hr.matrix, hr.lines_eq hν]
  exact Grid.matches_adjustBy hν.toMatches

theorem Grid.IsRound.shape {g : Grid K} {r : Round K} (hr : g.IsRound r) :
    r.matrix.nrows = g.nrows ∧ r.matrix.ncols = g.ncols := by
  rw [hr.matrix]
  exact ⟨Grid.nrows_adjustBy .., Grid.ncols_adjustBy ..⟩

/-- The largest matching does not shrink at a round. -/
theorem Grid.IsRound.size_le {g : Grid K} {r : Round K} (hr : g.IsRound r) :
    r.matching.size ≤ r.matrix.zeroPattern.maximumMatching.size :=
  (ZeroPattern.maximumMatching_isMaximum _).size_le (hr.matches_next hr.isMaximum)

/-- **The largest matchings of the working matrices of a chain ascend in size.** -/
theorem Rounds.sizes_pairwise {g last : Grid K} {rs : List (Round K)}
    (hrs : Rounds g rs last) :
    ((g :: rs.map (·.matrix)).map fun w => w.zeroPattern.maximumMatching.size).Pairwise
      (· ≤ ·) := by
  induction hrs with
  | nil g => simp
  | @cons g last r rs hr _ ih =>
    have hle : g.zeroPattern.maximumMatching.size ≤ r.matrix.zeroPattern.maximumMatching.size :=
      hr.matching ▸ hr.size_le
    refine List.pairwise_cons.mpr ⟨?_, ih⟩
    -- The next matrix has the smallest of the later sizes.
    intro k hk
    rcases List.mem_cons.mp hk with rfl | hk
    · exact hle
    · exact hle.trans ((List.pairwise_cons.mp ih).1 k hk)

/-- Each round found the largest matching of the working matrix of its place. -/
theorem Rounds.matchings_eq {g last : Grid K} {rs : List (Round K)} (hrs : Rounds g rs last) :
    rs.map (·.matching) ++ [last.zeroPattern.maximumMatching] =
      (g :: rs.map (·.matrix)).map (·.zeroPattern.maximumMatching) := by
  induction hrs with
  | nil g => rfl
  | cons hr _ ih =>
    rw [List.map_cons, List.cons_append, ih, hr.matching]
    rfl

/-- **Some cell is on no line in any round.**  Given a maximum matching of the first matrix
    it can be chosen in a row and a column that this matching leaves unpaired. -/
theorem Rounds.exists_spared {g last : Grid K} {rs : List (Round K)} (hrs : Rounds g rs last)
    (hsq : g.nrows = g.ncols) (hne : rs ≠ []) {ν : Matching}
    (hν : g.zeroPattern.IsMaximum ν) :
    ∃ i j, i < g.nrows ∧ j < g.ncols ∧ ν.col? i = none ∧ ν.row? j = none ∧
      ∀ r ∈ rs, r.lines.isUncovered i j = true := by
  induction hrs generalizing ν with
  | nil g => exact absurd rfl hne
  | @cons g last r rs hr _ ih =>
    -- Once the rest of the chain spares a cell, so does this round, for its lines can be read
    -- off the given matching.
    obtain ⟨i, j, hi, hj, hrow, hcol, hrest⟩ : ∃ i j, i < g.nrows ∧ j < g.ncols ∧
        ν.col? i = none ∧ ν.row? j = none ∧ ∀ r ∈ rs, r.lines.isUncovered i j = true := by
      by_cases hlast : rs = []
      · -- The last matching that is incomplete leaves a row and a column.
        obtain ⟨i, j, hi, hj, hrow, hcol⟩ :=
          hν.exists_free_cell (by simpa using hsq) (hr.isMaximum.isComplete_eq hν ▸ hr.incomplete)
        exact ⟨i, j, by simpa using hi, by simpa using hj, hrow, hcol, by simp [hlast]⟩
      · -- Grow the matching on the next matrix and choose a cell for what it has become.
        have hmatches := hr.matches_next hν
        have hshape := hr.shape
        obtain ⟨i, j, hi, hj, hrow, hcol, hrest⟩ :=
          ih (by omega) hlast (ZeroPattern.augment_isMaximum hmatches)
        have hgrows := ZeroPattern.augment_grows hmatches.toFits
        exact ⟨i, j, by omega, by omega, hgrows.col?_eq_none hrow, hgrows.row?_eq_none hcol,
          hrest⟩
    refine ⟨i, j, hi, hj, hrow, hcol, ?_⟩
    intro r' hr'
    rcases List.mem_cons.mp hr' with rfl | hr'
    · rw [hr.lines_eq hν]
      exact hν.isUncovered (by simpa using hi) (by simpa using hj) hrow hcol
    · exact hrest r' hr'

/-! ## The invariant of a whole run -/

/-- The matching of the last iteration, unless the budget ended the descent. -/
def Ending.matching? : Ending K → Option Matching
  | .complete μ => some μ
  | .stuck μ _ _ => some μ
  | .exhausted => none

/-- The matchings found in the iterations of a descent: one before each round, and the last. -/
def Descent.matchings (d : Descent K) : List Matching :=
  d.rounds.map (·.matching) ++ d.ending.matching?.toList

/-- **Every working matrix of a run is reduced, and matchings never shrink.**  From column
    reduction on and after every adjustment, for every accepted matrix within the limit and
    either objective: the working matrix is square, of the larger dimension; no cell of it is
    negative; every row and every column of it has a zero.  One matching is found before each
    adjustment and one at the end, and their sizes never decrease. -/
theorem working_isReduced [Scalar.ExactNearZero K] (s : Solver) (a : CostMatrix K)
    (hlimit : s.exceededLimit? a = none) :
    let run := Run.ofSource s.config a
    (∀ w ∈ run.working, w.nrows = a.dimension ∧ w.ncols = a.dimension ∧ w.IsReduced) ∧
    ∃ sol, s.solveMatrix a = .ok sol ∧
      run.working.length = sol.adjustments + 1 ∧
      run.descent.matchings = run.working.map (·.zeroPattern.maximumMatching) ∧
      (run.descent.matchings.map Matching.size).Pairwise (· ≤ ·) := by
  intro run
  obtain ⟨μ, hending⟩ := Run.exists_complete s.config a
  obtain ⟨last, hrounds, _, _, hμ, _⟩ := Run.exists_last s.config a hending
  have hmatchings : run.descent.matchings =
      run.working.map (·.zeroPattern.maximumMatching) := by
    rw [Descent.matchings, show run.descent.ending = .complete μ from hending, hμ]
    exact hrounds.matchings_eq
  refine ⟨?_, run.solutionOf μ, ?_, ?_, hmatchings, ?_⟩
  · intro w hw
    obtain ⟨hrows, hcols⟩ := Run.shape_of_mem_working s.config a hw
    exact ⟨hrows, hcols, Run.isReduced_of_mem_working s.config a hw⟩
  · exact s.solveMatrix_eq_ok_of_complete hlimit hending
  · simp [Run.working, Descent.matrices]
  · rw [hmatchings, List.map_map]
    exact hrounds.sizes_pairwise

/-- Three workers with products for costs and one task too few: a column of zeros is added
    and the loop has to adjust. -/
theorem working_isReduced_products :
    let s : Solver := ⟨⟨.minimize, some 3, true⟩, rfl⟩
    let table : RawTable Rat := [[1, 2], [2, 4], [3, 6]]
    ∃ a : CostMatrix Rat, CostMatrix.ofRows table = .ok a ∧ s.exceededLimit? a = none ∧
      (∀ w ∈ (Run.ofSource s.config a).working, w.nrows = 3 ∧ w.ncols = 3 ∧ w.IsReduced) ∧
      ((Run.ofSource s.config a).descent.matchings.map Matching.size).Pairwise (· ≤ ·) := by
  intro s table
  let g : Grid Rat := ⟨2, table, by decide⟩
  obtain ⟨a, ha, hga⟩ := CostMatrix.exists_ofRows (g := g) (by decide) (by decide)
  have hdim : a.dimension = 3 := by rw [hga]; rfl
  have hlimit : s.exceededLimit? a = none := by
    unfold Solver.exceededLimit?
    rw [hdim]
    rfl
  obtain ⟨hreduced, _, _, _, _, hsizes⟩ := working_isReduced s a hlimit
  rw [hdim] at hreduced
  exact ⟨a, ha, hlimit, hreduced, hsizes⟩

end LinearAssignment
