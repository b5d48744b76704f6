import LinearAssignment.Proofs.Progress
import LinearAssignment.Proofs.SmallestCover

/-! # Every adjustment advances

    What one adjustment does to a square grid without negative cells whose largest matching is
    incomplete, said about the values of the grid.  It may destroy zeros, those that lie on two
    lines; but the pairs and the zeros along which the marking went lie on one line each, and
    these stay.  So the marking repeats itself on the new grid and goes on to a new zero, and
    either a larger matching is there or the lines have changed for good: more columns and
    fewer rows, whatever largest matching is found on the new grid.

    * `Advances`: all that an adjustment achieves.
    * `exists_advance`: an adjustment is made, and it achieves that. -/

namespace LinearAssignment

namespace Grid

variable {K : Type} [Scalar K] {g : Grid K} {μ : Matching}

/-- What the adjustment of `g` to `lines` by `d` achieves in the new grid `g'`, when the lines
    were read off the matching `μ`. -/
structure Advances (g : Grid K) (μ : Matching) (lines : LineCover) (d : K) (g' : Grid K) :
    Prop where
  /-- The value used is positive. -/
  pos : 0 < d
  /-- No cell becomes negative. -/
  nonneg : ∀ v ∈ g'.cells, ¬ v < 0
  /-- The pairs are zero cells still. -/
  pairs : ∀ e ∈ μ.pairs, g'.IsZeroAt e.1 e.2
  /-- A zero cell is kept unless both its row and its column are lines. -/
  kept : ∀ i j, g.IsZeroAt i j → lines.coversRow i = false ∨ lines.coversCol j = false →
    g'.IsZeroAt i j
  /-- A cell on no line becomes a zero. -/
  gained : ∃ i j, lines.isUncovered i j = true ∧ g'.IsZeroAt i j
  /-- The largest matching grows, or more columns and fewer rows are lines, whatever largest
      matching of the new grid they are read off. -/
  further : (∃ k, IsGreatest g'.scatteredSizes k ∧ μ.size < k) ∨
    ∀ ν, g'.LargestMatching ν → lines.colSet ⊂ (g'.zeroPattern.cover ν).colSet ∧
      (g'.zeroPattern.cover ν).rowSet ⊂ lines.rowSet

/-- A zero cell that is not on two lines is kept. -/
theorem isZeroAt_adjustBy {d : K} {i j : Nat} (hz : g.IsZeroAt i j)
    (h : (g.zeroPattern.cover μ).coversRow i = false ∨
      (g.zeroPattern.cover μ).coversCol j = false) :
    (g.adjustBy (g.zeroPattern.cover μ) d).IsZeroAt i j := by
  rw [isZeroAt_iff] at hz ⊢
  rcases h with hrow | hcol
  · -- The row of a zero lies in the grid, so it is marked when it is no line.
    rw [← Bool.not_eq_true, ZeroPattern.coversRow_cover_iff, not_and, not_not] at hrow
    exact isZero_adjustBy_of_marked (hrow hz.lt_nrows) hz
  · rw [← Bool.not_eq_true, ZeroPattern.coversCol_cover_iff] at hcol
    exact isZero_adjustBy_of_not_markedCol hcol hz

section Exact

variable [Scalar.ExactNearZero K]

/-- **Every adjustment makes progress.**  In a square grid without negative cells whose largest
    matching is incomplete, the adjustment to the lines read off the matching succeeds, and it
    advances. -/
theorem exists_advance (hsq : g.nrows = g.ncols) (hg : ∀ v ∈ g.cells, ¬ v < 0)
    (hμ : g.LargestMatching μ) (hinc : μ.isComplete = false) :
    ∃ d g', g.adjust (g.zeroPattern.cover μ) = .ok (d, g') ∧
      g.Advances μ (g.zeroPattern.cover μ) d g' := by
  have hmax := largestMatching_iff.mp hμ
  have hcells : ∀ i j v, g.cell? i j = some v → ¬ v < 0 :=
    fun i j v hv => hg v (mem_cells.mpr ⟨i, j, hv⟩)
  obtain ⟨d, hd⟩ := exists_minUncovered_cover hcells hsq hmax hinc
  have hlow := lowest_of_minUncovered hd
  let g' := g.adjustBy (g.zeroPattern.cover μ) d
  have hmax' := g'.zeroPattern.maximumMatching_isMaximum
  refine ⟨d, g', (adjust_eq_ok_iff ..).mpr ⟨hd, rfl⟩, hlow.pos, ?_, ?_, ?_, ?_, ?_⟩
  · intro v hv
    obtain ⟨i, j, hv⟩ := mem_cells.mp hv
    exact hlow.nonneg_adjustBy hcells hv
  · intro e he
    exact isZeroAt_iff.mpr (isZero_adjustBy_of_pair hmax.toMatches (Matching.mem_pairs.mp he))
  · exact fun i j => isZeroAt_adjustBy
  · obtain ⟨i, j, hunc, hz⟩ := hlow.exists_new_zero
    exact ⟨i, j, hunc, isZeroAt_iff.mpr hz⟩
  · -- One largest matching of the new grid decides which case it is.
    rcases Nat.lt_or_ge μ.size g'.zeroPattern.maximumMatching.size with hlt | hge
    · exact .inl ⟨_, isGreatest_size hmax', hlt⟩
    · refine .inr fun ν hν => ?_
      have hν' := largestMatching_iff.mp hν
      exact hlow.lines_advance hmax hν' ((hmax'.size_le hν'.toMatches).trans hge)

end Exact

/-- The zero in the corner lies on two lines and is lost, and no larger matching arises; the
    lines, a column and a row before, are two columns afterwards. -/
theorem exists_advance_corner :
    let g : Grid Rat := ⟨3, [[0, 1, 5], [0, 3, 2], [0, 0, 4]], by decide⟩
    let μ : Matching := ⟨[some 0, none, some 1], [some 0, some 2, none]⟩
    (g.nrows = g.ncols ∧ (∀ v ∈ g.cells, ¬ v < 0) ∧ g.LargestMatching μ ∧
      μ.isComplete = false) ∧
      ∃ d g', g.adjust (g.zeroPattern.cover μ) = .ok (d, g') ∧ ¬ g'.IsZeroAt 2 0 ∧
        g.Advances μ (g.zeroPattern.cover μ) d g' := by
  intro g μ
  have hcov : g.CoveredBy {2} {0} := by decide +kernel
  have hμ : g.LargestMatching μ :=
    largestMatching_of_coveredBy (by decide +kernel) hcov (by decide)
  have hg : ∀ v ∈ g.cells, ¬ v < 0 := by decide +kernel
  obtain ⟨d, g', hadj, hadvances⟩ := exists_advance (μ := μ) rfl hg hμ rfl
  refine ⟨⟨rfl, hg, hμ, rfl⟩, d, g', hadj, ?_, hadvances⟩
  have hlost : (g.adjust (g.zeroPattern.cover μ)).toOption.map
      (fun p => decide (p.2.IsZeroAt 2 0)) = some false := by decide +kernel
  rw [hadj] at hlost
  exact of_decide_eq_false (Option.some.inj hlost)

end Grid

end LinearAssignment
