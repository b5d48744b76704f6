import LinearAssignment.Proofs.Progress
import LinearAssignment.Proofs.Relabelling

/-! # Lines of a relabelled table

    Which matching is found depends on the order of the lines, and a matching of a relabelled
    table need not be the matching of the table relabelled.  The lines read off it do not
    depend on the matching.  Carried over, the lines of one table are as few as can be for the
    other as well, and of all such lines those read off a maximum matching have the most rows
    and the fewest columns; both tables being in the same position, their lines agree.

    * `Relabelling.Carries`: one zero pattern is the other relabelled.
    * `Carries.size_eq`: their maximum matchings are of one size.
    * `Carries.coversRow_eq`, `Carries.coversCol_eq`: their lines agree.
    * `minUncovered_relabel_iff`, `adjustBy_relabel`: so do the adjustments. -/

namespace LinearAssignment

namespace Relabelling

variable {m n : Nat} {π : Relabelling m n} {p q : ZeroPattern} {μ ν : Matching}

/-- The second pattern has its zeros where the zeros of the first are moved. -/
structure Carries (π : Relabelling m n) (p q : ZeroPattern) : Prop where
  row_le : m ≤ p.nrows
  col_le : n ≤ p.ncols
  nrows_eq : q.nrows = p.nrows
  ncols_eq : q.ncols = p.ncols
  isZero_iff : ∀ i j, q.IsZero (π.row i) (π.col j) ↔ p.IsZero i j

theorem Carries.symm (h : π.Carries p q) : π.symm.Carries q p where
  row_le := h.nrows_eq ▸ h.row_le
  col_le := h.ncols_eq ▸ h.col_le
  nrows_eq := h.nrows_eq.symm
  ncols_eq := h.ncols_eq.symm
  isZero_iff := by
    intro i j
    rw [← h.isZero_iff, π.row_symm, π.col_symm, Equiv.apply_symm_apply, Equiv.apply_symm_apply]

/-! ## Covers and sizes -/

/-- Lines that cover one pattern cover the other when they are moved along. -/
theorem Carries.covers (h : π.Carries p q) {R C : Finset Nat} (hcov : p.Covers R C) :
    q.Covers (R.map π.row.toEmbedding) (C.map π.col.toEmbedding) := by
  intro i j hz
  obtain ⟨i, rfl⟩ := π.row.surjective i
  obtain ⟨j, rfl⟩ := π.col.surjective j
  rw [Finset.mem_map_equiv, Finset.mem_map_equiv, Equiv.symm_apply_apply,
    Equiv.symm_apply_apply]
  exact hcov i j ((h.isZero_iff i j).mp hz)

/-- The lines of a maximum matching, moved along, bound the matchings of the other pattern. -/
theorem Carries.size_le (h : π.Carries p q) (hμ : p.IsMaximum μ) (hν : q.Matches ν) :
    ν.size ≤ μ.size := by
  have hle := hν.independent.card_le (h.covers (p.covers_cover μ))
  rwa [ν.card_cells, Finset.card_map, Finset.card_map, ← LineCover.size_eq_card,
    hμ.size_cover] at hle

/-- **Maximum matchings of the two patterns are of one size.** -/
theorem Carries.size_eq (h : π.Carries p q) (hμ : p.IsMaximum μ) (hν : q.IsMaximum ν) :
    ν.size = μ.size :=
  Nat.le_antisymm (h.size_le hμ hν.toMatches) (h.symm.size_le hν hμ.toMatches)

theorem Carries.isComplete_eq (h : π.Carries p q) (hμ : p.IsMaximum μ) (hν : q.IsMaximum ν) :
    ν.isComplete = μ.isComplete := by
  rw [Bool.eq_iff_iff, ν.isComplete_iff_size, μ.isComplete_iff_size, h.size_eq hμ hν,
    hν.nrows_eq, hμ.nrows_eq, h.nrows_eq]

/-! ## Lines -/

/-- What is marked in one pattern is, moved along, marked in the other. -/
theorem Carries.marked_mono (h : π.Carries p q) (hμ : p.IsMaximum μ) (hν : q.IsMaximum ν) :
    (∀ i, i < p.nrows → p.Marked μ i → q.Marked ν (π.row i)) ∧
      ∀ j, p.MarkedCol μ j → q.MarkedCol ν (π.col j) := by
  -- The lines of the other pattern, moved back, are as few as can be, so they obey the marks.
  have hcov := h.symm.covers (q.covers_cover ν)
  have hcard : ((q.cover ν).rowSet.map π.symm.row.toEmbedding).card
      + ((q.cover ν).colSet.map π.symm.col.toEmbedding).card ≤ μ.size := by
    rw [Finset.card_map, Finset.card_map, ← LineCover.size_eq_card, hν.size_cover,
      h.size_eq hμ hν]
  obtain ⟨hrows, hcols⟩ := hμ.cover_extremal hcov hcard
  constructor
  · intro i hlt hi
    by_contra hnot
    refine hrows i hi ?_
    rw [Finset.mem_map_equiv, ZeroPattern.mem_rowSet_cover]
    refine ⟨?_, hnot⟩
    rw [h.nrows_eq]
    exact (π.row_lt_iff h.row_le i).mpr hlt
  · intro j hj
    have hmem := hcols j hj
    rwa [Finset.mem_map_equiv, ZeroPattern.mem_colSet_cover] at hmem

/-- **The two patterns have the same rows for lines.** -/
theorem Carries.coversRow_eq (h : π.Carries p q) (hμ : p.IsMaximum μ) (hν : q.IsMaximum ν)
    (i : Nat) : (q.cover ν).coversRow (π.row i) = (p.cover μ).coversRow i := by
  have hlt : π.row i < q.nrows ↔ i < p.nrows := by
    rw [h.nrows_eq]
    exact π.row_lt_iff h.row_le i
  rw [Bool.eq_iff_iff, ZeroPattern.coversRow_cover_iff, ZeroPattern.coversRow_cover_iff, hlt]
  refine and_congr_right fun hi => not_congr ⟨fun hmarked => ?_, (h.marked_mono hμ hν).1 i hi⟩
  have hback := (h.symm.marked_mono hν hμ).1 (π.row i) (hlt.mpr hi) hmarked
  rwa [π.row_symm, Equiv.symm_apply_apply] at hback

/-- **The two patterns have the same columns for lines.** -/
theorem Carries.coversCol_eq (h : π.Carries p q) (hμ : p.IsMaximum μ) (hν : q.IsMaximum ν)
    (j : Nat) : (q.cover ν).coversCol (π.col j) = (p.cover μ).coversCol j := by
  rw [Bool.eq_iff_iff, ZeroPattern.coversCol_cover_iff, ZeroPattern.coversCol_cover_iff]
  refine ⟨fun hmarked => ?_, (h.marked_mono hμ hν).2 j⟩
  have hback := (h.symm.marked_mono hν hμ).2 (π.col j) hmarked
  rwa [π.col_symm, Equiv.symm_apply_apply] at hback

theorem Carries.isUncovered_eq (h : π.Carries p q) (hμ : p.IsMaximum μ) (hν : q.IsMaximum ν)
    (i j : Nat) : (q.cover ν).isUncovered (π.row i) (π.col j) = (p.cover μ).isUncovered i j := by
  simp only [LineCover.isUncovered, h.coversRow_eq hμ hν, h.coversCol_eq hμ hν,
    ZeroPattern.length_rows_cover, ZeroPattern.length_cols_cover, h.nrows_eq, h.ncols_eq,
    π.row_lt_iff h.row_le, π.col_lt_iff h.col_le]

theorem Carries.isDoublyCovered_eq (h : π.Carries p q) (hμ : p.IsMaximum μ)
    (hν : q.IsMaximum ν) (i j : Nat) :
    (q.cover ν).isDoublyCovered (π.row i) (π.col j) = (p.cover μ).isDoublyCovered i j := by
  rw [LineCover.isDoublyCovered, h.coversRow_eq hμ hν, h.coversCol_eq hμ hν,
    LineCover.isDoublyCovered]

end Relabelling

namespace Grid

variable {m n : Nat} {π : Relabelling m n}

/-- The zeros of a relabelled grid are the zeros of the grid, moved along. -/
theorem AtLeast.carries {K : Type} [Scalar K] {g : Grid K} (hg : g.AtLeast m n)
    (π : Relabelling m n) : π.Carries g.zeroPattern (g.relabel π).zeroPattern where
  row_le := g.nrows_zeroPattern ▸ hg.row_le
  col_le := hg.col_le
  nrows_eq := by rw [nrows_zeroPattern, nrows_zeroPattern, nrows_relabel]
  ncols_eq := rfl
  isZero_iff := by
    intro i j
    rw [isZero_zeroPattern_iff, isZero_zeroPattern_iff, cell?_relabel hg]

/-! ## Adjustments -/

section Adjustment

variable {lines lines' : LineCover}
  (hunc : ∀ i j, lines'.isUncovered (π.row i) (π.col j) = lines.isUncovered i j)

include hunc

theorem mem_uncovered_relabel {K : Type} {g : Grid K} (hg : g.AtLeast m n) {v : K} :
    v ∈ (g.relabel π).uncovered lines' ↔ v ∈ g.uncovered lines := by
  rw [mem_uncovered, mem_uncovered, π.row.surjective.exists]
  refine exists_congr fun i => ?_
  rw [π.col.surjective.exists]
  exact exists_congr fun j => by rw [cell?_relabel hg, hunc]

/-- The value to adjust by is the same. -/
theorem minUncovered_relabel_iff {g : Grid Rat} (hg : g.AtLeast m n) {d : Rat} :
    (g.relabel π).minUncovered lines' = .ok d ↔ g.minUncovered lines = .ok d := by
  rw [minUncovered_eq_ok_iff, minUncovered_eq_ok_iff,
    Scalar.least?_congr fun _ => mem_uncovered_relabel hunc hg]

/-- What becomes of a cell depends on the lines it is on, and these are moved along. -/
theorem adjustBy_relabel {K : Type} [Scalar K] {g : Grid K} (hg : g.AtLeast m n)
    (hdbl : ∀ i j, lines'.isDoublyCovered (π.row i) (π.col j) = lines.isDoublyCovered i j)
    (d : K) : (g.relabel π).adjustBy lines' d = (g.adjustBy lines d).relabel π :=
  mapIdx_relabel hg fun i j v => by rw [hunc, hdbl]

end Adjustment

end Grid

end LinearAssignment
