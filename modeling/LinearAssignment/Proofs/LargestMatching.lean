import Mathlib.Order.Bounds.Basic
import LinearAssignment.Scalar.Instances
import LinearAssignment.Proofs.GreedyMatching

/-! # Largest matchings of the zeros of a grid

    What the growth of a matching reaches, said about the values of a grid.  Nothing is asked
    of the values or of the shape: only the zero test looks at a value, so the grid may
    hold infinities and values that are not numbers.

    * `ZeroMatching`: a matching between the lines of a grid whose pairs are zero cells.
    * `IsScattered`: zero cells in different rows and different columns.
    * `augment_isGreatest`: growing any such matching ends with one as large as the largest
      scattered set. -/

namespace LinearAssignment

namespace Grid

variable {K : Type} [Scalar K] {g : Grid K} {μ : Matching} {cells : Finset (Nat × Nat)}

/-- The cell at row `i` and column `j` lies in the grid and passes the zero test. -/
def IsZeroAt (g : Grid K) (i j : Nat) : Prop :=
  ∃ v, g.cell? i j = some v ∧ Scalar.isZero v = true

/-- A matching between the rows and the columns of the grid all of whose pairs are zero
    cells. -/
structure ZeroMatching (g : Grid K) (μ : Matching) : Prop where
  nrows_eq : μ.nrows = g.nrows
  ncols_eq : μ.ncols = g.ncols
  consistent : μ.Consistent
  isZero : ∀ e ∈ μ.pairs, g.IsZeroAt e.1 e.2

instance (g : Grid K) (i j : Nat) : Decidable (g.IsZeroAt i j) :=
  decidable_of_iff ((g.cell? i j).any Scalar.isZero = true) (by simp [IsZeroAt, Option.any_eq_true])

instance (g : Grid K) (μ : Matching) : Decidable (g.ZeroMatching μ) :=
  decidable_of_iff (μ.nrows = g.nrows ∧ μ.ncols = g.ncols ∧ μ.Consistent ∧
      ∀ e ∈ μ.pairs, g.IsZeroAt e.1 e.2)
    ⟨fun ⟨hm, hn, hcons, hzero⟩ => ⟨hm, hn, hcons, hzero⟩,
      fun h => ⟨h.nrows_eq, h.ncols_eq, h.consistent, h.isZero⟩⟩

/-- Zero cells of the grid, no two of them in one row or in one column. -/
structure IsScattered (g : Grid K) (cells : Finset (Nat × Nat)) : Prop where
  isZero : ∀ e ∈ cells, g.IsZeroAt e.1 e.2
  rows : ∀ e ∈ cells, ∀ e' ∈ cells, e.1 = e'.1 → e = e'
  cols : ∀ e ∈ cells, ∀ e' ∈ cells, e.2 = e'.2 → e = e'

/-- The sizes of the scattered sets of the grid. -/
def scatteredSizes (g : Grid K) : Set Nat := {k | ∃ cells, g.IsScattered cells ∧ cells.card = k}

/-! ## The same notions on the pattern of the zeros -/

theorem isZeroAt_iff {i j : Nat} : g.IsZeroAt i j ↔ g.zeroPattern.IsZero i j :=
  (isZero_zeroPattern_iff ..).symm

theorem zeroMatching_iff : g.ZeroMatching μ ↔ g.zeroPattern.Matches μ := by
  have hpairs : (∀ e ∈ μ.pairs, g.IsZeroAt e.1 e.2) ↔
      ∀ i j, μ.col? i = some j → g.zeroPattern.IsZero i j := by
    simp [Matching.mem_pairs, isZeroAt_iff]
  constructor
  · intro h
    exact ⟨⟨by simpa using h.nrows_eq, h.ncols_eq, h.consistent⟩, hpairs.mp h.isZero⟩
  · intro h
    exact ⟨by simpa using h.nrows_eq, h.ncols_eq, h.consistent, hpairs.mpr h.isZero⟩

theorem isScattered_iff : g.IsScattered cells ↔ g.zeroPattern.Independent cells := by
  have hzero : (∀ e ∈ cells, g.IsZeroAt e.1 e.2) ↔
      ∀ e ∈ cells, g.zeroPattern.IsZero e.1 e.2 := by
    simp [isZeroAt_iff]
  constructor
  · intro h
    exact ⟨hzero.mp h.isZero, fun e he e' he' => h.rows e he e' he',
      fun e he e' he' => h.cols e he e' he'⟩
  · intro h
    exact ⟨hzero.mpr h.isZero, fun e he e' he' => h.rows_inj he he',
      fun e he e' he' => h.cols_inj he he'⟩

/-- A maximum matching of the pattern has as many pairs as the largest scattered set. -/
theorem isGreatest_size (hμ : g.zeroPattern.IsMaximum μ) :
    IsGreatest g.scatteredSizes μ.size := by
  constructor
  · exact ⟨μ.cells, isScattered_iff.mpr hμ.independent, μ.card_cells⟩
  · rintro _ ⟨cells, hcells, rfl⟩
    exact hμ.card_le cells (isScattered_iff.mp hcells)

/-! ## The matching that is grown -/

/-- **Growing a matching of zero cells ends with one of the largest possible size**, whatever
    the grid and whatever the matching it starts from; so does growing the greedy one. -/
theorem augment_isGreatest (g : Grid K) {μ : Matching} (hμ : g.ZeroMatching μ) :
    (g.ZeroMatching (g.zeroPattern.augment μ) ∧
      IsGreatest g.scatteredSizes (g.zeroPattern.augment μ).size) ∧
    (g.ZeroMatching g.zeroPattern.maximumMatching ∧
      IsGreatest g.scatteredSizes g.zeroPattern.maximumMatching.size) := by
  have hgrown := ZeroPattern.augment_isMaximum (zeroMatching_iff.mp hμ)
  have hbuilt := g.zeroPattern.maximumMatching_isMaximum
  exact ⟨⟨zeroMatching_iff.mpr hgrown.toMatches, isGreatest_size hgrown⟩,
    ⟨zeroMatching_iff.mpr hbuilt.toMatches, isGreatest_size hbuilt⟩⟩

/-- A wide grid of floats, among them a negative zero, infinities and an invalid value.  A path
    from the middle row to the third column flips both pairs of the matching given. -/
theorem augment_isGreatest_wide :
    let g : Grid Float :=
      ⟨4, [[0, -0.0, 1 / 0, 3], [0, 5, 0 / 0, -1 / 0], [7, 0, 0, 2]], by decide⟩
    let μ : Matching := ⟨[some 0, none, some 1], [some 0, some 2, none, none]⟩
    (g.ZeroMatching μ ∧ (g.zeroPattern.augment μ).size = 3) ∧
      IsGreatest g.scatteredSizes (g.zeroPattern.augment μ).size := by
  intro g μ
  have hμ : g.ZeroMatching μ := by
    refine ⟨rfl, rfl, ?_, ?_⟩
    · intro i j
      rcases i with _ | _ | _ | i <;> rcases j with _ | _ | _ | _ | j <;>
        simp [μ, Matching.col?, Matching.row?]
    · intro e he
      have hcells : e = (0, 0) ∨ e = (2, 1) := by simpa [μ, Matching.pairs] using he
      rcases hcells with rfl | rfl
      · exact ⟨0, rfl, by decide +kernel⟩
      · exact ⟨0, rfl, by decide +kernel⟩
  exact ⟨⟨hμ, by decide +kernel⟩, (augment_isGreatest g hμ).1.2⟩

end Grid

end LinearAssignment
