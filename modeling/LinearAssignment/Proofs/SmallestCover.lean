import Mathlib.Data.Set.Card
import LinearAssignment.Proofs.LargestMatching

/-! # Smallest covers of the zeros of a grid

    What the lines read off a matching are worth, said about the values of a grid.  They meet
    every zero, whatever the matching, and they exceed the pairs by the unpaired columns that
    alternating steps lead to.  So their number equals that of the pairs exactly when the
    matching is as large as can be, which is the test that the solver makes, and then no cover
    is smaller.  Among the smallest covers they are the one with the fewest columns and the
    most rows, so they are the same for all largest matchings.

    * `RowReached`, `freeReached`: where alternating steps lead.
    * `CoveredBy`, `IsSmallestCover`: lines that meet every zero cell.
    * `LargestMatching`: a matching as large as the largest scattered set.
    * `largestMatching_of_coveredBy`: a matching and a cover of one size certify each other.
    * `size_cover_detects_largest`: the number of lines against the number of pairs.
    * `cover_canonical`: the lines do not depend on the largest matching. -/

namespace LinearAssignment

namespace Grid

variable {K : Type} [Scalar K] {g : Grid K} {μ ν : Matching} {R C : Finset Nat}

/-! ## Alternating steps -/

/-- Rows that alternating steps from the unpaired rows lead to: a step leaves a row along a zero
    cell and returns from its column along the pair there. -/
inductive RowReached (g : Grid K) (μ : Matching) : Nat → Prop where
  | unpaired {i : Nat} : i < g.nrows → (∀ j, (i, j) ∉ μ.pairs) → RowReached g μ i
  | step {i j i' : Nat} : RowReached g μ i → g.IsZeroAt i j → (i', j) ∈ μ.pairs →
      RowReached g μ i'

/-- The columns without a pair that hold a zero cell of a row reached. -/
def freeReached (g : Grid K) (μ : Matching) : Set Nat :=
  {j | (∃ i, g.RowReached μ i ∧ g.IsZeroAt i j) ∧ ∀ i, (i, j) ∉ μ.pairs}

/-- The rows reached are the ones that the cover marks. -/
theorem rowReached_iff (hμ : μ.Consistent) {i : Nat} :
    g.RowReached μ i ↔ g.zeroPattern.Marked μ i := by
  constructor
  · intro h
    induction h with
    | unpaired hi hnone =>
      have hcol := Matching.forall_not_mem_pairs.mp hnone
      exact .root (ZeroPattern.mem_unpairedRows.mpr ⟨by simpa using hi, hcol⟩)
    | step _ hz hpair ih => exact .step ih (isZeroAt_iff.mp hz) (hμ.mem_pairs.mp hpair)
  · intro h
    induction h with
    | root hroot =>
      obtain ⟨hi, hcol⟩ := ZeroPattern.mem_unpairedRows.mp hroot
      exact .unpaired (by simpa using hi) (Matching.forall_not_mem_pairs.mpr hcol)
    | step _ hz hrow ih => exact .step ih (isZeroAt_iff.mpr hz) (hμ.mem_pairs.mpr hrow)

/-- The unpaired columns reached are the columns of the cover that have no partner. -/
theorem ncard_freeReached (hμ : μ.Consistent) :
    (g.freeReached μ).ncard = ((g.zeroPattern.cover μ).colSet \ μ.pairedCols).card := by
  have hset : g.freeReached μ = ↑((g.zeroPattern.cover μ).colSet \ μ.pairedCols) := by
    ext j
    rw [Finset.mem_coe, Finset.mem_sdiff, ZeroPattern.mem_colSet_cover, Matching.mem_pairedCols]
    refine and_congr ?_ ?_
    · exact exists_congr fun i => and_congr (rowReached_iff hμ) isZeroAt_iff
    · rw [not_exists]
      exact forall_congr' fun i => not_congr hμ.mem_pairs
  rw [hset, Set.ncard_coe_finset]

/-! ## Covers -/

/-- Every zero cell lies in a row of `R` or in a column of `C`. -/
def CoveredBy (g : Grid K) (R C : Finset Nat) : Prop := ∀ i j, g.IsZeroAt i j → i ∈ R ∨ j ∈ C

/-- The numbers of lines of the covers of the grid. -/
def coverSizes (g : Grid K) : Set Nat := {k | ∃ R C, g.CoveredBy R C ∧ R.card + C.card = k}

/-- A cover with the fewest lines. -/
structure IsSmallestCover (g : Grid K) (R C : Finset Nat) : Prop where
  covers : g.CoveredBy R C
  isLeast : IsLeast g.coverSizes (R.card + C.card)

/-- A matching of zero cells with as many pairs as the largest scattered set has cells. -/
structure LargestMatching (g : Grid K) (μ : Matching) : Prop extends g.ZeroMatching μ where
  isGreatest : IsGreatest g.scatteredSizes μ.size

theorem coveredBy_iff : g.CoveredBy R C ↔ g.zeroPattern.Covers R C :=
  forall_congr' fun _ => forall_congr' fun _ => imp_congr_left isZeroAt_iff

instance : Decidable (g.CoveredBy R C) := decidable_of_iff _ coveredBy_iff.symm

theorem largestMatching_iff : g.LargestMatching μ ↔ g.zeroPattern.IsMaximum μ := by
  constructor
  · intro h
    refine ⟨zeroMatching_iff.mp h.toZeroMatching, fun cells hcells => ?_⟩
    exact h.isGreatest.2 ⟨cells, isScattered_iff.mpr hcells, rfl⟩
  · intro h
    exact ⟨zeroMatching_iff.mpr h.toMatches, isGreatest_size h⟩

/-- **A matching and a cover of one size certify each other**: the matching is largest. -/
theorem largestMatching_of_coveredBy (hμ : g.ZeroMatching μ) (hcov : g.CoveredBy R C)
    (hcard : R.card + C.card ≤ μ.size) : g.LargestMatching μ := by
  refine largestMatching_iff.mpr ⟨zeroMatching_iff.mp hμ, fun cells hcells => ?_⟩
  exact (hcells.card_le (coveredBy_iff.mp hcov)).trans hcard

/-- The lines read off a matching are a cover. -/
theorem coveredBy_cover (g : Grid K) (μ : Matching) :
    g.CoveredBy (g.zeroPattern.cover μ).rowSet (g.zeroPattern.cover μ).colSet :=
  coveredBy_iff.mpr (g.zeroPattern.covers_cover μ)

/-- No cover has fewer lines than a largest matching has pairs, and one has as many. -/
theorem LargestMatching.isLeast (hμ : g.LargestMatching μ) : IsLeast g.coverSizes μ.size := by
  have hmax := largestMatching_iff.mp hμ
  constructor
  · refine ⟨_, _, g.coveredBy_cover μ, ?_⟩
    rw [← LineCover.size_eq_card, hmax.size_cover]
  · rintro _ ⟨R, C, hcov, rfl⟩
    have hle := hmax.independent.card_le (coveredBy_iff.mp hcov)
    rwa [μ.card_cells] at hle

/-! ## Lines against pairs -/

/-- The cover has as many lines as the matching has pairs exactly when the matching is
    largest. -/
theorem size_cover_eq_iff (hμ : g.ZeroMatching μ) :
    (g.zeroPattern.cover μ).size = μ.size ↔ g.LargestMatching μ := by
  constructor
  · intro h
    refine largestMatching_of_coveredBy hμ (g.coveredBy_cover μ) ?_
    rw [← LineCover.size_eq_card, h]
  · exact fun h => (largestMatching_iff.mp h).size_cover

/-- **The number of lines detects whether a matching is largest.**  The lines meet every zero
    cell; they exceed the pairs by the number of unpaired columns that alternating steps from
    the unpaired rows lead to; they are as many as the pairs exactly when the matching is as
    large as the largest scattered set, and then no cover has fewer lines. -/
theorem size_cover_detects_largest (g : Grid K) {μ : Matching} (hμ : g.ZeroMatching μ) :
    (∀ i j, g.IsZeroAt i j → (g.zeroPattern.cover μ).coversRow i = true ∨
      (g.zeroPattern.cover μ).coversCol j = true) ∧
    (g.zeroPattern.cover μ).size = μ.size + (g.freeReached μ).ncard ∧
    ((g.zeroPattern.cover μ).size = μ.size ↔ IsGreatest g.scatteredSizes μ.size) ∧
    ((g.zeroPattern.cover μ).size = μ.size →
      IsLeast g.coverSizes (g.zeroPattern.cover μ).size) := by
  refine ⟨?_, ?_, ?_, ?_⟩
  · intro i j hz
    rw [← LineCover.mem_rowSet, ← LineCover.mem_colSet]
    exact g.coveredBy_cover μ i j hz
  · rw [ncard_freeReached hμ.consistent]
    exact (zeroMatching_iff.mp hμ).size_cover
  · rw [size_cover_eq_iff hμ]
    exact ⟨fun h => h.isGreatest, fun h => ⟨hμ, h⟩⟩
  · intro h
    rw [h]
    exact ((size_cover_eq_iff hμ).mp h).isLeast

/-- A wide grid of floats with an invalid value and an infinity.  The matching could be larger:
    from the second and third row one step leads to the first column, its pair back to the
    first row, and from there another step to the second column, which is unpaired. -/
theorem size_cover_detects_largest_wide :
    let g : Grid Float :=
      ⟨5, [[0, -0.0, 1 / 0, 0 / 0, 3], [0, 5, 7, 1, 2], [-0.0, 2, 3, 4, 1], [5, 6, 7, 0, 2]],
        by decide⟩
    let μ : Matching :=
      ⟨[some 0, none, none, some 3], [some 0, none, none, some 3, none]⟩
    g.ZeroMatching μ ∧ (g.zeroPattern.cover μ).coveringRows = [3] ∧
      (g.zeroPattern.cover μ).coveringCols = [0, 1] ∧ (g.freeReached μ).ncard = 1 ∧
      ¬ IsGreatest g.scatteredSizes μ.size := by
  intro g μ
  have hμ : g.ZeroMatching μ := by decide +kernel
  have hsize : (g.zeroPattern.cover μ).size = 3 ∧ μ.size = 2 := by decide +kernel
  obtain ⟨_, hlines, hlargest, _⟩ := size_cover_detects_largest g hμ
  refine ⟨hμ, by decide +kernel, by decide +kernel, ?_, ?_⟩
  · omega
  · intro h
    have := hlargest.mpr h
    omega

/-! ## All smallest covers -/

/-- **The cover read off a largest matching is canonical.**  It is the same for every largest
    matching, and every smallest cover has at least its columns and at most its rows. -/
theorem cover_canonical (g : Grid K) {μ ν : Matching} (hμ : g.LargestMatching μ)
    (hν : g.LargestMatching ν) :
    g.zeroPattern.cover μ = g.zeroPattern.cover ν ∧
    ∀ R C, g.IsSmallestCover R C →
      (g.zeroPattern.cover μ).colSet ⊆ C ∧ R ⊆ (g.zeroPattern.cover μ).rowSet := by
  have hmax := largestMatching_iff.mp hμ
  refine ⟨hmax.cover_eq (largestMatching_iff.mp hν), fun R C h => ?_⟩
  have hcard : R.card + C.card = μ.size := h.isLeast.unique hμ.isLeast
  exact hmax.cover_subset (coveredBy_iff.mp h.covers) hcard.le

/-- Two rows have their only zero in the first column, so either may be left unpaired; both
    leave the same lines.  Another smallest cover takes a column in place of the third row. -/
theorem cover_canonical_columns :
    let g : Grid Float :=
      ⟨5, [[0, 5, 5, 5, 0 / 0], [0, 5, 5, 5, 1], [5, 5, -0.0, 5, 2], [7, 7, 7, 0, 3]],
        by decide⟩
    let μ : Matching :=
      ⟨[some 0, none, some 2, some 3], [some 0, none, some 2, some 3, none]⟩
    let ν : Matching :=
      ⟨[none, some 0, some 2, some 3], [some 1, none, some 2, some 3, none]⟩
    (g.LargestMatching μ ∧ g.LargestMatching ν ∧ g.IsSmallestCover {3} {0, 2}) ∧
      g.zeroPattern.cover μ = g.zeroPattern.cover ν ∧
      (g.zeroPattern.cover μ).colSet ⊆ {0, 2} ∧ {3} ⊆ (g.zeroPattern.cover μ).rowSet := by
  intro g μ ν
  have hcov : g.CoveredBy {3} {0, 2} := by decide +kernel
  have hμ : g.LargestMatching μ :=
    largestMatching_of_coveredBy (by decide +kernel) hcov (by decide)
  have hν : g.LargestMatching ν :=
    largestMatching_of_coveredBy (by decide +kernel) hcov (by decide)
  have hsmallest : g.IsSmallestCover {3} {0, 2} := ⟨hcov, hμ.isLeast⟩
  obtain ⟨hsame, hextremal⟩ := cover_canonical g hμ hν
  exact ⟨⟨hμ, hν, hsmallest⟩, hsame, hextremal {3} {0, 2} hsmallest⟩

end Grid

end LinearAssignment
