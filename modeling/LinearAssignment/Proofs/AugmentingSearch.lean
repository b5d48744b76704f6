import Mathlib.Logic.Relation
import LinearAssignment.Proofs.LargestMatching
import LinearAssignment.Proofs.ParentPointers

/-! # One augmenting search is exact

    What the search in place is worth, said about the values of a grid.  A matching made for
    one grid may be searched on another, so its pairs need not be zero cells of the grid at
    hand; what the search relies on is that its two directions are inverse to each other.

    * `StepsTo`, `LeadsToFree`: alternating steps, and rows from which they end well.
    * `augmentFrom?_isSome_iff`: there is something to flip from exactly these rows.
    * `augmentInPlace_isExact`: the search ends, says whether the row is one of these, and
      pairs one row and one column more if it is. -/

namespace LinearAssignment

namespace Grid

variable {K : Type} [Scalar K] {g : Grid K} {μ : Matching} {start : Nat}

/-! ## Alternating steps -/

/-- One alternating step between rows: out along a zero cell, and back along the pair of its
    column. -/
def StepsTo (g : Grid K) (μ : Matching) (i i' : Nat) : Prop :=
  ∃ j, g.IsZeroAt i j ∧ (i', j) ∈ μ.pairs

/-- Alternating steps from the row lead to a row with a zero cell in an unpaired column. -/
def LeadsToFree (g : Grid K) (μ : Matching) (start : Nat) : Prop :=
  ∃ i j, Relation.ReflTransGen (g.StepsTo μ) start i ∧ g.IsZeroAt i j ∧ ∀ r, (r, j) ∉ μ.pairs

theorem stepsTo_iff (hμ : μ.Consistent) {i i' : Nat} :
    g.StepsTo μ i i' ↔ ∃ j, g.zeroPattern.IsZero i j ∧ μ.row? j = some i' :=
  exists_congr fun _ => and_congr isZeroAt_iff hμ.mem_pairs

/-- Alternating steps lead to the rows that the walk reaches. -/
theorem reflTransGen_stepsTo_iff (hμ : μ.Consistent) {i : Nat} :
    Relation.ReflTransGen (g.StepsTo μ) start i ↔ g.zeroPattern.Reached μ [start] i := by
  constructor
  · intro h
    induction h with
    | refl => exact .root (by simp)
    | tail _ hstep ih =>
      obtain ⟨j, hz, hrow⟩ := (stepsTo_iff hμ).mp hstep
      exact .step ih hz hrow
  · intro h
    induction h with
    | root hroot =>
      obtain rfl := List.mem_singleton.mp hroot
      exact .refl
    | step _ hz hrow ih => exact ih.tail ((stepsTo_iff hμ).mpr ⟨_, hz, hrow⟩)

/-- The rows from which no alternating steps end well are the exhausted ones. -/
theorem not_leadsToFree_iff (hμ : μ.Consistent) :
    ¬ g.LeadsToFree μ start ↔ g.zeroPattern.Exhausted μ start := by
  have hfree : g.LeadsToFree μ start ↔
      ∃ j, g.zeroPattern.ReachedCol μ [start] j ∧ μ.row? j = none := by
    unfold LeadsToFree ZeroPattern.ReachedCol
    simp only [reflTransGen_stepsTo_iff hμ, isZeroAt_iff, hμ.forall_not_mem_pairs]
    exact ⟨fun ⟨i, j, hi, hz, hj⟩ => ⟨j, ⟨i, hi, hz⟩, hj⟩,
      fun ⟨j, ⟨i, hi, hz⟩, hj⟩ => ⟨i, j, hi, hz, hj⟩⟩
  rw [hfree]
  unfold ZeroPattern.Exhausted
  simp only [not_exists, not_and, ← Option.ne_none_iff_exists']

/-- **The walk finds a path to flip exactly when alternating steps lead to an unpaired
    column.** -/
theorem augmentFrom?_isSome_iff (hμ : μ.Consistent) :
    (g.zeroPattern.augmentFrom? μ start).isSome = true ↔ g.LeadsToFree μ start := by
  rw [← not_iff_not, not_leadsToFree_iff hμ, ← ZeroPattern.augmentingPath?_eq_none_iff]
  simp [ZeroPattern.augmentFrom?]

/-! ## The search -/

/-- **One search is exact.**  For a consistent matching and an unpaired row, both its loops end.
    It succeeds exactly when alternating steps lead from the row to an unpaired column; then
    just this row and one column are paired in addition, and otherwise nothing is changed. -/
theorem augmentInPlace_isExact (g : Grid K) {μ : Matching} (hrows : μ.nrows = g.nrows)
    (hcols : μ.ncols = g.ncols) (hμ : μ.Consistent) {start : Nat}
    (hstart : ∀ j, (start, j) ∉ μ.pairs) :
    ∃ grown ν, g.zeroPattern.augmentInPlace μ start = .some (grown, ν) ∧
      g.zeroPattern.augmentFrom? μ start = (if grown then some ν else none) ∧
      (grown = true ↔ g.LeadsToFree μ start) ∧
      (grown = true → ν.Consistent ∧
        start ∉ μ.pairedRows ∧ ν.pairedRows = insert start μ.pairedRows ∧
        ∃ j ∉ μ.pairedCols, ν.pairedCols = insert j μ.pairedCols) ∧
      (grown = false → ν = μ) := by
  have hfits : g.zeroPattern.Fits μ := ⟨by simpa using hrows, hcols, hμ⟩
  have hnone : μ.col? start = none := Matching.forall_not_mem_pairs.mp hstart
  have hends := ZeroPattern.augmentInPlace_eq (p := g.zeroPattern) hμ hnone
  have hiff : (g.zeroPattern.augmentFrom? μ start).isSome = true ↔ g.LeadsToFree μ start :=
    augmentFrom?_isSome_iff hμ
  cases hpath : g.zeroPattern.augmentingPath? μ start with
  | none =>
    have hfrom : g.zeroPattern.augmentFrom? μ start = none := by
      simp [ZeroPattern.augmentFrom?, hpath]
    rw [hfrom] at hends hiff
    exact ⟨false, μ, hends, hfrom, hiff, nofun, fun _ => rfl⟩
  | some path =>
    have haug := ZeroPattern.augmenting_of_augmentingPath? hnone hpath
    have hfrom : g.zeroPattern.augmentFrom? μ start = some (μ.flip path) := by
      simp [ZeroPattern.augmentFrom?, hpath]
    rw [hfrom] at hends hiff
    have hunpaired : start ∉ μ.pairedRows := by
      simp [Matching.mem_pairedRows, hnone]
    obtain ⟨j, _, hfree, hcols'⟩ := haug.pairedCols_flip hfits
    have hj : j ∉ μ.pairedCols := by
      simp [Matching.mem_pairedCols, hfree]
    exact ⟨true, μ.flip path, hends, hfrom, hiff, fun _ => ⟨(haug.fits hfits).consistent,
      hunpaired, haug.pairedRows_flip hfits, j, hj, hcols'⟩, nofun⟩

/-- The pair of the third row is no zero cell of this grid.  The search from the second row
    goes over the first and the third row to the last column but one, and all three rows
    change their columns. -/
theorem augmentInPlace_isExact_stale :
    let g : Grid Float :=
      ⟨4, [[0, -0.0, 1 / 0, 0 / 0], [-0.0, 3, 1, 2], [2, 5, 0, 1]], by decide⟩
    let μ : Matching := ⟨[some 0, none, some 1], [some 0, some 2, none, none]⟩
    (μ.Consistent ∧ (∀ j, (1, j) ∉ μ.pairs) ∧ ¬ g.IsZeroAt 2 1) ∧ g.LeadsToFree μ 1 ∧
      ∃ ν, g.zeroPattern.augmentInPlace μ 1 = .some (true, ν) ∧
        ν.pairs = [(0, 1), (1, 0), (2, 2)] ∧ ν.pairedRows = insert 1 μ.pairedRows := by
  intro g μ
  have hμ : μ.Consistent := by decide
  have hstart : ∀ j, (1, j) ∉ μ.pairs := Matching.forall_not_mem_pairs.mpr rfl
  obtain ⟨grown, ν, hends, hfrom, hiff, hgrown, _⟩ :=
    g.augmentInPlace_isExact rfl rfl hμ hstart
  have hflip : g.zeroPattern.augmentFrom? μ 1 =
      some ⟨[some 1, some 0, some 2], [some 1, some 0, some 2, none]⟩ := by decide +kernel
  rw [hflip] at hfrom
  cases grown with
  | false => cases hfrom
  | true =>
    obtain rfl := Option.some.inj hfrom
    exact ⟨⟨hμ, hstart, by decide +kernel⟩, hiff.mp rfl, _, hends, by decide,
      (hgrown rfl).2.2.1⟩

end Grid

end LinearAssignment
