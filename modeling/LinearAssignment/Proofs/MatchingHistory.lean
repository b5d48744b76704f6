import LinearAssignment.Proofs.GreedyPass
import LinearAssignment.Proofs.ParentPointers

/-! # Matchings over a history of operations

    A matching is begun without pairs, taken greedily or at its largest size from the zeros of
    a grid, and grown on further grids of the same shape, on which its pairs need not be zero
    cells any more.  Whatever the order, its two directions stay inverse to each other, and
    growing it forgets no line that had a partner.

    * `SizedGrid`, `Operation`: what a history consists of.
    * `Operation.apply`, `Operation.perform`: the outcome of an operation, and its loops.
    * `IsPartialBijection`: what every operation keeps.
    * `after_isPartialBijection`: every history. -/

namespace LinearAssignment

variable {K : Type} {m n : Nat} {μ : Matching}

/-! ## Operations -/

/-- A grid with `m` rows and `n` columns. -/
structure SizedGrid (K : Type) (m n : Nat) extends Grid K where
  nrows_eq : toGrid.nrows = m
  ncols_eq : toGrid.ncols = n

/-- What can be done to a matching between `m` rows and `n` columns. -/
inductive Operation (K : Type) (m n : Nat) where
  /-- Begin anew, without pairs. -/
  | clear
  /-- Begin anew with the greedy matching of a grid. -/
  | greedy (g : SizedGrid K m n)
  /-- Begin anew with a largest matching of a grid. -/
  | largest (g : SizedGrid K m n)
  /-- Grow the matching over the zeros of a grid. -/
  | grow (g : SizedGrid K m n)

section Histories

variable [Scalar K]

namespace Operation

/-- The matching after the operation. -/
def apply : Operation K m n → Matching → Matching
  | clear, _ => .empty m n
  | greedy g, _ => g.zeroPattern.greedyMatching
  | largest g, _ => g.zeroPattern.maximumMatching
  | grow g, μ => g.zeroPattern.augment μ

/-- The operation done in place. -/
def perform : Operation K m n → Matching → Part Matching
  | clear, _ => .some (.empty m n)
  | greedy g, _ => g.greedyInPlace
  | largest g, _ => g.greedyInPlace.bind g.zeroPattern.growInPlace
  | grow g, μ => g.zeroPattern.growInPlace μ

end Operation

namespace Matching

/-- The matching after a history. -/
def after (ops : List (Operation K m n)) : Matching :=
  ops.foldl (fun μ op => op.apply μ) (.empty m n)

/-- The history done in place. -/
def performAll (ops : List (Operation K m n)) : Part Matching :=
  ops.foldlM (fun μ op => op.perform μ) (.empty m n)

end Matching

/-! ## What every operation keeps -/

/-- The matching has the given shape, and its two directions are inverse to each other. -/
structure IsPartialBijection (m n : Nat) (μ : Matching) : Prop where
  nrows_eq : μ.nrows = m
  ncols_eq : μ.ncols = n
  consistent : μ.Consistent

theorem isPartialBijection_empty (m n : Nat) : IsPartialBijection m n (.empty m n) :=
  ⟨Matching.nrows_empty m n, Matching.ncols_empty m n, Matching.consistent_empty m n⟩

/-- That is what it takes to fit a grid of this shape. -/
theorem SizedGrid.fits_iff (g : SizedGrid K m n) :
    g.zeroPattern.Fits μ ↔ IsPartialBijection m n μ := by
  have hrows : g.zeroPattern.nrows = m := g.nrows_zeroPattern.trans g.nrows_eq
  have hcols : g.zeroPattern.ncols = n := g.ncols_eq
  constructor
  · intro h
    exact ⟨h.nrows_eq.trans hrows, h.ncols_eq.trans hcols, h.consistent⟩
  · intro h
    exact ⟨h.nrows_eq.trans hrows.symm, h.ncols_eq.trans hcols.symm, h.consistent⟩

namespace Operation

/-- **One operation keeps a partial bijection one.** -/
theorem isPartialBijection_apply (op : Operation K m n) (hμ : IsPartialBijection m n μ) :
    IsPartialBijection m n (op.apply μ) := by
  cases op with
  | clear => exact isPartialBijection_empty m n
  | greedy g => exact g.fits_iff.mp g.zeroPattern.greedyMatching_matches.toFits
  | largest g => exact g.fits_iff.mp g.zeroPattern.maximumMatching_isMaximum.toFits
  | grow g => exact g.fits_iff.mp (g.fits_iff.mpr hμ).augment

/-- **The loops of one operation end**, with the matching after it. -/
theorem perform_eq (op : Operation K m n) (hμ : IsPartialBijection m n μ) :
    op.perform μ = .some (op.apply μ) := by
  cases op with
  | clear => rfl
  | greedy g => exact g.greedyInPlace_eq
  | largest g =>
    have hgrown := ZeroPattern.growInPlace_eq g.zeroPattern.greedyMatching_matches.toFits
    show g.greedyInPlace.bind g.zeroPattern.growInPlace = .some g.zeroPattern.maximumMatching
    rw [g.greedyInPlace_eq, Part.bind_some]
    exact hgrown
  | grow g => exact ZeroPattern.growInPlace_eq (g.fits_iff.mpr hμ)

end Operation

/-! ## Histories -/

/-- Operations one after the other, from any partial bijection. -/
theorem foldl_apply (ops : List (Operation K m n)) (hμ : IsPartialBijection m n μ) :
    IsPartialBijection m n (ops.foldl (fun μ op => op.apply μ) μ) ∧
      ops.foldlM (fun μ op => op.perform μ) μ =
        Part.some (ops.foldl (fun μ op => op.apply μ) μ) := by
  induction ops generalizing μ with
  | nil => exact ⟨hμ, rfl⟩
  | cons op ops ih =>
    rw [List.foldlM_cons, op.perform_eq hμ, Part.bind_eq_bind, Part.bind_some]
    exact ih (op.isPartialBijection_apply hμ)

/-- **Every history ends in a partial bijection, and growing forgets no line.**  The column of
    a row and the row of a column are inverse to each other; the pairs ascend in their rows,
    differ in their columns and are as many as their number says.  If the matching is then
    grown on any grid of its shape, the lines that had a partner have one still, and each pair
    that is new is a zero cell. -/
theorem after_isPartialBijection (ops : List (Operation K m n)) :
    let μ := Matching.after ops
    Matching.performAll ops = .some μ ∧
      (∀ i j, μ.col? i = some j ↔ μ.row? j = some i) ∧
      (μ.pairs.Pairwise fun e e' => e.1 < e'.1) ∧ (μ.pairs.map Prod.snd).Nodup ∧
      (∀ i j, (i, j) ∈ μ.pairs ↔ μ.col? i = some j) ∧ μ.pairs.length = μ.size ∧
      ∀ g : SizedGrid K m n,
        let ν := g.zeroPattern.augment μ
        g.zeroPattern.growInPlace μ = .some ν ∧
          μ.pairedRows ⊆ ν.pairedRows ∧ μ.pairedCols ⊆ ν.pairedCols ∧
          ∀ e ∈ ν.pairs, e ∉ μ.pairs → g.IsZeroAt e.1 e.2 := by
  intro μ
  obtain ⟨hμ, hperform⟩ := foldl_apply ops (isPartialBijection_empty m n)
  refine ⟨hperform, hμ.consistent, μ.pairs_ascending, hμ.consistent.cols_nodup,
    fun i j => Matching.mem_pairs, μ.length_pairs, ?_⟩
  intro g ν
  have hfits : g.zeroPattern.Fits μ := g.fits_iff.mpr hμ
  have hgrows := ZeroPattern.augment_grows hfits
  refine ⟨ZeroPattern.growInPlace_eq hfits, hgrows.rows, hgrows.cols, ?_⟩
  intro e hν hnew
  rcases hgrows.pairs e.1 e.2 (Matching.mem_pairs.mp hν) with hold | hz
  · exact absurd (Matching.mem_pairs.mpr hold) hnew
  · exact Grid.isZeroAt_iff.mpr hz

/-- A matching taken from one grid and grown on another on which neither of its pairs is a zero
    cell.  One of them is given up for two new ones, the other one stays. -/
theorem after_isPartialBijection_stale :
    let g : SizedGrid Float 3 3 := ⟨⟨3, [[0, 1, 1], [-0.0, 2, 2], [1, 1, 0]], by decide⟩, rfl, rfl⟩
    let h : SizedGrid Float 3 3 :=
      ⟨⟨3, [[5, 0, 1], [0, 1 / 0, 2], [1, 1, 0 / 0]], by decide⟩, rfl, rfl⟩
    let μ := Matching.after [.clear, .greedy g]
    let ν := h.zeroPattern.augment μ
    (μ.pairs = [(0, 0), (2, 2)] ∧ ¬ h.IsZeroAt 0 0 ∧ ¬ h.IsZeroAt 2 2) ∧
      Matching.performAll [.clear, .greedy g] = .some μ ∧
      h.zeroPattern.growInPlace μ = .some ν ∧ ν.pairs = [(0, 1), (1, 0), (2, 2)] ∧
      μ.pairedCols ⊆ ν.pairedCols ∧ h.IsZeroAt 0 1 := by
  intro g h μ ν
  have hμ : μ.pairs = [(0, 0), (2, 2)] := by decide +kernel
  have hν : ν.pairs = [(0, 1), (1, 0), (2, 2)] := by decide +kernel
  obtain ⟨hperform, _, _, _, _, _, hgrow⟩ := after_isPartialBijection [.clear, .greedy g]
  obtain ⟨hends, _, hcols, hnew⟩ := hgrow h
  have hz : h.IsZeroAt 0 1 := hnew (0, 1) (by rw [hν]; decide) (by rw [hμ]; decide)
  exact ⟨⟨hμ, by decide +kernel, by decide +kernel⟩, hperform, hends, hν, hcols, hz⟩

end Histories

end LinearAssignment
