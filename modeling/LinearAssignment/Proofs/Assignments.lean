import Mathlib.Data.Fintype.Fin
import Mathlib.Data.Fintype.Sum
import Mathlib.Data.List.FinRange
import LinearAssignment.Proofs.Pairing
import LinearAssignment.Run

/-! # One-to-one assignments and permutations

    Squaring a grid turns its one-to-one assignments into permutations: dropping the pairs
    that fall on dummy lines leaves an assignment of as many pairs as the smaller dimension,
    and every assignment is what is left of some permutation.  A complete matching of the
    squared grid is a permutation as well.

    * `Grid.IsAssignment`: as many pairs as possible, no two in one line.
    * `Grid.pairsAlong`: what a permutation leaves in the grid.
    * `isAssignment_pairsAlong`, `IsAssignment.exists_perm`: the two are the same.
    * `Run.realPairs_eq_pairsAlong`: the pairs of a solution come from a permutation. -/

namespace LinearAssignment

variable {K : Type}

namespace Grid

/-- A choice of as many cells as possible, no two of them in one row or in one column. -/
structure IsAssignment (g : Grid K) (pairs : List Pair) : Prop where
  row_lt : ∀ p ∈ pairs, p.row < g.nrows
  col_lt : ∀ p ∈ pairs, p.col < g.ncols
  rows_nodup : (pairs.map (·.row)).Nodup
  cols_nodup : (pairs.map (·.col)).Nodup
  length_eq : pairs.length = min g.nrows g.ncols

/-- The pairs of a permutation that lie in the grid, in ascending order of their rows. -/
def pairsAlong (g : Grid K) {n : Nat} (σ : Equiv.Perm (Fin n)) : List Pair :=
  ((List.finRange n).filter fun i : Fin n => i < g.nrows && σ i < g.ncols).map
    fun i : Fin n => ⟨i, σ i⟩

variable {g : Grid K} {n : Nat} {σ : Equiv.Perm (Fin n)} {pairs : List Pair}

/-! ## From permutations to assignments -/

theorem mem_pairsAlong {p : Pair} :
    p ∈ g.pairsAlong σ ↔
      ∃ i : Fin n, p = ⟨i, σ i⟩ ∧ (i : Nat) < g.nrows ∧ (σ i : Nat) < g.ncols := by
  simp only [pairsAlong, List.mem_map, List.mem_filter, List.mem_finRange, true_and,
    Bool.and_eq_true, decide_eq_true_eq]
  constructor
  · intro h
    obtain ⟨i, hi, rfl⟩ := h
    exact ⟨i, rfl, hi⟩
  · intro h
    obtain ⟨i, rfl, hi⟩ := h
    exact ⟨i, hi, rfl⟩

theorem pairsAlong_ascending : (g.pairsAlong σ).Pairwise fun p q => p.row < q.row := by
  unfold pairsAlong
  rw [List.pairwise_map]
  exact (List.pairwise_lt_finRange n).filter _

/-- Two ascending lists of pairs with the same members are the same. -/
theorem eq_of_ascending {l l' : List Pair} (h : l.Pairwise fun p q => p.row < q.row)
    (h' : l'.Pairwise fun p q => p.row < q.row) (hmem : ∀ p, p ∈ l ↔ p ∈ l') : l = l' := by
  have hperm : l.Perm l' := by
    -- Neither list repeats a pair, since no row is below itself.
    refine (List.perm_ext_iff_of_nodup ?_ ?_).mpr hmem
    · exact h.imp fun hlt heq => Nat.ne_of_lt hlt (congrArg Pair.row heq)
    · exact h'.imp fun hlt heq => Nat.ne_of_lt hlt (congrArg Pair.row heq)
  exact hperm.eq_of_pairwise (fun _ _ _ _ hlt hgt => absurd hgt (Nat.lt_asymm hlt)) h h'

/-- The number of pairs of a permutation that lie in the grid does not depend on the
    permutation: the longer side loses as many lines as there are dummies. -/
theorem length_pairsAlong (hn : n = g.dimension) :
    (g.pairsAlong σ).length = min g.nrows g.ncols := by
  have hcard : (g.pairsAlong σ).length =
      (Finset.univ.filter fun i : Fin n =>
        (i : Nat) < g.nrows ∧ (σ i : Nat) < g.ncols).card := by
    have hnodup := (List.nodup_finRange n).filter fun i : Fin n => i < g.nrows && σ i < g.ncols
    rw [pairsAlong, List.length_map, ← List.toFinset_card_of_nodup hnodup,
      List.toFinset_filter, List.toFinset_finRange]
    simp
  rw [hcard]
  rcases Nat.le_total g.nrows g.ncols with hle | hle
  · -- No dummy column: only the row decides.
    have hcols : n = g.ncols := by rw [hn, dimension, Nat.max_eq_right hle]
    have hset : (Finset.univ.filter fun i : Fin n =>
        (i : Nat) < g.nrows ∧ (σ i : Nat) < g.ncols) =
          Finset.univ.filter fun i : Fin n => (i : Nat) < g.nrows := by
      refine Finset.filter_congr fun i _ => and_iff_left ?_
      exact hcols ▸ (σ i).isLt
    rw [hset, Fin.card_filter_val_lt, Nat.min_eq_left hle]
    omega
  · -- No dummy row: only the column decides, and each column is met once.
    have hrows : n = g.nrows := by rw [hn, dimension, Nat.max_eq_left hle]
    have hset : (Finset.univ.filter fun i : Fin n =>
        (i : Nat) < g.nrows ∧ (σ i : Nat) < g.ncols) =
          (Finset.univ.filter fun j : Fin n => (j : Nat) < g.ncols).map
            σ.symm.toEmbedding := by
      ext i
      have hi : (i : Nat) < g.nrows := hrows ▸ i.isLt
      simp [hi]
    rw [hset, Finset.card_map, Fin.card_filter_val_lt, Nat.min_eq_right hle]
    omega

/-- **What a permutation of the squared grid leaves in the grid is an assignment.** -/
theorem isAssignment_pairsAlong (hn : n = g.dimension) :
    g.IsAssignment (g.pairsAlong σ) where
  row_lt := by
    intro p hp
    obtain ⟨i, rfl, hi, _⟩ := mem_pairsAlong.mp hp
    exact hi
  col_lt := by
    intro p hp
    obtain ⟨i, rfl, _, hi⟩ := mem_pairsAlong.mp hp
    exact hi
  rows_nodup := by
    have hasc : (g.pairsAlong σ).Pairwise fun p q => p.row < q.row := pairsAlong_ascending
    exact List.pairwise_map.mpr (hasc.imp Nat.ne_of_lt)
  cols_nodup := by
    rw [pairsAlong, List.map_map]
    refine List.Nodup.map ?_ ((List.nodup_finRange n).filter _)
    intro i i' h
    have hcol : (σ i : Nat) = σ i' := h
    exact σ.injective (Fin.ext hcol)
  length_eq := length_pairsAlong hn

/-! ## From assignments to permutations -/

theorem IsAssignment.eq_of_row (h : g.IsAssignment pairs) {p q : Pair} (hp : p ∈ pairs)
    (hq : q ∈ pairs) (heq : p.row = q.row) : p = q :=
  List.inj_on_of_nodup_map h.rows_nodup hp hq heq

theorem IsAssignment.eq_of_col (h : g.IsAssignment pairs) {p q : Pair} (hp : p ∈ pairs)
    (hq : q ∈ pairs) (heq : p.col = q.col) : p = q :=
  List.inj_on_of_nodup_map h.cols_nodup hp hq heq

/-- Some permutation goes through all pairs of an assignment. -/
theorem IsAssignment.exists_extension (h : g.IsAssignment pairs) (hn : n = g.dimension) :
    ∃ σ : Equiv.Perm (Fin n), ∀ i : Fin n, ∀ p ∈ pairs, p.row = i → p.col = σ i := by
  have hcol : ∀ i : Fin n, ∃ j : Fin n, ∀ p ∈ pairs, p.row = i → p.col = j := by
    intro i
    by_cases hex : ∃ p ∈ pairs, p.row = i
    · obtain ⟨p, hp, hrow⟩ := hex
      have hlt : p.col < n := by
        have := h.col_lt p hp
        have := Nat.le_max_right g.nrows g.ncols
        rw [hn, dimension]
        omega
      refine ⟨⟨p.col, hlt⟩, fun q hq hqrow => ?_⟩
      rw [h.eq_of_row hq hp (hqrow.trans hrow.symm)]
    · exact ⟨i, fun p hp hrow => absurd ⟨p, hp, hrow⟩ hex⟩
  choose f hf using hcol
  let used : Finset (Fin n) := Finset.univ.filter fun i => ∃ p ∈ pairs, p.row = i
  -- On the rows in use the columns are distinct, so the choice extends to a permutation.
  have hinj : Set.InjOn f used := by
    intro i hi i' hi' heq
    obtain ⟨p, hp, hrow⟩ : ∃ p ∈ pairs, p.row = i := by simpa [used] using hi
    obtain ⟨q, hq, hqrow⟩ : ∃ p ∈ pairs, p.row = i' := by simpa [used] using hi'
    have hpq : p = q := by
      apply h.eq_of_col hp hq
      rw [hf i p hp hrow, hf i' q hq hqrow, heq]
    apply Fin.ext
    rw [← hrow, ← hqrow, hpq]
  obtain ⟨e, he⟩ := Finset.exists_equiv_extend_of_card_eq (t := Finset.univ) (by simp)
    (Finset.subset_univ (used.image f)) hinj
  refine ⟨e.trans (Equiv.subtypeUnivEquiv Finset.mem_univ), fun i p hp hrow => ?_⟩
  have hi : i ∈ used := by simpa [used] using ⟨p, hp, hrow⟩
  rw [hf i p hp hrow, ← he i hi]
  rfl

/-- **Every assignment is what some permutation of the squared grid leaves in the grid.** -/
theorem IsAssignment.exists_perm (h : g.IsAssignment pairs) (hn : n = g.dimension) :
    ∃ σ : Equiv.Perm (Fin n), (g.pairsAlong σ).Perm pairs := by
  obtain ⟨σ, hσ⟩ := h.exists_extension hn
  have hsub : pairs ⊆ g.pairsAlong σ := by
    intro p hp
    have hrow := h.row_lt p hp
    have hlt : p.row < n := by
      have := Nat.le_max_left g.nrows g.ncols
      rw [hn, dimension]
      omega
    have hcol : p.col = σ ⟨p.row, hlt⟩ := hσ ⟨p.row, hlt⟩ p hp rfl
    exact mem_pairsAlong.mpr ⟨⟨p.row, hlt⟩, by rw [← hcol], hrow, hcol ▸ h.col_lt p hp⟩
  -- All pairs are among those of the permutation, and there are no more of these.
  have hnodup : pairs.Nodup := h.rows_nodup.of_map _
  refine ⟨σ, ((List.subperm_of_subset hnodup hsub).perm_of_length_le ?_).symm⟩
  rw [length_pairsAlong hn, h.length_eq]

end Grid

/-! ## Complete matchings -/

/-- A complete matching of a square pattern is a permutation. -/
theorem ZeroPattern.Fits.exists_perm {p : ZeroPattern} {μ : Matching} {n : Nat}
    (hμ : p.Fits μ) (hrows : p.nrows = n) (hcols : p.ncols = n)
    (hcomplete : μ.isComplete = true) :
    ∃ σ : Equiv.Perm (Fin n), ∀ i : Fin n, μ.col? i = some (σ i : Nat) := by
  have hcol : ∀ i : Fin n, ∃ j : Fin n, μ.col? i = some (j : Nat) := by
    intro i
    have hi : (i : Nat) < μ.nrows := by
      rw [hμ.nrows_eq, hrows]
      exact i.isLt
    obtain ⟨j, hj⟩ := μ.isComplete_iff.mp hcomplete i hi
    have hlt := Matching.lt_ncols_of_row? ((hμ.consistent i j).mp hj)
    rw [hμ.ncols_eq, hcols] at hlt
    exact ⟨⟨j, hlt⟩, hj⟩
  choose f hf using hcol
  have hinj : Function.Injective f := by
    intro i i' heq
    have hi' := hf i'
    rw [← heq] at hi'
    exact Fin.ext (hμ.consistent.row_unique (hf i) hi')
  exact ⟨Equiv.ofBijective f (Finite.injective_iff_bijective.mp hinj), hf⟩

namespace Run

variable [Scalar K]

/-- **The pairs read off a complete matching are what its permutation leaves in the
    source.** -/
theorem realPairs_eq_pairsAlong (r : Run K) {μ : Matching} {n : Nat} (hn : μ.nrows = n)
    {σ : Equiv.Perm (Fin n)} (hσ : ∀ i : Fin n, μ.col? i = some (σ i : Nat)) :
    r.realPairs μ = r.source.toGrid.pairsAlong σ := by
  apply Grid.eq_of_ascending
  · unfold realPairs
    rw [List.pairwise_map]
    exact μ.pairs_ascending.filter _
  · exact Grid.pairsAlong_ascending
  · intro p
    rw [Grid.mem_pairsAlong]
    simp only [realPairs, List.mem_map, List.mem_filter, Prod.exists, Matching.mem_pairs,
      Bool.and_eq_true, decide_eq_true_eq]
    constructor
    · intro h
      obtain ⟨i, j, ⟨hij, hi, hj⟩, rfl⟩ := h
      have hlt : i < n := hn ▸ Matching.lt_nrows_of_col? hij
      have hcol : j = σ ⟨i, hlt⟩ := Option.some.inj (hij.symm.trans (hσ ⟨i, hlt⟩))
      exact ⟨⟨i, hlt⟩, by rw [← hcol], hi, hcol ▸ hj⟩
    · intro h
      obtain ⟨i, rfl, hi, hj⟩ := h
      exact ⟨i, σ i, ⟨hσ i, hi, hj⟩, rfl⟩

end Run

end LinearAssignment
