import LinearAssignment.LineCover
import LinearAssignment.Proofs.Augmentation

/-! # Lines against pairs

    No set of independent zeros is larger than a set of lines that meets every zero.  The
    marking that starts from the unpaired rows yields such lines, and as many as there are
    pairs when no free column is marked.  A matching and a cover of one size certify each
    other.

    * `Independent.card_le`: weak duality between independent zeros and covering lines.
    * `Fits.size_cover`: the cover exceeds the matching by the number of free columns that
      are marked.
    * `augment_isMaximum`: growing a matching of zeros reaches the largest size.
    * `Matches.cover_extremal`: among all smallest covers the one read off has the fewest
      columns and the most rows.
    * `IsMaximum.cover_eq`: it does not depend on the maximum matching it is read off. -/

namespace LinearAssignment

namespace LineCover

/-! ## The chosen lines as sets -/

/-- The chosen rows. -/
def rowSet (lines : LineCover) : Finset Nat :=
  (Finset.range lines.rows.length).filter fun i => lines.coversRow i = true

/-- The chosen columns. -/
def colSet (lines : LineCover) : Finset Nat :=
  (Finset.range lines.cols.length).filter fun j => lines.coversCol j = true

theorem lt_of_coversRow {lines : LineCover} {i : Nat} (h : lines.coversRow i = true) :
    i < lines.rows.length :=
  lt_length_of_getD_ne (by rw [show lines.rows[i]?.getD false = true from h]; decide)

theorem lt_of_coversCol {lines : LineCover} {j : Nat} (h : lines.coversCol j = true) :
    j < lines.cols.length :=
  lt_length_of_getD_ne (by rw [show lines.cols[j]?.getD false = true from h]; decide)

theorem mem_rowSet {lines : LineCover} {i : Nat} :
    i ∈ lines.rowSet ↔ lines.coversRow i = true := by
  simp only [rowSet, Finset.mem_filter, Finset.mem_range]
  exact ⟨fun h => h.2, fun h => ⟨lt_of_coversRow h, h⟩⟩

theorem mem_colSet {lines : LineCover} {j : Nat} :
    j ∈ lines.colSet ↔ lines.coversCol j = true := by
  simp only [colSet, Finset.mem_filter, Finset.mem_range]
  exact ⟨fun h => h.2, fun h => ⟨lt_of_coversCol h, h⟩⟩

theorem size_eq_card (lines : LineCover) :
    lines.size = lines.rowSet.card + lines.colSet.card := by
  have hrows : lines.rows.count true = lines.rowSet.card := by
    apply countP_eq_card_filter_range
    intro i b h
    simp [coversRow, h]
  have hcols : lines.cols.count true = lines.colSet.card := by
    apply countP_eq_card_filter_range
    intro j b h
    simp [coversCol, h]
  rw [size, hrows, hcols]

/-- Two lists of flags are equal when they agree at every position. -/
theorem flags_ext {xs ys : List Bool} (hlen : xs.length = ys.length)
    (h : ∀ i : Nat, xs[i]?.getD false = ys[i]?.getD false) : xs = ys := by
  apply List.ext_getElem hlen
  intro i hi hi'
  simpa [List.getElem?_eq_getElem hi, List.getElem?_eq_getElem hi'] using h i

/-- Covers of tables of one shape are equal when they choose the same lines. -/
theorem ext_covers {a b : LineCover} (hr : a.rows.length = b.rows.length)
    (hc : a.cols.length = b.cols.length) (hrows : ∀ i, a.coversRow i = b.coversRow i)
    (hcols : ∀ j, a.coversCol j = b.coversCol j) : a = b := by
  obtain ⟨ra, ca⟩ := a
  obtain ⟨rb, cb⟩ := b
  obtain rfl : ra = rb := flags_ext hr hrows
  obtain rfl : ca = cb := flags_ext hc hcols
  rfl

theorem length_rows_ofTests (m n : Nat) (row col : Nat → Bool) :
    (ofTests m n row col).rows.length = m := by
  simp [ofTests]

theorem length_cols_ofTests (m n : Nat) (row col : Nat → Bool) :
    (ofTests m n row col).cols.length = n := by
  simp [ofTests]

end LineCover

namespace ZeroPattern

variable {p : ZeroPattern} {μ ν : Matching} {cells : Finset (Nat × Nat)} {R C : Finset Nat}

/-! ## Weak duality -/

/-- Every zero lies in a row of `R` or a column of `C`. -/
def Covers (p : ZeroPattern) (R C : Finset Nat) : Prop :=
  ∀ i j, p.IsZero i j → i ∈ R ∨ j ∈ C

instance (p : ZeroPattern) (R C : Finset Nat) : Decidable (p.Covers R C) :=
  decidable_of_iff (∀ i < p.nrows, ∀ j ∈ p.zerosOf i, i ∈ R ∨ j ∈ C)
    ⟨fun h i j hz => h i hz.lt_nrows j hz, fun h i _ j hz => h i j hz⟩

theorem Independent.card_rows_le (h : p.Independent cells) :
    (cells.filter fun e => e.1 ∈ R).card ≤ R.card := by
  apply Finset.card_le_card_of_injOn Prod.fst
  · intro e he
    exact (Finset.mem_filter.mp he).2
  · exact h.rows_inj.mono (Finset.coe_subset.mpr (Finset.filter_subset ..))

theorem Independent.card_cols_le (h : p.Independent cells) :
    (cells.filter fun e => e.2 ∈ C).card ≤ C.card := by
  apply Finset.card_le_card_of_injOn Prod.snd
  · intro e he
    exact (Finset.mem_filter.mp he).2
  · exact h.cols_inj.mono (Finset.coe_subset.mpr (Finset.filter_subset ..))

theorem Independent.filter_union (h : p.Independent cells) (hcov : p.Covers R C) :
    (cells.filter fun e => e.1 ∈ R) ∪ (cells.filter fun e => e.2 ∈ C) = cells := by
  rw [← Finset.filter_or, Finset.filter_true_of_mem]
  exact fun e he => hcov e.1 e.2 (h.isZero e he)

/-- **Weak duality**: independent zeros are no more numerous than covering lines. -/
theorem Independent.card_le (h : p.Independent cells) (hcov : p.Covers R C) :
    cells.card ≤ R.card + C.card := by
  have hunion := Finset.card_union_le
    (cells.filter fun e => e.1 ∈ R) (cells.filter fun e => e.2 ∈ C)
  rw [h.filter_union hcov] at hunion
  have hrows := h.card_rows_le (R := R)
  have hcols := h.card_cols_le (C := C)
  omega

/-- When there are as many independent zeros as covering lines, none of them is covered
    twice and each covering row holds one. -/
theorem Independent.tight (h : p.Independent cells) (hcov : p.Covers R C)
    (hcard : R.card + C.card ≤ cells.card) :
    (∀ e ∈ cells, e.1 ∈ R → e.2 ∉ C) ∧ ∀ i ∈ R, ∃ e ∈ cells, e.1 = i := by
  have hsum := Finset.card_union_add_card_inter
    (cells.filter fun e => e.1 ∈ R) (cells.filter fun e => e.2 ∈ C)
  rw [h.filter_union hcov] at hsum
  have hrows := h.card_rows_le (R := R)
  have hcols := h.card_cols_le (C := C)
  constructor
  · -- A zero covered twice would lie in the intersection, which has no room for it.
    intro e he hr hc
    have hmem : e ∈ (cells.filter fun e => e.1 ∈ R) ∩ (cells.filter fun e => e.2 ∈ C) := by
      simp [he, hr, hc]
    have := Finset.card_pos.mpr ⟨e, hmem⟩
    omega
  · -- The zeros in covering rows are as many as these rows, one to each.
    have himage : (cells.filter fun e => e.1 ∈ R).image Prod.fst = R := by
      apply Finset.eq_of_subset_of_card_le
      · intro i hi
        obtain ⟨e, he, rfl⟩ := Finset.mem_image.mp hi
        exact (Finset.mem_filter.mp he).2
      · rw [Finset.card_image_of_injOn
          (h.rows_inj.mono (Finset.coe_subset.mpr (Finset.filter_subset ..)))]
        omega
    intro i hi
    rw [← himage] at hi
    obtain ⟨e, he, rfl⟩ := Finset.mem_image.mp hi
    exact ⟨e, (Finset.mem_filter.mp he).1, rfl⟩

/-! ## The marked lines -/

/-- Rows marked from the unpaired rows. -/
def Marked (p : ZeroPattern) (μ : Matching) (i : Nat) : Prop :=
  p.Reached μ (p.unpairedRows μ) i

/-- Columns marked from the unpaired rows. -/
def MarkedCol (p : ZeroPattern) (μ : Matching) (j : Nat) : Prop :=
  p.ReachedCol μ (p.unpairedRows μ) j

theorem mem_unpairedRows {i : Nat} :
    i ∈ p.unpairedRows μ ↔ i < p.nrows ∧ μ.col? i = none := by
  simp [unpairedRows]

theorem MarkedCol.lt_ncols {j : Nat} (h : p.MarkedCol μ j) : j < p.ncols := by
  obtain ⟨_, _, hz⟩ := h
  exact hz.lt_ncols

/-- A zero of a marked row marks its column. -/
theorem Marked.markedCol {i j : Nat} (h : p.Marked μ i) (hz : p.IsZero i j) :
    p.MarkedCol μ j :=
  ⟨i, h, hz⟩

/-- A marked row is unpaired, or its column is marked. -/
theorem Marked.cases_col (hμ : μ.Consistent) {i : Nat} (h : p.Marked μ i) :
    μ.col? i = none ∨ ∃ j, μ.col? i = some j ∧ p.MarkedCol μ j := by
  rcases h.cases_partner with hroot | ⟨j, hj, hrow⟩
  · exact .inl (mem_unpairedRows.mp hroot).2
  · exact .inr ⟨j, (hμ i j).mpr hrow, hj⟩

/-- The two lines of a pair are marked together. -/
theorem marked_iff_markedCol (hμ : μ.Consistent) {i j : Nat} (hij : μ.col? i = some j) :
    p.Marked μ i ↔ p.MarkedCol μ j := by
  constructor
  · intro h
    rcases h.cases_col hμ with hnone | ⟨j', hj', hmarked⟩
    · rw [hnone] at hij
      cases hij
    · rw [hj'] at hij
      exact Option.some.inj hij ▸ hmarked
  · intro h
    exact h.partner ((hμ i j).mp hij)

/-! ## The cover read off the marks -/

theorem length_rows_cover (p : ZeroPattern) (μ : Matching) :
    (p.cover μ).rows.length = p.nrows :=
  LineCover.length_rows_ofTests ..

theorem length_cols_cover (p : ZeroPattern) (μ : Matching) :
    (p.cover μ).cols.length = p.ncols :=
  LineCover.length_cols_ofTests ..

theorem coversRow_cover_iff {i : Nat} :
    (p.cover μ).coversRow i = true ↔ i < p.nrows ∧ ¬ p.Marked μ i := by
  have hmarked : i ∈ p.unpairedRows μ ++
      (p.pathsFrom μ (p.unpairedRows μ)).filterMap μ.next? ↔ p.Marked μ i := by
    rw [Marked, reached_iff, List.mem_append, List.mem_filterMap]
  rw [cover, LineCover.coversRow_ofTests, Bool.and_eq_true, decide_eq_true_iff,
    Bool.not_eq_true', ← Bool.not_eq_true, List.contains_iff_mem, hmarked]

theorem coversCol_cover_iff {j : Nat} :
    (p.cover μ).coversCol j = true ↔ p.MarkedCol μ j := by
  have hmarked : j ∈ (p.pathsFrom μ (p.unpairedRows μ)).filterMap (·.lastCol?) ↔
      p.MarkedCol μ j := by
    rw [MarkedCol, ← exists_mem_pathsFrom_iff, List.mem_filterMap]
  rw [cover, LineCover.coversCol_ofTests, Bool.and_eq_true, decide_eq_true_iff,
    List.contains_iff_mem, hmarked]
  exact ⟨fun h => h.2, fun h => ⟨h.lt_ncols, h⟩⟩

theorem mem_rowSet_cover {i : Nat} :
    i ∈ (p.cover μ).rowSet ↔ i < p.nrows ∧ ¬ p.Marked μ i := by
  rw [LineCover.mem_rowSet, coversRow_cover_iff]

theorem mem_colSet_cover {j : Nat} : j ∈ (p.cover μ).colSet ↔ p.MarkedCol μ j := by
  rw [LineCover.mem_colSet, coversCol_cover_iff]

theorem isUncovered_cover_iff {i j : Nat} :
    (p.cover μ).isUncovered i j = true ↔
      i < p.nrows ∧ j < p.ncols ∧ p.Marked μ i ∧ ¬ p.MarkedCol μ j := by
  simp only [LineCover.isUncovered, length_rows_cover, length_cols_cover, Bool.and_eq_true,
    decide_eq_true_iff, Bool.not_eq_true', ← Bool.not_eq_true, coversRow_cover_iff,
    coversCol_cover_iff, not_and, not_not]
  constructor
  · intro h
    obtain ⟨⟨⟨hi, hj⟩, hrow⟩, hcol⟩ := h
    exact ⟨hi, hj, hrow hi, hcol⟩
  · intro h
    obtain ⟨hi, hj, hrow, hcol⟩ := h
    exact ⟨⟨⟨hi, hj⟩, fun _ => hrow⟩, hcol⟩

theorem isDoublyCovered_cover_iff {i j : Nat} :
    (p.cover μ).isDoublyCovered i j = true ↔
      i < p.nrows ∧ ¬ p.Marked μ i ∧ p.MarkedCol μ j := by
  rw [LineCover.isDoublyCovered, Bool.and_eq_true, coversRow_cover_iff, coversCol_cover_iff,
    and_assoc]

/-- The cover meets every zero, whatever the matching. -/
theorem covers_cover (p : ZeroPattern) (μ : Matching) :
    p.Covers (p.cover μ).rowSet (p.cover μ).colSet := by
  intro i j hz
  rw [mem_rowSet_cover, mem_colSet_cover]
  by_cases h : p.Marked μ i
  · exact .inr (h.markedCol hz)
  · exact .inl ⟨hz.lt_nrows, h⟩

/-- A row that is not marked is paired. -/
theorem rowSet_cover_subset (p : ZeroPattern) (μ : Matching) :
    (p.cover μ).rowSet ⊆ μ.pairedRows := by
  intro i hi
  obtain ⟨hlt, hnot⟩ := mem_rowSet_cover.mp hi
  rw [Matching.mem_pairedRows, ← Option.ne_none_iff_exists']
  exact fun hnone => hnot (.root (mem_unpairedRows.mpr ⟨hlt, hnone⟩))

/-- Marked rows that are paired and marked columns that are paired are equally many. -/
theorem card_marked_pairs (hμ : p.Fits μ) :
    (μ.pairedRows \ (p.cover μ).rowSet).card = ((p.cover μ).colSet ∩ μ.pairedCols).card := by
  have hmem : ∀ i, i ∈ μ.pairedRows \ (p.cover μ).rowSet ↔
      (∃ j, μ.col? i = some j) ∧ p.Marked μ i := by
    intro i
    rw [Finset.mem_sdiff, mem_rowSet_cover, Matching.mem_pairedRows]
    constructor
    · intro h
      obtain ⟨⟨j, hj⟩, hnot⟩ := h
      refine ⟨⟨j, hj⟩, ?_⟩
      by_contra hmarked
      exact hnot ⟨hμ.nrows_eq ▸ Matching.lt_nrows_of_col? hj, hmarked⟩
    · intro h
      obtain ⟨hpaired, hmarked⟩ := h
      exact ⟨hpaired, fun hrow => hrow.2 hmarked⟩
  -- Sending a row to its column is the bijection: the two are marked together.
  apply Finset.card_bij (fun i _ => (μ.col? i).getD 0)
  · intro i hi
    obtain ⟨⟨j, hj⟩, hmarked⟩ := (hmem i).mp hi
    simp only [hj, Option.getD_some, Finset.mem_inter, mem_colSet_cover,
      Matching.mem_pairedCols]
    exact ⟨(marked_iff_markedCol hμ.consistent hj).mp hmarked, i, (hμ.consistent i j).mp hj⟩
  · intro i hi i' hi' heq
    obtain ⟨⟨j, hj⟩, _⟩ := (hmem i).mp hi
    obtain ⟨⟨j', hj'⟩, _⟩ := (hmem i').mp hi'
    simp only [hj, hj', Option.getD_some] at heq
    exact hμ.consistent.row_unique hj (heq ▸ hj')
  · intro j hj
    obtain ⟨hmarked, hpaired⟩ := Finset.mem_inter.mp hj
    obtain ⟨i, hi⟩ := Matching.mem_pairedCols.mp hpaired
    have hcol := (hμ.consistent i j).mpr hi
    refine ⟨i, (hmem i).mpr ⟨⟨j, hcol⟩, ?_⟩, by simp [hcol]⟩
    exact (marked_iff_markedCol hμ.consistent hcol).mpr (mem_colSet_cover.mp hmarked)

/-- The cover has one line for every pair, and one more for every free column marked. -/
theorem Fits.size_cover (hμ : p.Fits μ) :
    (p.cover μ).size = μ.size + ((p.cover μ).colSet \ μ.pairedCols).card := by
  have hrows := Finset.card_sdiff_add_card_eq_card (p.rowSet_cover_subset μ)
  have hcols := Finset.card_inter_add_card_sdiff (p.cover μ).colSet μ.pairedCols
  have hpairs := card_marked_pairs hμ
  -- Paired rows are unmarked or marked, and marked columns are paired or free.
  rw [LineCover.size_eq_card, Matching.size_eq_card_pairedRows]
  omega

/-! ## Maximum matchings -/

/-- When every marked column is paired, the cover has one line for every pair. -/
theorem Fits.size_cover_eq (hμ : p.Fits μ)
    (hpaired : ∀ j, p.MarkedCol μ j → ∃ i, μ.row? j = some i) :
    (p.cover μ).size = μ.size := by
  have hempty : (p.cover μ).colSet \ μ.pairedCols = ∅ := by
    rw [Finset.sdiff_eq_empty_iff_subset]
    exact fun j hj => Matching.mem_pairedCols.mpr (hpaired j (mem_colSet_cover.mp hj))
  rw [hμ.size_cover, hempty, Finset.card_empty, Nat.add_zero]

/-- A matching of zeros that marks no free column is maximum. -/
theorem Matches.isMaximum (hμ : p.Matches μ)
    (hpaired : ∀ j, p.MarkedCol μ j → ∃ i, μ.row? j = some i) : p.IsMaximum μ where
  toMatches := hμ
  card_le := by
    intro cells hcells
    have := hcells.card_le (p.covers_cover μ)
    rwa [← LineCover.size_eq_card, hμ.size_cover_eq hpaired] at this

/-- **Growing a matching of zeros makes it maximum.** -/
theorem augment_isMaximum (hμ : p.Matches μ) : p.IsMaximum (p.augment μ) := by
  apply hμ.augment.isMaximum
  -- A marked column is reached from one unpaired row, and that row is exhausted.
  intro j hj
  obtain ⟨r, hr, hreached⟩ := ReachedCol.exists_root hj
  obtain ⟨hlt, hnone⟩ := mem_unpairedRows.mp hr
  rcases augment_settled hμ.toFits hlt with hpaired | hexh
  · obtain ⟨c, hc⟩ := Matching.mem_pairedRows.mp hpaired
    rw [hnone] at hc
    cases hc
  · exact hexh j hreached

/-- A maximum matching has no augmenting path. -/
theorem IsMaximum.exhausted (hμ : p.IsMaximum μ) {i : Nat} (hi : μ.col? i = none) :
    p.Exhausted μ i := by
  rw [← augmentingPath?_eq_none_iff]
  by_contra hne
  -- Flipping a path that was found would make a matching of zeros with one pair more.
  obtain ⟨path, hpath⟩ := Option.ne_none_iff_exists'.mp hne
  have haug := augmenting_of_augmentingPath? hi hpath
  have hle := hμ.size_le (haug.matches_flip hμ.toMatches)
  have hnot : i ∉ μ.pairedRows := by
    rw [Matching.mem_pairedRows]
    intro h
    obtain ⟨j, hj⟩ := h
    rw [hi] at hj
    cases hj
  rw [Matching.size_eq_card_pairedRows, Matching.size_eq_card_pairedRows,
    haug.pairedRows_flip hμ.toFits, Finset.card_insert_of_notMem hnot] at hle
  omega

/-- Columns marked from a maximum matching are paired. -/
theorem IsMaximum.exists_row (hμ : p.IsMaximum μ) {j : Nat} (hj : p.MarkedCol μ j) :
    ∃ i, μ.row? j = some i := by
  obtain ⟨r, hr, hreached⟩ := ReachedCol.exists_root hj
  exact hμ.exhausted (mem_unpairedRows.mp hr).2 j hreached

/-- **The cover read off a maximum matching has as many lines as the matching has pairs.** -/
theorem IsMaximum.size_cover (hμ : p.IsMaximum μ) : (p.cover μ).size = μ.size :=
  hμ.size_cover_eq fun _ => hμ.exists_row

/-! ## All smallest covers -/

/-- Every cover with as many lines as the matching has pairs avoids the marked rows and
    contains the marked columns. -/
theorem Matches.cover_extremal (hμ : p.Matches μ) (hcov : p.Covers R C)
    (hcard : R.card + C.card ≤ μ.size) :
    (∀ i, p.Marked μ i → i ∉ R) ∧ ∀ j, p.MarkedCol μ j → j ∈ C := by
  rw [← μ.card_cells] at hcard
  obtain ⟨honce, hheld⟩ := hμ.independent.tight hcov hcard
  have hrows : ∀ i, p.Marked μ i → i ∉ R := by
    intro i hi
    -- The induction is on the marking, root first.
    induction hi with
    | @root i hroot =>
      -- Each row of the cover holds a pair, and a root has none.
      intro hR
      obtain ⟨⟨i', j⟩, he, rfl⟩ := hheld i hR
      have hpair := Matching.mem_cells.mp he
      rw [(mem_unpairedRows.mp hroot).2] at hpair
      cases hpair
    | @step i j i' _ hz hrow ih =>
      -- The zero has to be covered by its column, so the pair there is not covered by its row.
      intro hR
      have hC : j ∈ C := (hcov i j hz).resolve_left ih
      have hpair := Matching.mem_cells.mpr ((hμ.consistent i' j).mpr hrow)
      exact honce (i', j) hpair hR hC
  refine ⟨hrows, ?_⟩
  -- A marked column holds a zero of a marked row, which no row of the cover meets.
  intro j hj
  obtain ⟨i, hi, hz⟩ := hj
  exact (hcov i j hz).resolve_left (hrows i hi)

/-- The cover read off a maximum matching has the fewest columns and the most rows of all
    covers of its size. -/
theorem IsMaximum.cover_subset (hμ : p.IsMaximum μ) (hcov : p.Covers R C)
    (hcard : R.card + C.card ≤ μ.size) :
    (p.cover μ).colSet ⊆ C ∧ R ⊆ (p.cover μ).rowSet := by
  obtain ⟨hrows, hcols⟩ := hμ.cover_extremal hcov hcard
  constructor
  · exact fun j hj => hcols j (mem_colSet_cover.mp hj)
  · intro i hi
    refine mem_rowSet_cover.mpr ⟨?_, fun hmarked => hrows i hmarked hi⟩
    -- A row of the cover holds a pair, so it lies in the table.
    rw [← μ.card_cells] at hcard
    obtain ⟨e, he, rfl⟩ := (hμ.independent.tight hcov hcard).2 i hi
    rw [← hμ.nrows_eq]
    exact Matching.lt_nrows_of_col? (Matching.mem_cells.mp he)

/-- Marks made from two maximum matchings agree. -/
theorem IsMaximum.marked_mono (hμ : p.IsMaximum μ) (hν : p.IsMaximum ν) :
    (∀ i, i < p.nrows → p.Marked μ i → p.Marked ν i) ∧
      ∀ j, p.MarkedCol μ j → p.MarkedCol ν j := by
  -- The lines read off the other matching are as few as can be, so they obey the first.
  have hcard : (p.cover ν).rowSet.card + (p.cover ν).colSet.card ≤ μ.size := by
    rw [← LineCover.size_eq_card, hν.size_cover]
    exact hμ.size_le hν.toMatches
  obtain ⟨hrows, hcols⟩ := hμ.cover_extremal (p.covers_cover ν) hcard
  constructor
  · intro i hlt hi
    by_contra hnot
    exact hrows i hi (mem_rowSet_cover.mpr ⟨hlt, hnot⟩)
  · intro j hj
    exact mem_colSet_cover.mp (hcols j hj)

/-- **The cover does not depend on which maximum matching it is read off.** -/
theorem IsMaximum.cover_eq (hμ : p.IsMaximum μ) (hν : p.IsMaximum ν) :
    p.cover μ = p.cover ν := by
  obtain ⟨hrows, hcols⟩ := hμ.marked_mono hν
  obtain ⟨hrows', hcols'⟩ := hν.marked_mono hμ
  apply LineCover.ext_covers
  · rw [length_rows_cover, length_rows_cover]
  · rw [length_cols_cover, length_cols_cover]
  · intro i
    rw [Bool.eq_iff_iff, coversRow_cover_iff, coversRow_cover_iff]
    exact and_congr_right fun hlt => not_congr ⟨hrows i hlt, hrows' i hlt⟩
  · intro j
    rw [Bool.eq_iff_iff, coversCol_cover_iff, coversCol_cover_iff]
    exact ⟨hcols j, hcols' j⟩

end ZeroPattern

end LinearAssignment
