import Mathlib.Data.Finset.Card
import Mathlib.Data.Nat.Count
import LinearAssignment.Matching.Basic
import LinearAssignment.ZeroPattern

/-! # Matchings as partial bijections

    A matching keeps two lists, the column of each row and the row of each column.  This
    module says when the two agree, counts pairs as finite sets, and ties a matching to the
    zeros of a pattern.

    * `Matching.Consistent`: the two lists are inverse to each other.
    * `ZeroPattern.Fits`: a consistent matching of the shape of a pattern.
    * `ZeroPattern.Matches`: one whose pairs are zeros of the pattern.
    * `ZeroPattern.Independent`: zeros no two of which share a row or a column; the pairs
      of a matching are such a set. -/

namespace LinearAssignment

/-! ## Counting entries of a list by their positions -/

/-- Counting the entries of a list that pass a test is counting their positions. -/
theorem countP_eq_card_filter_range {α : Type} (l : List α) (test : α → Bool)
    (atPlace : Nat → Bool) (h : ∀ i a, l[i]? = some a → atPlace i = test a) :
    l.countP test = ((Finset.range l.length).filter fun i => atPlace i = true).card := by
  -- The results of the test are the same list, read off the entries or off the places.
  have hmap : l.map test = (List.range l.length).map atPlace := by
    apply List.ext_getElem?
    intro i
    rcases Nat.lt_or_ge i l.length with hi | hi
    · simp [hi, h i l[i] (List.getElem?_eq_getElem hi)]
    · simp [hi]
  have hcount : l.countP test = (List.range l.length).countP atPlace := by
    have := congrArg (List.countP id) hmap
    simpa [List.countP_map, Function.comp_def] using this
  rw [hcount, ← Nat.count_eq_card_filter_range]
  simp [Nat.count]

/-- What differs from the value assumed outside a list stands inside it. -/
theorem lt_length_of_getD_ne {α : Type} {l : List α} {i : Nat} {default : α}
    (h : l[i]?.getD default ≠ default) : i < l.length := by
  by_contra hlt
  have hnone : l[i]? = none := List.getElem?_eq_none (by omega)
  rw [hnone] at h
  exact h rfl

namespace Matching

/-! ## Entries -/

theorem lt_nrows_of_col? {μ : Matching} {i j : Nat} (h : μ.col? i = some j) :
    i < μ.nrows :=
  lt_length_of_getD_ne (by rw [show μ.colOfRow[i]?.getD none = some j from h]; simp)

theorem lt_ncols_of_row? {μ : Matching} {i j : Nat} (h : μ.row? j = some i) :
    j < μ.ncols :=
  lt_length_of_getD_ne (by rw [show μ.rowOfCol[j]?.getD none = some i from h]; simp)

/-- The column of each row and the row of each column are inverse to each other. -/
def Consistent (μ : Matching) : Prop := ∀ i j, μ.col? i = some j ↔ μ.row? j = some i

/-- Only lines with a partner have to be looked at. -/
instance (μ : Matching) : Decidable μ.Consistent :=
  decidable_of_iff ((∀ i < μ.nrows, ∀ j ∈ μ.col? i, μ.row? j = some i) ∧
      ∀ j < μ.ncols, ∀ i ∈ μ.row? j, μ.col? i = some j)
    ⟨fun h i j => ⟨fun hj => h.1 i (lt_nrows_of_col? hj) j hj,
        fun hi => h.2 j (lt_ncols_of_row? hi) i hi⟩,
      fun h => ⟨fun i _ j hj => (h i j).mp hj, fun j _ i hi => (h i j).mpr hi⟩⟩

theorem consistent_empty (m n : Nat) : (empty m n).Consistent := by
  intro i j
  simp

/-- Two rows with one column are one row. -/
theorem Consistent.row_unique {μ : Matching} (h : μ.Consistent) {i i' j : Nat}
    (hi : μ.col? i = some j) (hi' : μ.col? i' = some j) : i = i' := by
  have h1 := (h i j).mp hi
  have h2 := (h i' j).mp hi'
  rw [h1] at h2
  exact Option.some.inj h2

/-! ## Paired lines and the number of pairs -/

/-- The rows that have a partner. -/
def pairedRows (μ : Matching) : Finset Nat :=
  (Finset.range μ.nrows).filter fun i => (μ.col? i).isSome = true

/-- The columns that have a partner. -/
def pairedCols (μ : Matching) : Finset Nat :=
  (Finset.range μ.ncols).filter fun j => (μ.row? j).isSome = true

theorem mem_pairedRows {μ : Matching} {i : Nat} :
    i ∈ μ.pairedRows ↔ ∃ j, μ.col? i = some j := by
  simp only [pairedRows, Finset.mem_filter, Finset.mem_range, Option.isSome_iff_exists]
  exact ⟨fun h => h.2, fun ⟨j, h⟩ => ⟨lt_nrows_of_col? h, j, h⟩⟩

theorem mem_pairedCols {μ : Matching} {j : Nat} :
    j ∈ μ.pairedCols ↔ ∃ i, μ.row? j = some i := by
  simp only [pairedCols, Finset.mem_filter, Finset.mem_range, Option.isSome_iff_exists]
  exact ⟨fun h => h.2, fun ⟨i, h⟩ => ⟨lt_ncols_of_row? h, i, h⟩⟩

theorem size_eq_card_pairedRows (μ : Matching) : μ.size = μ.pairedRows.card := by
  unfold size pairedRows nrows
  apply countP_eq_card_filter_range
  intro i col h
  simp [col?, h]

theorem isComplete_iff (μ : Matching) :
    μ.isComplete = true ↔ ∀ i < μ.nrows, ∃ j, μ.col? i = some j := by
  simp only [isComplete, List.all_eq_true, nrows, col?]
  constructor
  · intro h i hi
    have := h _ (List.getElem_mem hi)
    obtain ⟨j, hj⟩ := Option.isSome_iff_exists.mp this
    exact ⟨j, by simp [hi, hj]⟩
  · intro h col hcol
    obtain ⟨i, hi, rfl⟩ := List.getElem_of_mem hcol
    obtain ⟨j, hj⟩ := h i hi
    simp only [List.getElem?_eq_getElem hi, Option.getD_some] at hj
    simp [hj]

theorem size_le_nrows (μ : Matching) : μ.size ≤ μ.nrows := by
  unfold size nrows
  exact List.countP_le_length

/-- Every row is paired exactly when there are as many pairs as rows. -/
theorem isComplete_iff_size (μ : Matching) : μ.isComplete = true ↔ μ.size = μ.nrows := by
  unfold isComplete size nrows
  rw [List.countP_eq_length, List.all_eq_true]

/-! ## The list of pairs -/

theorem mem_pairs {μ : Matching} {i j : Nat} : (i, j) ∈ μ.pairs ↔ μ.col? i = some j := by
  unfold pairs col?
  simp only [List.mem_filterMap, Prod.exists, List.mk_mem_zipIdx_iff_getElem?,
    Option.map_eq_some_iff, Prod.mk.injEq]
  constructor
  · intro h
    obtain ⟨col, row, hrow, _, rfl, rfl, rfl⟩ := h
    simp [hrow]
  · intro h
    cases hi : μ.colOfRow[i]? with
    | none => simp [hi] at h
    | some col => exact ⟨col, i, hi, j, by simpa [hi] using h, rfl, rfl⟩

/-- A row is in no pair when it has no column. -/
theorem forall_not_mem_pairs {μ : Matching} {i : Nat} :
    (∀ j, (i, j) ∉ μ.pairs) ↔ μ.col? i = none := by
  rw [Option.eq_none_iff_forall_ne_some]
  exact forall_congr' fun j => not_congr mem_pairs

theorem Consistent.mem_pairs {μ : Matching} (h : μ.Consistent) {i j : Nat} :
    (i, j) ∈ μ.pairs ↔ μ.row? j = some i :=
  Matching.mem_pairs.trans (h i j)

/-- In a consistent matching a column is in no pair when it has no row. -/
theorem Consistent.forall_not_mem_pairs {μ : Matching} (h : μ.Consistent) {j : Nat} :
    (∀ i, (i, j) ∉ μ.pairs) ↔ μ.row? j = none := by
  rw [Option.eq_none_iff_forall_ne_some]
  exact forall_congr' fun i => not_congr h.mem_pairs

/-- The pairs are listed in strictly ascending order of their rows. -/
theorem pairs_ascending (μ : Matching) : μ.pairs.Pairwise fun a b => a.1 < b.1 := by
  unfold pairs
  have hidx : μ.colOfRow.zipIdx.Pairwise fun a b => a.2 < b.2 := by
    rw [← List.pairwise_map (f := Prod.snd), List.zipIdx_map_snd]
    exact List.pairwise_lt_range'
  apply List.Pairwise.filterMap _ _ hidx
  -- A pair keeps the index of its entry as its row.
  intro e e' hlt a ha b hb
  obtain ⟨_, _, rfl⟩ := Option.map_eq_some_iff.mp ha
  obtain ⟨_, _, rfl⟩ := Option.map_eq_some_iff.mp hb
  exact hlt

theorem rows_nodup (μ : Matching) : (μ.pairs.map Prod.fst).Nodup :=
  (List.pairwise_map.mpr μ.pairs_ascending).imp Nat.ne_of_lt

theorem pairs_nodup (μ : Matching) : μ.pairs.Nodup := μ.rows_nodup.of_map _

/-- The pairs as a set of cells. -/
def cells (μ : Matching) : Finset (Nat × Nat) := μ.pairs.toFinset

theorem mem_cells {μ : Matching} {i j : Nat} : (i, j) ∈ μ.cells ↔ μ.col? i = some j := by
  simp [cells, mem_pairs]

/-- A row has one pair at most. -/
theorem eq_of_mem_cells {μ : Matching} {e e' : Nat × Nat} (he : e ∈ μ.cells)
    (he' : e' ∈ μ.cells) (heq : e.1 = e'.1) : e = e' := by
  have h1 : μ.col? e.1 = some e.2 := mem_cells.mp he
  have h2 : μ.col? e'.1 = some e'.2 := mem_cells.mp he'
  rw [← heq, h1] at h2
  exact Prod.ext heq (Option.some.inj h2)

theorem card_cells (μ : Matching) : μ.cells.card = μ.size := by
  rw [size_eq_card_pairedRows]
  apply Finset.card_bij (fun e _ => e.1)
  · intro e he
    exact mem_pairedRows.mpr ⟨e.2, mem_cells.mp he⟩
  · intro e he e' he' heq
    exact eq_of_mem_cells he he' heq
  · intro i hi
    obtain ⟨j, hj⟩ := mem_pairedRows.mp hi
    exact ⟨(i, j), mem_cells.mpr hj, rfl⟩

theorem length_pairs (μ : Matching) : μ.pairs.length = μ.size := by
  rw [← card_cells, cells, List.toFinset_card_of_nodup μ.pairs_nodup]

/-- In a consistent matching a column has one pair at most. -/
theorem Consistent.eq_of_mem_cells {μ : Matching} (h : μ.Consistent) {e e' : Nat × Nat}
    (he : e ∈ μ.cells) (he' : e' ∈ μ.cells) (heq : e.2 = e'.2) : e = e' := by
  have h1 : μ.col? e.1 = some e.2 := mem_cells.mp he
  have h2 : μ.col? e'.1 = some e'.2 := mem_cells.mp he'
  rw [← heq] at h2
  exact Prod.ext (h.row_unique h1 h2) heq

theorem Consistent.cols_nodup {μ : Matching} (h : μ.Consistent) :
    (μ.pairs.map Prod.snd).Nodup := by
  refine List.Nodup.map_on (fun e he e' he' heq => ?_) μ.pairs_nodup
  exact h.eq_of_mem_cells (List.mem_toFinset.mpr he) (List.mem_toFinset.mpr he') heq

/-- As many columns are paired as rows. -/
theorem Consistent.card_pairedCols {μ : Matching} (h : μ.Consistent) :
    μ.pairedCols.card = μ.size := by
  rw [← card_cells]
  symm
  apply Finset.card_bij (fun e _ => e.2)
  · intro e he
    exact mem_pairedCols.mpr ⟨e.1, (h e.1 e.2).mp (mem_cells.mp he)⟩
  · intro e he e' he' heq
    exact h.eq_of_mem_cells he he' heq
  · intro j hj
    obtain ⟨i, hi⟩ := mem_pairedCols.mp hj
    exact ⟨(i, j), mem_cells.mpr ((h i j).mpr hi), rfl⟩

end Matching

namespace ZeroPattern

/-! ## Matchings of a pattern -/

/-- A consistent matching between the rows and the columns of the pattern. -/
structure Fits (p : ZeroPattern) (μ : Matching) : Prop where
  nrows_eq : μ.nrows = p.nrows
  ncols_eq : μ.ncols = p.ncols
  consistent : μ.Consistent

/-- A matching of the pattern all of whose pairs are zeros. -/
structure Matches (p : ZeroPattern) (μ : Matching) : Prop extends p.Fits μ where
  isZero : ∀ i j, μ.col? i = some j → p.IsZero i j

/-- An incomplete matching leaves a row of the pattern unpaired. -/
theorem Fits.exists_unpaired {p : ZeroPattern} {μ : Matching} (h : p.Fits μ)
    (hinc : μ.isComplete = false) : ∃ i < p.nrows, μ.col? i = none := by
  by_contra hall
  push Not at hall
  have hcomplete : μ.isComplete = true := by
    rw [μ.isComplete_iff]
    intro i hi
    exact Option.ne_none_iff_exists'.mp (hall i (h.nrows_eq ▸ hi))
  rw [hcomplete] at hinc
  cases hinc

theorem Fits.size_lt {p : ZeroPattern} {μ : Matching} (h : p.Fits μ)
    (hinc : μ.isComplete = false) : μ.size < p.nrows := by
  rw [← h.nrows_eq]
  refine Nat.lt_of_le_of_ne μ.size_le_nrows fun heq => ?_
  rw [μ.isComplete_iff_size.mpr heq] at hinc
  cases hinc

theorem fits_empty (p : ZeroPattern) : p.Fits (.empty p.nrows p.ncols) where
  nrows_eq := by simp
  ncols_eq := by simp
  consistent := Matching.consistent_empty _ _

theorem matches_empty (p : ZeroPattern) : p.Matches (.empty p.nrows p.ncols) where
  toFits := p.fits_empty
  isZero := by simp

/-- Zeros no two of which lie in one row or in one column. -/
structure Independent (p : ZeroPattern) (cells : Finset (Nat × Nat)) : Prop where
  isZero : ∀ e ∈ cells, p.IsZero e.1 e.2
  rows_inj : Set.InjOn Prod.fst (cells : Set (Nat × Nat))
  cols_inj : Set.InjOn Prod.snd (cells : Set (Nat × Nat))

theorem Matches.independent {p : ZeroPattern} {μ : Matching} (h : p.Matches μ) :
    p.Independent μ.cells where
  isZero := by
    intro e he
    exact h.isZero e.1 e.2 (Matching.mem_cells.mp he)
  rows_inj := by
    intro e he e' he' heq
    exact Matching.eq_of_mem_cells he he' heq
  cols_inj := by
    intro e he e' he' heq
    exact h.consistent.eq_of_mem_cells he he' heq

/-- A matching of the pattern that no independent set of zeros exceeds in number. -/
structure IsMaximum (p : ZeroPattern) (μ : Matching) : Prop extends p.Matches μ where
  card_le : ∀ cells, p.Independent cells → cells.card ≤ μ.size

theorem IsMaximum.size_le {p : ZeroPattern} {μ ν : Matching} (h : p.IsMaximum μ)
    (hν : p.Matches ν) : ν.size ≤ μ.size := by
  rw [← ν.card_cells]
  exact h.card_le _ hν.independent

end ZeroPattern

end LinearAssignment
