import LinearAssignment.Proofs.Validation

/-! # Matrices stored column by column

    A matrix can be kept as one list of values, one column after the other, while it is handed
    over and given back row by row.  Quotient and remainder by the number of rows lead from a
    place in the list to a cell, and the way through the list is the way through the cells
    column by column.

    * `getElem?_flatten_mul_add`: places in a list that is cut into pieces of one length.
    * `Stored`: the stored matrix; `Stored.grid` is the matrix as a grid.
    * `Stored.data_eq`, `Stored.data_perm_cells`: the list holds the columns of the grid, that is
      the cells in another order.
    * `Stored.exists_ofRowOrder?`: the values of a grid, listed row by row, are stored as it.
    * `Grid.IsFirstNonFinite`: where a search for a cell that is not finite stops, reading rows
      or columns.
    * `Stored.fault?`: the checks of a stored matrix. -/

namespace LinearAssignment

open Scalar

/-! ## Pieces of one length -/

section Pieces

variable {α β : Type}

theorem length_flatten_of_length {pieces : List (List α)} {n : Nat}
    (h : ∀ piece ∈ pieces, piece.length = n) : pieces.flatten.length = pieces.length * n := by
  rw [List.length_flatten, List.map_congr_left h, List.map_const', List.sum_replicate_nat]

/-- Among pieces of one length, the number of the piece and the place in it tell the place in
    the whole list. -/
theorem getElem?_flatten_mul_add {pieces : List (List α)} {n : Nat}
    (h : ∀ piece ∈ pieces, piece.length = n) (i : Nat) {j : Nat} (hj : j < n) :
    pieces.flatten[i * n + j]? = pieces[i]?.bind (·[j]?) := by
  induction pieces generalizing i with
  | nil => rfl
  | cons piece pieces ih =>
    obtain ⟨hpiece, hpieces⟩ := List.forall_mem_cons.mp h
    rw [List.flatten_cons]
    cases i with
    | zero =>
      rw [Nat.zero_mul, Nat.zero_add, List.getElem?_append_left (by omega)]
      rfl
    | succ i =>
      have hplace : (i + 1) * n + j = piece.length + (i * n + j) := by
        rw [Nat.succ_mul, hpiece]
        omega
      rw [hplace, List.getElem?_append_right (by omega), Nat.add_sub_cancel_left]
      exact ih hpieces i

/-- A function that is defined on a list keeps the places of the list. -/
theorem getElem?_filterMap_of_forall {f : α → Option β} {l : List α}
    (h : ∀ a ∈ l, ∃ b, f a = some b) (i : Nat) : (l.filterMap f)[i]? = l[i]?.bind f := by
  have hi := congrArg (·[i]?) (map_eq_map_some_filterMap h)
  simp only [List.getElem?_map] at hi
  cases ha : l[i]? <;> cases hb : (l.filterMap f)[i]? <;> simp_all

theorem length_filterMap_of_forall {f : α → Option β} {l : List α}
    (h : ∀ a ∈ l, ∃ b, f a = some b) : (l.filterMap f).length = l.length := by
  simpa using (congrArg List.length (map_eq_map_some_filterMap h)).symm

/-- A list read place by place. -/
theorem filterMap_range_getElem? (l : List α) : (List.range l.length).filterMap (l[·]?) = l := by
  have hdefined : ∀ i ∈ List.range l.length, ∃ a, l[i]? = some a :=
    fun i hi => ⟨_, List.getElem?_eq_getElem (List.mem_range.mp hi)⟩
  apply List.ext_getElem?
  intro i
  rw [getElem?_filterMap_of_forall hdefined]
  by_cases hi : i < l.length
  · rw [List.getElem?_range hi]
    rfl
  · rw [List.getElem?_eq_none (by simpa using hi), List.getElem?_eq_none (by simpa using hi)]
    rfl

end Pieces

/-! ## Columns of a grid -/

namespace Grid

variable {K : Type} (g : Grid K)

theorem exists_getElem?_of_lt_ncols {j : Nat} (hj : j < g.ncols) :
    ∀ row ∈ g.rows, ∃ v, row[j]? = some v := by
  intro row hrow
  exact ⟨_, List.getElem?_eq_getElem (by rw [g.rect row hrow]; exact hj)⟩

theorem getElem?_column {j : Nat} (hj : j < g.ncols) (i : Nat) :
    (g.column j)[i]? = g.cell? i j :=
  getElem?_filterMap_of_forall (g.exists_getElem?_of_lt_ncols hj) i

theorem length_of_mem_columns : ∀ column ∈ g.columns, column.length = g.nrows :=
  g.transpose.rect

/-- The table of the columns has the cells of the grid, at mirrored positions. -/
theorem cell?_columns (i j : Nat) : RawTable.cell? g.columns j i = g.cell? i j := by
  unfold RawTable.cell? columns
  rw [List.getElem?_map]
  by_cases hj : j < g.ncols
  · rw [List.getElem?_range hj, Option.map_some, Option.bind_some, g.getElem?_column hj]
  · rw [List.getElem?_eq_none (by simpa using hj), Option.map_none, Option.bind_none]
    exact ((g.cell?_eq_none_iff i j).mpr (.inr (Nat.le_of_not_lt hj))).symm

/-- **Column by column one reads the same values as row by row.** -/
theorem flatten_columns_perm_cells : g.columns.flatten.Perm g.cells := by
  obtain ⟨n, rows, hrect⟩ := g
  show ((List.range n).flatMap fun j => rows.filterMap fun row => row[j]?).Perm rows.flatten
  induction rows with
  | nil => simp
  | cons row rows ih =>
    obtain ⟨hrow, hrows⟩ := List.forall_mem_cons.mp hrect
    -- Every column begins with a value of the first row.
    have hsplit : ∀ j : Nat, ((row :: rows).filterMap fun row => row[j]?) =
        row[j]?.toList ++ rows.filterMap fun row => row[j]? := by
      intro j
      cases hj : row[j]? <;> simp [hj]
    have hfirst : ((List.range n).flatMap fun j => row[j]?.toList) = row := by
      rw [← hrow, ← List.filterMap_eq_flatMap_toList, filterMap_range_getElem?]
    simp only [hsplit]
    refine (List.flatMap_append_perm _ _ _).symm.trans ?_
    rw [hfirst, List.flatten_cons]
    exact (ih hrows).append_left row

end Grid

/-! ## Stored matrices -/

/-- A matrix kept as one list of values, one column after the other. -/
structure Stored (K : Type) where
  /-- Number of rows. -/
  nrows : Nat
  /-- Number of columns. -/
  ncols : Nat
  /-- The values. -/
  data : List K
  /-- There is one value for each cell. -/
  length_data : data.length = nrows * ncols

namespace Stored

variable {K : Type} (m : Stored K)

/-- The value at row `i` and column `j`, `none` outside the matrix. -/
def cell? (i j : Nat) : Option K := if i < m.nrows then m.data[j * m.nrows + i]? else none

theorem cell?_isSome_iff (i j : Nat) : (m.cell? i j).isSome ↔ i < m.nrows ∧ j < m.ncols := by
  unfold cell?
  split
  · next hi =>
    have hpos : 0 < m.nrows := by omega
    have hcolumn : (j * m.nrows + i) / m.nrows = j := by
      rw [Nat.mul_comm, Nat.mul_add_div hpos, Nat.div_eq_of_lt hi, Nat.add_zero]
    rw [isSome_getElem?, m.length_data, Nat.mul_comm m.nrows, ← Nat.div_lt_iff_lt_mul hpos, hcolumn]
    exact (and_iff_right hi).symm
  · next hi => simp [hi]

theorem exists_cell? {i j : Nat} (hi : i < m.nrows) (hj : j < m.ncols) :
    ∃ v, m.cell? i j = some v :=
  Option.isSome_iff_exists.mp ((m.cell?_isSome_iff i j).mpr ⟨hi, hj⟩)

/-- The values of row `i` from left to right. -/
def row (i : Nat) : List K := (List.range m.ncols).filterMap (m.cell? i)

/-- The rows from top to bottom. -/
def toRows : RawTable K := (List.range m.nrows).map m.row

theorem exists_cell?_of_mem_range {i : Nat} (hi : i < m.nrows) :
    ∀ j ∈ List.range m.ncols, ∃ v, m.cell? i j = some v :=
  fun _ hj => m.exists_cell? hi (List.mem_range.mp hj)

/-- The matrix as a grid. -/
def grid : Grid K where
  ncols := m.ncols
  rows := m.toRows
  rect := by
    refine List.forall_mem_map.mpr fun i hi => ?_
    rw [row, length_filterMap_of_forall (m.exists_cell?_of_mem_range (List.mem_range.mp hi)),
      List.length_range]

@[simp] theorem rows_grid : m.grid.rows = m.toRows := rfl

@[simp] theorem ncols_grid : m.grid.ncols = m.ncols := rfl

@[simp] theorem nrows_grid : m.grid.nrows = m.nrows := by
  simp [Grid.nrows, toRows]

@[simp] theorem cell?_grid (i j : Nat) : m.grid.cell? i j = m.cell? i j := by
  by_cases hi : i < m.nrows
  · have hrow : m.toRows[i]? = some (m.row i) := by
      rw [toRows, List.getElem?_map, List.getElem?_range hi, Option.map_some]
    rw [Grid.cell?, rows_grid, hrow, Option.bind_some, row,
      getElem?_filterMap_of_forall (m.exists_cell?_of_mem_range hi)]
    by_cases hj : j < m.ncols
    · rw [List.getElem?_range hj, Option.bind_some]
    · have hnone : m.cell? i j = none := by
        rw [← Option.not_isSome_iff_eq_none, m.cell?_isSome_iff]
        exact fun h => hj h.2
      rw [List.getElem?_eq_none (by simpa using hj), hnone, Option.bind_none]
  · rw [cell?, if_neg hi, Grid.cell?_eq_none_iff, nrows_grid]
    exact .inl (Nat.le_of_not_lt hi)

/-- A place in the list belongs to the cell that division by the number of rows leads to. -/
theorem getElem?_data (h : 0 < m.nrows) (k : Nat) :
    m.data[k]? = m.cell? (k % m.nrows) (k / m.nrows) := by
  rw [cell?, if_pos (Nat.mod_lt k h), Nat.mul_comm, Nat.div_add_mod]

/-- **The list holds the columns of the grid one after the other.** -/
theorem data_eq : m.data = m.grid.columns.flatten := by
  have hcolumns := m.grid.length_of_mem_columns
  rw [nrows_grid] at hcolumns
  by_cases h : 0 < m.nrows
  · apply List.ext_getElem?
    intro k
    have hplace := getElem?_flatten_mul_add hcolumns (k / m.nrows) (Nat.mod_lt k h)
    rw [Nat.mul_comm, Nat.div_add_mod] at hplace
    rw [hplace, m.getElem?_data h, ← cell?_grid, ← Grid.cell?_columns]
    rfl
  · -- Without rows there is no value in either list.
    have hzero : m.nrows = 0 := Nat.eq_zero_of_not_pos h
    have hlength := m.length_data
    have hflatten := length_flatten_of_length hcolumns
    rw [hzero, Nat.zero_mul] at hlength
    rw [hzero, Nat.mul_zero] at hflatten
    rw [List.length_eq_zero_iff.mp hlength, List.length_eq_zero_iff.mp hflatten]

/-- The list holds the cells of the grid in another order. -/
theorem data_perm_cells : m.data.Perm m.grid.cells := by
  rw [m.data_eq]
  exact m.grid.flatten_columns_perm_cells

/-! ### From values listed row by row -/

/-- Column `j` of the matrix whose values are listed row by row. -/
def columnOf (nrows ncols : Nat) (values : List K) (j : Nat) : List K :=
  (List.range nrows).filterMap fun i => values[i * ncols + j]?

section RowOrder

variable {nrows ncols : Nat} {values : List K} (hlength : values.length = nrows * ncols)

include hlength

theorem exists_value_of_lt {j : Nat} (hj : j < ncols) :
    ∀ i ∈ List.range nrows, ∃ v, values[i * ncols + j]? = some v := by
  intro i hi
  refine ⟨_, List.getElem?_eq_getElem ?_⟩
  calc i * ncols + j < (i + 1) * ncols := by rw [Nat.succ_mul]; omega
    _ ≤ nrows * ncols := Nat.mul_le_mul_right ncols (List.mem_range.mp hi)
    _ = values.length := hlength.symm

theorem length_of_mem_columnsOf :
    ∀ column ∈ (List.range ncols).map (columnOf nrows ncols values), column.length = nrows := by
  refine List.forall_mem_map.mpr fun j hj => ?_
  rw [columnOf, length_filterMap_of_forall (exists_value_of_lt hlength (List.mem_range.mp hj)),
    List.length_range]

theorem getElem?_columnOf {i j : Nat} (hi : i < nrows) (hj : j < ncols) :
    (columnOf nrows ncols values j)[i]? = values[i * ncols + j]? := by
  rw [columnOf, getElem?_filterMap_of_forall (exists_value_of_lt hlength hj),
    List.getElem?_range hi, Option.bind_some]

end RowOrder

/-- The stored matrix whose values are listed row by row, `none` when they are too few or too
    many. -/
def ofRowOrder? (nrows ncols : Nat) (values : List K) : Option (Stored K) :=
  if h : values.length = nrows * ncols then
    some {
      nrows := nrows
      ncols := ncols
      data := ((List.range ncols).map (columnOf nrows ncols values)).flatten
      length_data := by
        rw [length_flatten_of_length (length_of_mem_columnsOf h), List.length_map,
          List.length_range, Nat.mul_comm] }
  else none

/-- **The cells of a grid, listed row by row, are stored as this grid.** -/
theorem exists_ofRowOrder? (g : Grid K) :
    ∃ m, ofRowOrder? g.nrows g.ncols g.cells = some m ∧ m.grid = g := by
  have hlength : g.cells.length = g.nrows * g.ncols := length_flatten_of_length g.rect
  refine ⟨_, dif_pos hlength, Grid.ext_cell? rfl (nrows_grid _) fun i j => ?_⟩
  by_cases hin : i < g.nrows ∧ j < g.ncols
  · obtain ⟨hi, hj⟩ := hin
    rw [cell?_grid, cell?, if_pos hi,
      getElem?_flatten_mul_add (length_of_mem_columnsOf hlength) j hi, List.getElem?_map,
      List.getElem?_range hj, Option.map_some, Option.bind_some, getElem?_columnOf hlength hi hj]
    exact getElem?_flatten_mul_add g.rect i hj
  · have hout : g.nrows ≤ i ∨ g.ncols ≤ j := by omega
    rw [(g.cell?_eq_none_iff i j).mpr hout, Grid.cell?_eq_none_iff, nrows_grid, ncols_grid]
    exact hout

end Stored

/-! ## The first cell that is not finite -/

/-- One position comes before another when rows are read one after the other. -/
def RowMajor (p q : Nat × Nat) : Prop := p.1 < q.1 ∨ p.1 = q.1 ∧ p.2 < q.2

/-- One position comes before another when columns are read one after the other. -/
def ColumnMajor (p q : Nat × Nat) : Prop := p.2 < q.2 ∨ p.2 = q.2 ∧ p.1 < q.1

/-- Reading `n` values for each column, what comes before the cell of place `k` has a place
    before `k`. -/
theorem ColumnMajor.mul_add_lt {n i j k : Nat} (hi : i < n)
    (h : ColumnMajor (i, j) (k % n, k / n)) : j * n + i < k := by
  have hk := Nat.div_add_mod' k n
  rcases h with hj | ⟨rfl, hi'⟩
  · calc j * n + i < (j + 1) * n := by rw [Nat.succ_mul]; omega
      _ ≤ k / n * n := Nat.mul_le_mul_right n hj
      _ ≤ k := by omega
  · show k / n * n + i < k
    have hi' : i < k % n := hi'
    omega

section CellFault

variable {K : Type} [Scalar K] {i j : Nat} {v : K}

theorem Scalar.cellFault?_eq_some_iff {failure : Failure K} :
    cellFault? i j v = some failure ↔
      isFinite v = false ∧ failure = .nonNumericEntry i j (text v) := by
  unfold cellFault?
  cases isFinite v <;> simp [eq_comm]

theorem Scalar.cellFault?_eq_none_iff : cellFault? i j v = none ↔ isFinite v = true := by
  unfold cellFault?
  cases isFinite v <;> simp

end CellFault

namespace Grid

variable {K : Type} [Scalar K]

/-- The cell at row `i` and column `j` holds `v`, which is not finite, and every cell that comes
    before is finite. -/
structure IsFirstNonFinite (g : Grid K) (before : Nat × Nat → Nat × Nat → Prop) (i j : Nat)
    (v : K) : Prop where
  here : g.cell? i j = some v
  not_finite : isFinite v = false
  finite_before : ∀ i' j' w, before (i', j') (i, j) → g.cell? i' j' = some w →
    isFinite w = true

variable {g : Grid K}

theorem IsFirstNonFinite.unique {i j i' j' : Nat} {v v' : K}
    (h : g.IsFirstNonFinite ColumnMajor i j v) (h' : g.IsFirstNonFinite ColumnMajor i' j' v') :
    i' = i ∧ j' = j ∧ v' = v := by
  have hbefore : ¬ ColumnMajor (i, j) (i', j') := fun hlt =>
    Bool.eq_false_iff.mp h.not_finite (h'.finite_before i j v hlt h.here)
  have hbefore' : ¬ ColumnMajor (i', j') (i, j) := fun hlt =>
    Bool.eq_false_iff.mp h'.not_finite (h.finite_before i' j' v' hlt h'.here)
  unfold ColumnMajor at hbefore hbefore'
  obtain ⟨rfl, rfl⟩ : i' = i ∧ j' = j := by omega
  exact ⟨rfl, rfl, Option.some.inj (h'.here.symm.trans h.here)⟩

theorem IsFirstNonFinite.exists_not_finite {before : Nat × Nat → Nat × Nat → Prop} {i j : Nat}
    {v : K} (h : g.IsFirstNonFinite before i j v) : ∃ v ∈ g.cells, isFinite v = false :=
  ⟨v, mem_cells.mpr ⟨i, j, h.here⟩, h.not_finite⟩

theorem isFirstNonFinite_of_isFirstUnread {i j : Nat} {v : K}
    (h : RawTable.IsFirstUnread finite? g.rows i j v) : g.IsFirstNonFinite RowMajor i j v where
  here := h.here
  not_finite := by
    have hnone := h.unread
    unfold finite? at hnone
    split at hnone
    · cases hnone
    · next hv => exact Bool.eq_false_iff.mpr hv
  finite_before i' j' w hlt hw := by
    obtain ⟨_, hread⟩ := h.before i' j' w hlt hw
    exact (finite?_eq_some_iff.mp hread).1

/-- The search column by column stops at the first cell in this order. -/
theorem exists_isFirstNonFinite_of_columnwiseFault? {failure : Failure K}
    (h : CostMatrix.columnwiseFault? g = some failure) :
    ∃ i j v, g.IsFirstNonFinite ColumnMajor i j v ∧
      failure = .nonNumericEntry i j (text v) := by
  obtain ⟨j, i, v, hv, hfault, hbefore⟩ := RawTable.exists_first_of_firstCell? h
  obtain ⟨hfinite, rfl⟩ := cellFault?_eq_some_iff.mp hfault
  rw [cell?_columns] at hv
  refine ⟨i, j, v, ⟨hv, hfinite, fun i' j' w hlt hw => ?_⟩, rfl⟩
  rw [← cell?_columns] at hw
  exact cellFault?_eq_none_iff.mp (hbefore j' i' w hlt hw)

theorem columnwiseFault?_eq_none_iff :
    CostMatrix.columnwiseFault? g = none ↔ ∀ v ∈ g.cells, isFinite v = true := by
  constructor
  · intro h v hv
    obtain ⟨row, hrow, hv⟩ := List.mem_flatten.mp hv
    exact CostMatrix.finite_of_columnwiseFault? h row hrow v hv
  · intro h
    cases hfault : CostMatrix.columnwiseFault? g with
    | none => rfl
    | some failure =>
      obtain ⟨i, j, v, hfirst, _⟩ := exists_isFirstNonFinite_of_columnwiseFault? hfault
      obtain ⟨w, hw, hnot⟩ := hfirst.exists_not_finite
      rw [h w hw] at hnot
      cases hnot

end Grid

/-! ## The checks of a stored matrix -/

namespace Stored

variable {K : Type} [Scalar K] (m : Stored K)

/-- The first place in the list whose value is not finite. -/
def firstNonFinite? : Option Nat := m.data.findIdx? fun v => !isFinite v

/-- The first failure of a stored matrix.  Its values are checked in the order of the list, and
    the cell of a place is found by division. -/
def fault? : Option (Failure K) :=
  if m.nrows = 0 ∨ m.ncols = 0 then some .emptyMatrix
  else match m.firstNonFinite? with
    | some k =>
      let row := k % m.nrows
      let col := k / m.nrows
      some (.nonNumericEntry row col ((m.cell? row col).elim "" text))
    | none => rangeFault? m.data (max m.nrows m.ncols)

theorem firstNonFinite?_eq_none_iff :
    m.firstNonFinite? = none ↔ ∀ v ∈ m.grid.cells, isFinite v = true := by
  unfold firstNonFinite?
  rw [List.findIdx?_eq_none_iff]
  simp only [Bool.not_eq_false', m.data_perm_cells.mem_iff]

/-- **The cell that division finds is the first one, column by column, that is not finite.** -/
theorem exists_isFirstNonFinite {k : Nat} (hpos : 0 < m.nrows)
    (h : m.firstNonFinite? = some k) :
    ∃ v, m.cell? (k % m.nrows) (k / m.nrows) = some v ∧
      m.grid.IsFirstNonFinite ColumnMajor (k % m.nrows) (k / m.nrows) v := by
  obtain ⟨hk, hhere, hbefore⟩ := List.findIdx?_eq_some_iff_getElem.mp h
  have hcell : m.cell? (k % m.nrows) (k / m.nrows) = some m.data[k] := by
    rw [← m.getElem?_data hpos, List.getElem?_eq_getElem hk]
  refine ⟨m.data[k], hcell, by rw [cell?_grid]; exact hcell, by simpa using hhere, ?_⟩
  intro i' j' w hlt hw
  have hi' : i' < m.nrows := by
    rw [← nrows_grid]
    exact Grid.lt_nrows_of_cell? hw
  rw [cell?_grid, cell?, if_pos hi'] at hw
  obtain ⟨hplace, rfl⟩ := List.getElem?_eq_some_iff.mp hw
  simpa using hbefore _ (hlt.mul_add_lt hi')

end Stored

end LinearAssignment
