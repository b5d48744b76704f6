import LinearAssignment.Proofs.DualAccounting

/-! # Reduction as a decomposition

    Over the rationals reducing the rows and then the columns writes a grid as a reduced one
    plus a share of each row plus a share of each column, the shares being the minima that the
    two passes take off.  A reduced grid has zero for the smallest value of every line, so
    both passes leave it as it is, and reducing twice is reducing once.

    * `IsReduced.rowMinima_eq`, `IsReduced.columnMinima_eq`: the minima of a reduced grid.
    * `IsReduced.reduceRows_eq`, `IsReduced.reduceColumns_eq`: it is left as it is.
    * `reduction_decomposes`: all of it together. -/

namespace LinearAssignment

namespace Grid

variable {g : Grid Rat}

/-! ## Reduced grids -/

theorem IsReduced.nonneg_of_mem (h : g.IsReduced) : ∀ v ∈ g.cells, 0 ≤ v := by
  intro v hv
  obtain ⟨i, j, hv⟩ := mem_cells.mp hv
  exact not_lt.mp (h.nonneg i j v hv)

theorem IsReduced.zero_mem_row (h : g.IsReduced) : ∀ row ∈ g.rows, 0 ∈ row := by
  intro row hrow
  obtain ⟨i, hi⟩ := List.mem_iff_getElem?.mp hrow
  obtain ⟨j, hz⟩ := h.row_zero i (List.getElem?_eq_some_iff.mp hi).1
  obtain ⟨row', hi', hj⟩ := cell?_eq_some_iff.mp (cell?_of_isZero hz)
  rw [hi] at hi'
  obtain rfl := Option.some.inj hi'
  exact List.mem_of_getElem? hj

theorem IsReduced.zero_mem_column (h : g.IsReduced) : ∀ column ∈ g.columns, 0 ∈ column := by
  intro column hcolumn
  obtain ⟨j, hj, rfl⟩ := List.mem_map.mp hcolumn
  obtain ⟨i, hz⟩ := h.col_zero j (List.mem_range.mp hj)
  exact mem_column.mpr ⟨i, cell?_of_isZero hz⟩

/-- The smallest value of every row of a reduced grid is zero. -/
theorem IsReduced.rowMinima_eq (h : g.IsReduced) :
    g.rowMinima = List.replicate g.nrows (some 0) := by
  refine List.eq_replicate_iff.mpr ⟨by simp [rowMinima, nrows], ?_⟩
  intro d hd
  obtain ⟨row, hrow, rfl⟩ := List.mem_map.mp hd
  refine Scalar.least?_eq_some_iff.mpr ⟨h.zero_mem_row row hrow, fun v hv => ?_⟩
  exact h.nonneg_of_mem v (List.mem_flatten.mpr ⟨row, hrow, hv⟩)

/-- The smallest value of every column of a reduced grid is zero. -/
theorem IsReduced.columnMinima_eq (h : g.IsReduced) :
    g.columnMinima = List.replicate g.ncols (some 0) := by
  refine List.eq_replicate_iff.mpr ⟨by simp [columnMinima, columns], ?_⟩
  intro d hd
  obtain ⟨column, hcolumn, rfl⟩ := List.mem_map.mp hd
  refine Scalar.least?_eq_some_iff.mpr ⟨h.zero_mem_column column hcolumn, fun v hv => ?_⟩
  obtain ⟨j, _, rfl⟩ := List.mem_map.mp hcolumn
  obtain ⟨i, hv⟩ := mem_column.mp hv
  exact h.nonneg_of_mem v (mem_cells.mpr ⟨i, j, hv⟩)

/-- Reducing the rows leaves a reduced grid as it is. -/
theorem IsReduced.reduceRows_eq (h : g.IsReduced) : g.reduceRows = g := by
  refine ext_cell? rfl (nrows_reduceRows g) fun i j => ?_
  rw [cell?_reduceRows, h.rowMinima_eq]
  cases hv : g.cell? i j with
  | none => rfl
  | some v =>
    have hi := lt_nrows_of_cell? hv
    rw [List.getElem?_replicate_of_lt hi, Option.getD_some, Option.map_some, lowerBy_rat,
      sub_zero]

/-- Reducing the columns leaves a reduced grid as it is. -/
theorem IsReduced.reduceColumns_eq (h : g.IsReduced) : g.reduceColumns = g := by
  refine ext_cell? rfl (nrows_reduceColumns g) fun i j => ?_
  rw [cell?_reduceColumns, h.columnMinima_eq]
  cases hv : g.cell? i j with
  | none => rfl
  | some v =>
    have hj := lt_ncols_of_cell? hv
    rw [List.getElem?_replicate_of_lt hj, Option.getD_some, Option.map_some, lowerBy_rat,
      sub_zero]

/-! ## Both passes -/

/-- A cell is what both passes leave of it and the two minima of its lines. -/
theorem cell?_reduce_add {a b : List Rat} (ha : g.rowMinima = a.map some)
    (hb : g.reduceRows.columnMinima = b.map some) {i j : Nat} {v : Rat}
    (hv : g.cell? i j = some v) :
    ∃ w x y, g.reduceRows.reduceColumns.cell? i j = some w ∧ a[i]? = some x ∧
      b[j]? = some y ∧ v = w + x + y := by
  obtain ⟨u, x, hu, hx, rfl⟩ := cell?_reduceRows_add ha hv
  obtain ⟨w, y, hw, hy, rfl⟩ := cell?_reduceColumns_add hb hu
  exact ⟨w, x, y, hw, hx, hy, add_right_comm ..⟩

/-- **Reduction decomposes a grid.**  Reducing the rows and then the columns of a grid with
    cells leaves a grid of the same shape without negative cells and with a zero in every line;
    every cell is what is left of it and the minima taken off its row and its column.  On the
    grid that is left both passes change nothing, and all their minima are zero. -/
theorem reduction_decomposes (g : Grid Rat) (hm : 0 < g.nrows) (hn : 0 < g.ncols) :
    let h := g.reduceRows.reduceColumns
    h.shape = g.shape ∧ (∀ v ∈ h.cells, 0 ≤ v) ∧
      (∀ row ∈ h.rows, 0 ∈ row) ∧ (∀ column ∈ h.columns, 0 ∈ column) ∧
      (∃ a b : List Rat, g.rowMinima = a.map some ∧ g.reduceRows.columnMinima = b.map some ∧
        ∀ i j v, g.cell? i j = some v → ∃ w x y, h.cell? i j = some w ∧ a[i]? = some x ∧
          b[j]? = some y ∧ v = w + x + y) ∧
      h.reduceRows = h ∧ h.rowMinima = List.replicate g.nrows (some 0) ∧
      h.reduceRows.reduceColumns = h ∧
      h.reduceRows.columnMinima = List.replicate g.ncols (some 0) := by
  intro h
  have hred : h.IsReduced := isReduced_reduce hm hn
  have hrows : h.nrows = g.nrows := (nrows_reduceColumns _).trans (nrows_reduceRows g)
  obtain ⟨a, ha⟩ := exists_rowMinima_eq hn
  obtain ⟨b, hb⟩ := exists_columnMinima_eq ((nrows_reduceRows g).symm ▸ hm)
  refine ⟨Prod.ext hrows rfl, hred.nonneg_of_mem, hred.zero_mem_row, hred.zero_mem_column,
    ⟨a, b, ha, hb, fun i j v => cell?_reduce_add ha hb⟩, hred.reduceRows_eq, ?_, ?_, ?_⟩
  · rw [hred.rowMinima_eq, hrows]
  · rw [hred.reduceRows_eq, hred.reduceColumns_eq]
  · rw [hred.reduceRows_eq]
    exact hred.columnMinima_eq

/-- A wide grid with negative cells and a row that has its zero already.  Only the second pass
    reaches the last two columns. -/
theorem reduction_decomposes_wide :
    let g : Grid Rat := ⟨3, [[-3, -1, 0], [0, 5, 2]], by decide⟩
    let h := g.reduceRows.reduceColumns
    (0 < g.nrows ∧ 0 < g.ncols) ∧ h.rows = [[0, 0, 1], [0, 3, 0]] ∧
      (∀ i j v, g.cell? i j = some v → ∃ w x y : Rat, h.cell? i j = some w ∧
        [-3, 0][i]? = some x ∧ [0, 2, 2][j]? = some y ∧ v = w + x + y) ∧
      h.reduceRows.reduceColumns = h := by
  intro g h
  obtain ⟨_, _, _, _, ⟨a, b, ha, hb, hcells⟩, _, _, htwice, _⟩ :=
    reduction_decomposes g (by decide) (by decide)
  have hminima : g.rowMinima = [-3, 0].map some ∧
      g.reduceRows.columnMinima = [0, 2, 2].map some := by decide +kernel
  have hinj := List.map_injective_iff.mpr (Option.some_injective Rat)
  obtain rfl : a = [-3, 0] := hinj (ha.symm.trans hminima.1)
  obtain rfl : b = [0, 2, 2] := hinj (hb.symm.trans hminima.2)
  exact ⟨by decide, by decide +kernel, hcells, htwice⟩

end Grid

end LinearAssignment
