import LinearAssignment.Proofs.ExactScalar
import LinearAssignment.Reduction
import LinearAssignment.ZeroPattern

/-! # What reduction achieves

    Lowering a line by its smallest value leaves no negative value in it and makes a zero of
    every smallest value.  Reducing the columns afterwards touches no zero that reducing the
    rows has made, since the column of such a zero has nothing to be lowered by.

    * `IsReduced`: no negative cell, a zero in every row and in every column.
    * `lowerBy_spec`: one value lowered by the smallest of its line.
    * `isReduced_reduce`: both reductions together reach such a grid. -/

namespace LinearAssignment

namespace Grid

variable {K : Type} [Scalar K]

/-- No cell is negative, and every row and every column holds a zero. -/
structure IsReduced (g : Grid K) : Prop where
  nonneg : ∀ i j v, g.cell? i j = some v → ¬ v < 0
  row_zero : ∀ i, i < g.nrows → ∃ j, g.zeroPattern.IsZero i j
  col_zero : ∀ j, j < g.ncols → ∃ i, g.zeroPattern.IsZero i j

variable {g : Grid K}

theorem cell?_reduceRows_of_min {i j : Nat} {d : K} (hd : g.rowMinima[i]? = some (some d)) :
    g.reduceRows.cell? i j = (g.cell? i j).map (lowerBy (some d)) := by
  rw [cell?_reduceRows, hd, Option.getD_some]

theorem cell?_reduceColumns_of_min {i j : Nat} {d : K}
    (hd : g.columnMinima[j]? = some (some d)) :
    g.reduceColumns.cell? i j = (g.cell? i j).map (lowerBy (some d)) := by
  rw [cell?_reduceColumns, hd, Option.getD_some]

section Exact

variable [Scalar.ExactNearZero K]

open Scalar

/-! ## Smallest values of lines -/

/-- Each row of a grid with columns has a smallest value. -/
theorem rowMinima_spec {i : Nat} (hi : i < g.nrows) (hn : 0 < g.ncols) :
    ∃ d, g.rowMinima[i]? = some (some d) ∧ (∃ j, g.cell? i j = some d) ∧
      ∀ j v, g.cell? i j = some v → ¬ v < d := by
  have hrow : g.rows[i]? = some g.rows[i] := List.getElem?_eq_getElem hi
  have hne : g.rows[i] ≠ [] := by
    intro hnil
    have := g.length_of_getElem? hrow
    rw [hnil] at this
    exact absurd this.symm (Nat.ne_of_gt hn)
  obtain ⟨d, hd, hmem, hmin⟩ := least?_spec hne
  refine ⟨d, by simp [rowMinima, hrow, hd], ?_, ?_⟩
  · obtain ⟨j, hj⟩ := List.mem_iff_getElem?.mp hmem
    exact ⟨j, cell?_eq_some_iff.mpr ⟨_, hrow, hj⟩⟩
  · intro j v hv
    obtain ⟨row, hrow', hj⟩ := cell?_eq_some_iff.mp hv
    rw [hrow] at hrow'
    obtain rfl := Option.some.inj hrow'
    exact hmin v (List.mem_of_getElem? hj)

/-- Each column of a grid with rows has a smallest value. -/
theorem columnMinima_spec {j : Nat} (hj : j < g.ncols) (hm : 0 < g.nrows) :
    ∃ d, g.columnMinima[j]? = some (some d) ∧ (∃ i, g.cell? i j = some d) ∧
      ∀ i v, g.cell? i j = some v → ¬ v < d := by
  have hne : g.column j ≠ [] := by
    obtain ⟨v, hv⟩ := g.exists_cell? hm hj
    exact List.ne_nil_of_mem (mem_column.mpr ⟨0, hv⟩)
  obtain ⟨d, hd, hmem, hmin⟩ := least?_spec hne
  refine ⟨d, by simp [columnMinima, columns, hj, hd], mem_column.mp hmem, ?_⟩
  intro i v hv
  exact hmin v (mem_column.mpr ⟨i, hv⟩)

/-! ## Lowering -/

/-- A value lowered by one that is no larger is not negative, and it is zero exactly when it
    was no larger either. -/
theorem lowerBy_spec {d v : K} (h : ¬ v < d) :
    ¬ lowerBy (some d) v < 0 ∧ (isZero (lowerBy (some d) v) = true ↔ ¬ d < v) := by
  unfold lowerBy
  by_cases hd : isZero d = true
  · -- A line with smallest value zero is left alone, so `v` itself is compared with zero.
    simp only [hd, if_true]
    obtain ⟨hneg, hpos⟩ := (ExactNearZero.isZero_iff d).mp hd
    refine ⟨not_lt_trans hneg h, ?_⟩
    rw [ExactNearZero.isZero_iff]
    constructor
    · intro h
      obtain ⟨-, hv⟩ := h
      exact not_lt_trans hv hneg
    · intro hle
      exact ⟨not_lt_trans hneg h, not_lt_trans hle hpos⟩
  · simp only [hd]
    exact ⟨ExactNearZero.sub_nonneg h, ExactNearZero.isZero_sub_iff h⟩

/-! ## Reducing rows -/

theorem nonneg_reduceRows (hn : 0 < g.ncols) {i j : Nat} {v : K}
    (hv : g.reduceRows.cell? i j = some v) : ¬ v < 0 := by
  have hi : i < g.nrows := by simpa using lt_nrows_of_cell? hv
  obtain ⟨d, hd, _, hmin⟩ := rowMinima_spec hi hn
  rw [cell?_reduceRows_of_min hd] at hv
  obtain ⟨w, hw, rfl⟩ := Option.map_eq_some_iff.mp hv
  exact (lowerBy_spec (hmin j w hw)).1

theorem row_zero_reduceRows (hn : 0 < g.ncols) {i : Nat} (hi : i < g.nrows) :
    ∃ j, g.reduceRows.zeroPattern.IsZero i j := by
  obtain ⟨d, hd, ⟨j, hj⟩, hmin⟩ := rowMinima_spec hi hn
  refine ⟨j, (isZero_zeroPattern_iff ..).mpr ⟨lowerBy (some d) d, ?_, ?_⟩⟩
  · rw [cell?_reduceRows_of_min hd, hj, Option.map_some]
  · exact (lowerBy_spec (hmin j d hj)).2.mpr (lt_irrefl d)

/-! ## Reducing columns -/

theorem nonneg_reduceColumns {i j : Nat} {v : K}
    (hv : g.reduceColumns.cell? i j = some v) : ¬ v < 0 := by
  have hi : i < g.nrows := by simpa using lt_nrows_of_cell? hv
  have hj : j < g.ncols := by simpa using lt_ncols_of_cell? hv
  obtain ⟨d, hd, _, hmin⟩ := columnMinima_spec hj (by omega)
  rw [cell?_reduceColumns_of_min hd] at hv
  obtain ⟨w, hw, rfl⟩ := Option.map_eq_some_iff.mp hv
  exact (lowerBy_spec (hmin i w hw)).1

theorem col_zero_reduceColumns (hm : 0 < g.nrows) {j : Nat} (hj : j < g.ncols) :
    ∃ i, g.reduceColumns.zeroPattern.IsZero i j := by
  obtain ⟨d, hd, ⟨i, hi⟩, hmin⟩ := columnMinima_spec hj hm
  refine ⟨i, (isZero_zeroPattern_iff ..).mpr ⟨lowerBy (some d) d, ?_, ?_⟩⟩
  · rw [cell?_reduceColumns_of_min hd, hi, Option.map_some]
  · exact (lowerBy_spec (hmin i d hi)).2.mpr (lt_irrefl d)

/-- In a grid without negative cells, reducing columns keeps every zero. -/
theorem isZero_reduceColumns (hg : ∀ i j v, g.cell? i j = some v → ¬ v < 0) {i j : Nat}
    (hz : g.zeroPattern.IsZero i j) : g.reduceColumns.zeroPattern.IsZero i j := by
  obtain ⟨v, hv, hzero⟩ := (isZero_zeroPattern_iff ..).mp hz
  have hi := lt_nrows_of_cell? hv
  -- The column of a zero has no positive smallest value, so it takes nothing off the zero.
  obtain ⟨d, hd, ⟨i', hi'⟩, hmin⟩ := columnMinima_spec (lt_ncols_of_cell? hv) (by omega)
  refine (isZero_zeroPattern_iff ..).mpr ⟨lowerBy (some d) v, ?_, ?_⟩
  · rw [cell?_reduceColumns_of_min hd, hv, Option.map_some]
  · have hnonneg := hg i' j d hi'
    have hpos := ((ExactNearZero.isZero_iff v).mp hzero).2
    exact (lowerBy_spec (hmin i v hv)).2.mpr fun hlt =>
      (ExactNearZero.lt_or_lt 0 hlt).elim hnonneg hpos

/-- **Both reductions together leave no negative cell and a zero in every line.** -/
theorem isReduced_reduce (hm : 0 < g.nrows) (hn : 0 < g.ncols) :
    g.reduceRows.reduceColumns.IsReduced where
  nonneg _ _ _ hv := nonneg_reduceColumns hv
  row_zero i hi := by
    obtain ⟨j, hj⟩ := row_zero_reduceRows hn (i := i) (by simpa using hi)
    exact ⟨j, isZero_reduceColumns (fun _ _ _ hv => nonneg_reduceRows hn hv) hj⟩
  col_zero j hj := col_zero_reduceColumns (by simpa using hm) (by simpa using hj)

end Exact

end Grid

end LinearAssignment
