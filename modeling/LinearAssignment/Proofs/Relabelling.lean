import Mathlib.Data.Fin.Basic
import Mathlib.Logic.Equiv.Basic
import LinearAssignment.Proofs.ExactScalar
import LinearAssignment.Run

/-! # Relabelling: a table with its lines in another order

    A relabelling permutes the rows and the columns of a table.  It acts on every table that
    is at least as large as the one it was made for, dummy lines staying where they are, so
    one relabelling acts on all matrices of a run.

    The stages before the loop look at the values of a line or of the whole table without
    regard to their order.  Over the rationals, where equal extremes are the same number, each
    of them therefore commutes with relabelling.

    * `Relabelling`: a permutation of the rows and one of the columns.
    * `Grid.relabel`, `Trace.relabel`: what it makes of grids and of traces.
    * `Grid.eq_relabel`: a grid is relabelled when its cells say so.
    * `costs_relabel`, `balanced_relabel`, `reduceRows_relabel`, `reduceColumns_relabel`: the
      stages. -/

namespace LinearAssignment

/-! ## Lists -/

section Lists

variable {α : Type}

/-- The list with the entry of place `i` moved to place `σ i`. -/
def permuted (σ : Equiv.Perm Nat) (l : List α) : List α :=
  l.mapIdx fun i v => l[σ.symm i]?.getD v

@[simp] theorem length_permuted (σ : Equiv.Perm Nat) (l : List α) :
    (permuted σ l).length = l.length :=
  List.length_mapIdx

/-- Places inside the list have to be moved to places inside it. -/
theorem getElem?_permuted {σ : Equiv.Perm Nat} {l : List α}
    (hσ : ∀ i, σ i < l.length ↔ i < l.length) (i : Nat) : (permuted σ l)[σ i]? = l[i]? := by
  rw [permuted, List.getElem?_mapIdx, Equiv.symm_apply_apply]
  by_cases hi : i < l.length
  · rw [List.getElem?_eq_getElem hi, List.getElem?_eq_getElem ((hσ i).mpr hi)]
    rfl
  · have hnot : ¬ σ i < l.length := fun h => hi ((hσ i).mp h)
    rw [List.getElem?_eq_none (Nat.le_of_not_lt hi), List.getElem?_eq_none (Nat.le_of_not_lt hnot)]
    rfl

theorem mem_permuted {σ : Equiv.Perm Nat} {l : List α}
    (hσ : ∀ i, σ i < l.length ↔ i < l.length) {v : α} : v ∈ permuted σ l ↔ v ∈ l := by
  rw [List.mem_iff_getElem?, List.mem_iff_getElem?, σ.surjective.exists]
  exact exists_congr fun i => by rw [getElem?_permuted hσ]

/-- A permutation of the first `n` numbers, the others staying where they are. -/
def extendPerm {n : Nat} (σ : Equiv.Perm (Fin n)) : Equiv.Perm Nat :=
  σ.extendDomain Fin.equivSubtype

theorem extendPerm_fin {n : Nat} (σ : Equiv.Perm (Fin n)) (i : Fin n) :
    extendPerm σ i = σ i :=
  σ.extendDomain_apply_image Fin.equivSubtype i

theorem extendPerm_of_le {n : Nat} (σ : Equiv.Perm (Fin n)) {i : Nat} (h : n ≤ i) :
    extendPerm σ i = i :=
  σ.extendDomain_apply_not_subtype Fin.equivSubtype (Nat.not_lt_of_le h)

theorem extendPerm_lt_iff {n k : Nat} (σ : Equiv.Perm (Fin n)) (h : n ≤ k) (i : Nat) :
    extendPerm σ i < k ↔ i < k := by
  by_cases hi : i < n
  · have hmoved : extendPerm σ i = σ ⟨i, hi⟩ := extendPerm_fin σ ⟨i, hi⟩
    have hlt := (σ ⟨i, hi⟩).isLt
    omega
  · rw [extendPerm_of_le σ (Nat.le_of_not_lt hi)]

end Lists

/-! ## Relabellings -/

/-- An order for `m` rows and an order for `n` columns. -/
structure Relabelling (m n : Nat) where
  /-- Where each row is moved. -/
  rows : Equiv.Perm (Fin m)
  /-- Where each column is moved. -/
  cols : Equiv.Perm (Fin n)

namespace Relabelling

variable {m n : Nat} (π : Relabelling m n)

/-- Where a row is moved; a dummy row stays. -/
def row : Equiv.Perm Nat := extendPerm π.rows

/-- Where a column is moved; a dummy column stays. -/
def col : Equiv.Perm Nat := extendPerm π.cols

/-- The way back. -/
def symm : Relabelling m n := ⟨π.rows.symm, π.cols.symm⟩

theorem row_symm : π.symm.row = π.row.symm := rfl

theorem col_symm : π.symm.col = π.col.symm := rfl

theorem row_lt_iff {k : Nat} (h : m ≤ k) (i : Nat) : π.row i < k ↔ i < k :=
  extendPerm_lt_iff π.rows h i

theorem col_lt_iff {k : Nat} (h : n ≤ k) (j : Nat) : π.col j < k ↔ j < k :=
  extendPerm_lt_iff π.cols h j

end Relabelling

/-- The table with the cell at row `i` and column `j` moved to where these lines are moved. -/
def RawTable.relabel {α : Type} {m n : Nat} (π : Relabelling m n) (table : RawTable α) :
    RawTable α :=
  permuted π.row (table.map (permuted π.col))

/-- The snapshots of a trace relabelled, their labels unchanged. -/
def Trace.relabel {K : Type} {m n : Nat} (π : Relabelling m n) (t : Trace K) : Trace K :=
  t.map fun step => ⟨step.label, step.matrix.relabel π⟩

namespace Grid

variable {K L : Type} {m n : Nat} {π : Relabelling m n} {g : Grid K}

/-- The grid with its lines moved as the relabelling says. -/
def relabel (π : Relabelling m n) (g : Grid K) : Grid K where
  ncols := g.ncols
  rows := RawTable.relabel π g.rows
  rect := by
    intro row hrow
    obtain ⟨i, hi, rfl⟩ := List.mem_mapIdx.mp hrow
    -- Whatever row is put there comes from the grid.
    have hlength : ∀ row ∈ g.rows.map (permuted π.col), row.length = g.ncols := by
      intro row hrow
      obtain ⟨row, hmem, rfl⟩ := List.mem_map.mp hrow
      rw [length_permuted, g.rect row hmem]
    cases hfrom : (g.rows.map (permuted π.col))[π.row.symm i]? with
    | none => exact hlength _ (List.getElem_mem hi)
    | some row => exact hlength row (List.mem_of_getElem? hfrom)

/-- The grid is no smaller than `m` by `n`. -/
structure AtLeast (g : Grid K) (m n : Nat) : Prop where
  row_le : m ≤ g.nrows
  col_le : n ≤ g.ncols

theorem AtLeast.of_shape {h : Grid L} (hg : g.AtLeast m n) (hrows : h.nrows = g.nrows)
    (hcols : h.ncols = g.ncols) : h.AtLeast m n :=
  ⟨hrows ▸ hg.row_le, hcols ▸ hg.col_le⟩

@[simp] theorem nrows_relabel (π : Relabelling m n) (g : Grid K) :
    (g.relabel π).nrows = g.nrows := by
  simp [nrows, relabel, RawTable.relabel]

@[simp] theorem ncols_relabel (π : Relabelling m n) (g : Grid K) :
    (g.relabel π).ncols = g.ncols := rfl

@[simp] theorem dimension_relabel (π : Relabelling m n) (g : Grid K) :
    (g.relabel π).dimension = g.dimension := by
  rw [dimension, nrows_relabel, ncols_relabel, dimension]

theorem AtLeast.relabel (hg : g.AtLeast m n) (ρ : Relabelling m n) :
    (g.relabel ρ).AtLeast m n :=
  hg.of_shape (nrows_relabel ρ g) (ncols_relabel ρ g)

/-- A row is moved, and its cells are moved within it. -/
theorem getElem?_rows_relabel (hg : g.AtLeast m n) (i : Nat) :
    (g.relabel π).rows[π.row i]? = g.rows[i]?.map (permuted π.col) := by
  rw [← List.getElem?_map]
  refine getElem?_permuted (fun i => ?_) i
  rw [List.length_map]
  exact π.row_lt_iff hg.row_le i

theorem col_lt_length_iff (hg : g.AtLeast m n) {i : Nat} {row : List K}
    (hrow : g.rows[i]? = some row) (j : Nat) : π.col j < row.length ↔ j < row.length := by
  rw [g.length_of_getElem? hrow]
  exact π.col_lt_iff hg.col_le j

theorem cell?_relabel (hg : g.AtLeast m n) (i j : Nat) :
    (g.relabel π).cell? (π.row i) (π.col j) = g.cell? i j := by
  rw [cell?, getElem?_rows_relabel hg, cell?]
  cases hrow : g.rows[i]? with
  | none => rfl
  | some row => exact getElem?_permuted (col_lt_length_iff hg hrow) j

/-- **A grid of the same shape whose cells are where they are moved is the grid relabelled.** -/
theorem eq_relabel (hg : g.AtLeast m n) {h : Grid K} (hrows : h.nrows = g.nrows)
    (hcols : h.ncols = g.ncols)
    (hcell : ∀ i j, h.cell? (π.row i) (π.col j) = g.cell? i j) : h = g.relabel π := by
  refine ext_cell? hcols (hrows.trans (nrows_relabel π g).symm) fun i j => ?_
  -- Every position is one that some cell is moved to.
  obtain ⟨i, rfl⟩ := π.row.surjective i
  obtain ⟨j, rfl⟩ := π.col.surjective j
  rw [hcell, cell?_relabel hg]

/-- Moving back what was moved changes nothing. -/
theorem relabel_symm (hg : g.AtLeast m n) : (g.relabel π).relabel π.symm = g := by
  refine (eq_relabel (hg.relabel π) ?_ ?_ fun i j => ?_).symm
  · exact (nrows_relabel π g).symm
  · exact (ncols_relabel π g).symm
  · obtain ⟨i, rfl⟩ := π.row.surjective i
    obtain ⟨j, rfl⟩ := π.col.surjective j
    rw [cell?_relabel hg, π.row_symm, π.col_symm, Equiv.symm_apply_apply,
      Equiv.symm_apply_apply]

/-- Changing values by a rule that is relabelled as well. -/
theorem mapIdx_relabel (hg : g.AtLeast m n) {f f' : Nat → Nat → K → L}
    (hf : ∀ i j v, f' (π.row i) (π.col j) v = f i j v) :
    (g.relabel π).mapIdx f' = (g.mapIdx f).relabel π := by
  have hmap : (g.mapIdx f).AtLeast m n := hg.of_shape (nrows_mapIdx g f) (ncols_mapIdx g f)
  refine eq_relabel hmap ?_ rfl fun i j => ?_
  · rw [nrows_mapIdx, nrows_mapIdx, nrows_relabel]
  · rw [cell?_mapIdx, cell?_mapIdx, cell?_relabel hg]
    exact congrArg (Option.map · _) (funext (hf i j))

/-! ## Values without their order -/

theorem mem_cells_relabel (hg : g.AtLeast m n) {v : K} :
    v ∈ (g.relabel π).cells ↔ v ∈ g.cells := by
  rw [mem_cells, mem_cells, π.row.surjective.exists]
  refine exists_congr fun i => ?_
  rw [π.col.surjective.exists]
  exact exists_congr fun j => by rw [cell?_relabel hg]

theorem mem_column_relabel (hg : g.AtLeast m n) {j : Nat} {v : K} :
    v ∈ (g.relabel π).column (π.col j) ↔ v ∈ g.column j := by
  rw [mem_column, mem_column, π.row.surjective.exists]
  exact exists_congr fun i => by rw [cell?_relabel hg]

end Grid

namespace Scalar

/-- The extremes of a list of rationals depend on its members alone. -/
theorem least?_congr {xs ys : List Rat} (h : ∀ v, v ∈ xs ↔ v ∈ ys) :
    least? xs = least? ys :=
  Option.ext fun d => by simp only [least?_eq_some_iff, h]

theorem greatest?_congr {xs ys : List Rat} (h : ∀ v, v ∈ xs ↔ v ∈ ys) :
    greatest? xs = greatest? ys :=
  Option.ext fun d => by simp only [greatest?_eq_some_iff, h]

end Scalar

namespace Grid

variable {m n : Nat} {π : Relabelling m n} {g : Grid Rat}

/-! ## Stages -/

theorem greatest?_relabel (hg : g.AtLeast m n) : (g.relabel π).greatest? = g.greatest? :=
  Scalar.greatest?_congr fun _ => mem_cells_relabel hg

theorem complement_relabel (hg : g.AtLeast m n) :
    (g.relabel π).complement = g.complement.relabel π := by
  unfold complement
  rw [greatest?_relabel hg]
  split
  · rfl
  · exact mapIdx_relabel hg fun _ _ _ => rfl

theorem costs_relabel (hg : g.AtLeast m n) (o : Objective) :
    o.costs (g.relabel π) = (o.costs g).relabel π := by
  cases o with
  | minimize => rfl
  | maximize => exact complement_relabel hg

/-- Dummy lines are added after the others and are not moved. -/
theorem balanced_relabel (hg : g.AtLeast m n) :
    (g.relabel π).balanced = g.balanced.relabel π := by
  have hsquare : (g.relabel π).isSquare = g.isSquare := by
    rw [isSquare, nrows_relabel, ncols_relabel, isSquare]
  unfold balanced
  rw [hsquare, dimension_relabel]
  split
  · rfl
  · have hrows : m ≤ g.dimension := hg.row_le.trans (Nat.le_max_left ..)
    have hcols : n ≤ g.dimension := hg.col_le.trans (Nat.le_max_right ..)
    have hpad : (g.padTo g.dimension 0).AtLeast m n := by
      refine ⟨?_, hcols⟩
      exact (nrows_ofFn ..).symm ▸ hrows
    refine eq_relabel hpad ?_ rfl fun i j => ?_
    · exact (nrows_ofFn ..).trans (nrows_ofFn ..).symm
    · simp only [cell?_padTo, cell?_relabel hg, π.row_lt_iff hrows, π.col_lt_iff hcols]

theorem AtLeast.balanced (hg : g.AtLeast m n) : g.balanced.AtLeast m n where
  row_le := by
    rw [nrows_balanced]
    exact hg.row_le.trans (Nat.le_max_left ..)
  col_le := by
    rw [ncols_balanced]
    exact hg.col_le.trans (Nat.le_max_right ..)

/-- The smallest value of a row is moved with the row. -/
theorem rowMinima_relabel (hg : g.AtLeast m n) (i : Nat) :
    (g.relabel π).rowMinima[π.row i]?.getD none = g.rowMinima[i]?.getD none := by
  rw [rowMinima, rowMinima, List.getElem?_map, List.getElem?_map, getElem?_rows_relabel hg]
  cases hrow : g.rows[i]? with
  | none => rfl
  | some row => exact Scalar.least?_congr fun _ => mem_permuted (col_lt_length_iff hg hrow)

/-- The smallest value of a column is moved with the column. -/
theorem columnMinima_relabel (hg : g.AtLeast m n) (j : Nat) :
    (g.relabel π).columnMinima[π.col j]?.getD none = g.columnMinima[j]?.getD none := by
  have hlt := π.col_lt_iff hg.col_le j
  simp only [columnMinima, columns, List.getElem?_map, ncols_relabel]
  by_cases hj : j < g.ncols
  · rw [List.getElem?_range (hlt.mpr hj), List.getElem?_range hj]
    exact Scalar.least?_congr fun _ => mem_column_relabel hg
  · rw [List.getElem?_eq_none (by simpa using fun h => hj (hlt.mp h)),
      List.getElem?_eq_none (by simpa using hj)]
    rfl

theorem reduceRows_relabel (hg : g.AtLeast m n) :
    (g.relabel π).reduceRows = g.reduceRows.relabel π := by
  refine mapIdx_relabel hg fun i j v => ?_
  rw [rowMinima_relabel hg]

theorem reduceColumns_relabel (hg : g.AtLeast m n) :
    (g.relabel π).reduceColumns = g.reduceColumns.relabel π := by
  refine mapIdx_relabel hg fun i j v => ?_
  rw [columnMinima_relabel hg]

end Grid

end LinearAssignment
