import LinearAssignment.Failure
import LinearAssignment.Grid
import LinearAssignment.RawTable

/-! # Cost matrices: validated input

    A cost matrix is a grid that the solver accepts: it has a row and a column, every cell
    is finite, and the values keep clear of overflow.  Checks run in a fixed order, and the
    first failure is reported: emptiness, then the lengths of all rows, then the cells in
    reading order, then the range of the values. -/

namespace LinearAssignment

namespace Scalar

variable {K : Type} [Scalar K]

/-- The smallest and the largest number of a list. -/
def extremes? (values : List K) : Option (K × K) :=
  (least? values).bind fun lo => (greatest? values).map fun hi => (lo, hi)

/-- The largest of the span of the values and their distances from zero. -/
def reach (lo hi : K) : K := larger (larger (hi - lo) (magnitude lo)) (magnitude hi)

/-- Solving a table whose larger dimension is `dim` and whose values lie between `lo` and
    `hi` stays within `dim` times their reach; the bound tested leaves a factor of two to
    spare. -/
def inRange (lo hi : K) (dim : Nat) : Bool :=
  isFinite (hi - lo) && isFinite (reach lo hi * ofNat 2 * (ofNat dim + ofNat 1))

/-- What is wrong with the range of the values of a table whose larger dimension is `dim`.
    Values among which there is no number have no range at all. -/
def rangeFault? (values : List K) (dim : Nat) : Option (Failure K) :=
  match extremes? values with
  | none => some (.valueRangeOverflow none)
  | some (lo, hi) => if inRange lo hi dim then none else some (.valueRangeOverflow (lo, hi))

/-- The failure for a cell that is not finite. -/
def cellFault? (i j : Nat) (v : K) : Option (Failure K) :=
  if isFinite v then none else some (.nonNumericEntry i j (text v))

end Scalar

namespace RawTable

variable {K : Type} [Scalar K]

/-- The first failure of a table of scalars, in the order of the checks. -/
def fault? (table : RawTable K) : Option (Failure K) :=
  if table.width = 0 then some .emptyMatrix
  else match table.firstRagged? with
    | some (i, found) => some (.raggedMatrix i table.width found)
    | none =>
      match table.firstCell? Scalar.cellFault? with
      | some failure => some failure
      | none => Scalar.rangeFault? table.flatten (max table.length table.width)

end RawTable

/-- A grid that the solver accepts. -/
structure CostMatrix (K : Type) [Scalar K] extends Grid K where
  /-- There is a row. -/
  rows_ne_nil : rows ≠ []
  /-- There is a column. -/
  ncols_pos : 0 < ncols
  /-- Every cell is a number and not an infinity. -/
  finite : ∀ row ∈ rows, ∀ v ∈ row, Scalar.isFinite v = true
  /-- The values keep clear of overflow. -/
  in_range : Scalar.rangeFault? rows.flatten (max rows.length ncols) = none

namespace CostMatrix

variable {K : Type} [Scalar K]

theorem finite_of_firstCell? {table : RawTable K}
    (h : table.firstCell? Scalar.cellFault? = none) :
    ∀ row ∈ table, ∀ v ∈ row, Scalar.isFinite v = true := by
  intro row hrow v hv
  obtain ⟨i, hi⟩ := List.mem_iff_getElem?.mp hrow
  obtain ⟨j, hj⟩ := List.mem_iff_getElem?.mp hv
  have := RawTable.firstCell?_eq_none_iff.mp h i row hi j v hj
  simpa [Scalar.cellFault?] using this

/-- What the absence of a failure means. -/
theorem of_fault?_eq_none {table : RawTable K} (h : table.fault? = none) :
    table ≠ [] ∧ 0 < table.width ∧ (∀ row ∈ table, row.length = table.width) ∧
      (∀ row ∈ table, ∀ v ∈ row, Scalar.isFinite v = true) ∧
      Scalar.rangeFault? table.flatten (max table.length table.width) = none := by
  unfold RawTable.fault? at h
  split at h
  · exact absurd h (by simp)
  · next hw =>
    split at h
    · exact absurd h (by simp)
    · next hr =>
      split at h
      · exact absurd h (by simp)
      · next hc =>
        exact ⟨RawTable.ne_nil_of_width_ne_zero hw, Nat.pos_of_ne_zero hw,
          RawTable.length_of_firstRagged?_eq_none hr, finite_of_firstCell? hc, h⟩

/-- The cost matrix with the given rows. -/
def ofRows (table : RawTable K) : Except (Failure K) (CostMatrix K) :=
  match h : table.fault? with
  | some failure => .error failure
  | none =>
    have valid := of_fault?_eq_none h
    .ok {
      ncols := table.width
      rows := table
      rect := valid.2.2.1
      rows_ne_nil := valid.1
      ncols_pos := valid.2.1
      finite := valid.2.2.2.1
      in_range := valid.2.2.2.2 }

/-- The failure for a cell that is not finite, met while reading column by column. -/
def columnwiseFault? (g : Grid K) : Option (Failure K) :=
  RawTable.firstCell? g.columns fun j i v => Scalar.cellFault? i j v

/-- The first failure of a grid.  Its cells are checked column by column. -/
def gridFault? (g : Grid K) : Option (Failure K) :=
  if g.rows = [] ∨ g.ncols = 0 then some .emptyMatrix
  else match columnwiseFault? g with
    | some failure => some failure
    | none => Scalar.rangeFault? g.cells g.dimension

theorem finite_of_columnwiseFault? {g : Grid K} (h : columnwiseFault? g = none) :
    ∀ row ∈ g.rows, ∀ v ∈ row, Scalar.isFinite v = true := by
  intro row hrow v hv
  obtain ⟨j, hj⟩ := List.mem_iff_getElem?.mp hv
  have hjn : j < g.ncols := by
    rw [← g.rect row hrow]
    exact (List.getElem?_eq_some_iff.mp hj).1
  have hcol : v ∈ g.column j := List.mem_filterMap.mpr ⟨row, hrow, hj⟩
  obtain ⟨i, hi⟩ := List.mem_iff_getElem?.mp hcol
  have hcols : g.columns[j]? = some (g.column j) := by simp [Grid.columns, hjn]
  have := RawTable.firstCell?_eq_none_iff.mp h j (g.column j) hcols i v hi
  simpa [Scalar.cellFault?] using this

/-- What the absence of a failure means. -/
theorem of_gridFault?_eq_none {g : Grid K} (h : gridFault? g = none) :
    g.rows ≠ [] ∧ 0 < g.ncols ∧ (∀ row ∈ g.rows, ∀ v ∈ row, Scalar.isFinite v = true) ∧
      Scalar.rangeFault? g.rows.flatten (max g.rows.length g.ncols) = none := by
  unfold gridFault? at h
  split at h
  · exact absurd h (by simp)
  · next hne =>
    split at h
    · exact absurd h (by simp)
    · next hc =>
      exact ⟨fun h => hne (.inl h), Nat.pos_of_ne_zero fun h => hne (.inr h),
        finite_of_columnwiseFault? hc, h⟩

/-- The cost matrix on a grid. -/
def ofGrid (g : Grid K) : Except (Failure K) (CostMatrix K) :=
  match h : gridFault? g with
  | some failure => .error failure
  | none =>
    have valid := of_gridFault?_eq_none h
    .ok {
      toGrid := g
      rows_ne_nil := valid.1
      ncols_pos := valid.2.1
      finite := valid.2.2.1
      in_range := valid.2.2.2 }

/-! ## Equality -/

instance : BEq (CostMatrix K) := ⟨fun a b => a.rows == b.rows⟩

/-- Two cost matrices with the same rows are the same: the rows fix the width. -/
theorem ext_rows {a b : CostMatrix K} (h : a.rows = b.rows) : a = b := by
  have hc : a.ncols = b.ncols := by
    obtain ⟨row, hrow⟩ := List.exists_mem_of_ne_nil a.rows a.rows_ne_nil
    rw [← a.rect row hrow, ← b.rect row (h ▸ hrow)]
  obtain ⟨⟨_, _, _⟩, _, _, _, _⟩ := a
  obtain ⟨⟨_, _, _⟩, _, _, _, _⟩ := b
  simp_all

end CostMatrix

end LinearAssignment
