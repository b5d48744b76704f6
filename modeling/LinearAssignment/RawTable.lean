/-! # Raw tables: rows that may differ in length

    Input arrives as a list of rows that nobody has checked.  This module finds what keeps
    such a table from being a grid: the first row of a wrong length, and the first cell with
    a fault, in reading order. -/

namespace LinearAssignment

/-- A list of rows, not necessarily of one length. -/
abbrev RawTable (α : Type) : Type := List (List α)

namespace RawTable

variable {α β : Type}

/-- The length that every row should have: that of the first row, zero without rows. -/
def width (table : RawTable α) : Nat := (table.head?.map List.length).getD 0

/-- The first answer that a rule gives on a row, the row's position known to the rule. -/
def firstRow? (table : RawTable α) (rule : Nat → List α → Option β) : Option β :=
  table.zipIdx.findSome? fun (row, i) => rule i row

/-- The first answer that a rule gives on a cell, in reading order. -/
def firstCell? (table : RawTable α) (rule : Nat → Nat → α → Option β) : Option β :=
  table.firstRow? fun i row => row.zipIdx.findSome? fun (v, j) => rule i j v

/-- The first row whose length is not the width of the table, with its length. -/
def firstRagged? (table : RawTable α) : Option (Nat × Nat) :=
  table.firstRow? fun i row => if row.length = table.width then none else some (i, row.length)

theorem firstRow?_eq_none_iff {table : RawTable α} {rule : Nat → List α → Option β} :
    table.firstRow? rule = none ↔ ∀ i row, table[i]? = some row → rule i row = none := by
  simp [firstRow?, List.mem_zipIdx_iff_getElem?]
  exact ⟨fun h i row => h row i, fun h row i => h i row⟩

theorem firstCell?_eq_none_iff {table : RawTable α} {rule : Nat → Nat → α → Option β} :
    table.firstCell? rule = none ↔
      ∀ i row, table[i]? = some row → ∀ j v, row[j]? = some v → rule i j v = none := by
  simp only [firstCell?, firstRow?_eq_none_iff, List.findSome?_eq_none_iff, Prod.forall,
    List.mem_zipIdx_iff_getElem?]
  exact ⟨fun h i row hi j v hj => h i row hi v j hj, fun h i row hi v j hj => h i row hi j v hj⟩

theorem length_of_firstRagged?_eq_none {table : RawTable α} (h : table.firstRagged? = none) :
    ∀ row ∈ table, row.length = table.width := by
  intro row hrow
  obtain ⟨i, hi⟩ := List.mem_iff_getElem?.mp hrow
  have := firstRow?_eq_none_iff.mp h i row hi
  simpa using this

theorem ne_nil_of_width_ne_zero {table : RawTable α} (h : table.width ≠ 0) : table ≠ [] := by
  rintro rfl
  simp [width] at h

end RawTable

end LinearAssignment
