/-! # Matchings between rows and columns

    A matching pairs some rows with some columns, each line with at most one partner.  Both
    directions are kept: the column of each row and the row of each column.  The operations
    of this library keep the two directions inverse to each other; the type itself does not
    ask for it, so that a matching made for one table can be looked at beside another. -/

namespace LinearAssignment

/-- A one-to-one pairing between rows and columns. -/
structure Matching where
  /-- The column of each row, if it has one. -/
  colOfRow : List (Option Nat)
  /-- The row of each column, if it has one. -/
  rowOfCol : List (Option Nat)
  deriving DecidableEq, Repr

namespace Matching

/-! ## Access -/

/-- The matching of `m` rows and `n` columns in which nothing is paired. -/
def empty (m n : Nat) : Matching := ⟨List.replicate m none, List.replicate n none⟩

/-- Number of rows, paired or not. -/
def nrows (μ : Matching) : Nat := μ.colOfRow.length

/-- Number of columns, paired or not. -/
def ncols (μ : Matching) : Nat := μ.rowOfCol.length

/-- The column paired with row `i`, `none` for an unpaired or unknown row. -/
def col? (μ : Matching) (i : Nat) : Option Nat := μ.colOfRow[i]?.getD none

/-- The row paired with column `j`, `none` for an unpaired or unknown column. -/
def row? (μ : Matching) (j : Nat) : Option Nat := μ.rowOfCol[j]?.getD none

/-- Number of pairs. -/
def size (μ : Matching) : Nat := μ.colOfRow.countP (·.isSome)

/-- No row is paired. -/
def isEmpty (μ : Matching) : Bool := μ.size == 0

/-- Every row is paired. -/
def isComplete (μ : Matching) : Bool := μ.colOfRow.all (·.isSome)

/-- The pairs in ascending order of their rows. -/
def pairs (μ : Matching) : List (Nat × Nat) :=
  μ.colOfRow.zipIdx.filterMap fun (col, row) => col.map (row, ·)

/-! ## Pairing a row with a column -/

/-- Pair row `i` with column `j`.  Whatever the two were paired with before keeps its own
    entry, so a caller re-pairs those lines too. -/
def assign (μ : Matching) (i j : Nat) : Matching :=
  ⟨μ.colOfRow.set i (some j), μ.rowOfCol.set j (some i)⟩

@[simp] theorem nrows_empty (m n : Nat) : (empty m n).nrows = m := by simp [empty, nrows]

@[simp] theorem ncols_empty (m n : Nat) : (empty m n).ncols = n := by simp [empty, ncols]

@[simp] theorem col?_empty (m n i : Nat) : (empty m n).col? i = none := by
  by_cases h : i < m <;> simp [empty, col?, h]

@[simp] theorem row?_empty (m n j : Nat) : (empty m n).row? j = none := by
  by_cases h : j < n <;> simp [empty, row?, h]

@[simp] theorem nrows_assign (μ : Matching) (i j : Nat) : (μ.assign i j).nrows = μ.nrows := by
  simp [assign, nrows]

@[simp] theorem ncols_assign (μ : Matching) (i j : Nat) : (μ.assign i j).ncols = μ.ncols := by
  simp [assign, ncols]

theorem col?_assign (μ : Matching) (i j i' : Nat) :
    (μ.assign i j).col? i' = if i = i' ∧ i < μ.nrows then some j else μ.col? i' := by
  unfold assign col? nrows
  rw [List.getElem?_set]
  by_cases h : i = i'
  · subst h
    by_cases hi : i < μ.colOfRow.length <;> simp [hi]
  · simp [h]

theorem row?_assign (μ : Matching) (i j j' : Nat) :
    (μ.assign i j).row? j' = if j = j' ∧ j < μ.ncols then some i else μ.row? j' := by
  unfold assign row? ncols
  rw [List.getElem?_set]
  by_cases h : j = j'
  · subst h
    by_cases hj : j < μ.rowOfCol.length <;> simp [hj]
  · simp [h]

end Matching

end LinearAssignment
