/-! # Grids: rectangular tables of values

    A grid is a list of rows of one common length.  The number of columns is kept beside
    the rows, so a grid without rows still has a width and a grid without columns still
    has a height.

    Positions are plain numbers counted from zero and every accessor is total: `cell?`
    answers `none` outside the grid.  Operations are described through `cell?`, so that
    later modules need not look at the list of rows. -/

namespace LinearAssignment

/-- A rectangular table of values in row order. -/
structure Grid (K : Type) where
  /-- Number of columns. -/
  ncols : Nat
  /-- The rows from top to bottom. -/
  rows : List (List K)
  /-- Every row is as long as the grid is wide. -/
  rect : ∀ row ∈ rows, row.length = ncols
  deriving DecidableEq

namespace Grid

variable {K L : Type}

/-! ## Shape and access -/

/-- Number of rows. -/
def nrows (g : Grid K) : Nat := g.rows.length

/-- Number of rows and number of columns. -/
def shape (g : Grid K) : Nat × Nat := (g.nrows, g.ncols)

/-- As many rows as columns. -/
def isSquare (g : Grid K) : Bool := g.nrows == g.ncols

/-- The larger of the two dimensions. -/
def dimension (g : Grid K) : Nat := max g.nrows g.ncols

/-- The value at row `i` and column `j`, `none` outside the grid. -/
def cell? (g : Grid K) (i j : Nat) : Option K := g.rows[i]?.bind (·[j]?)

/-- The values of column `j` from top to bottom. -/
def column (g : Grid K) (j : Nat) : List K := g.rows.filterMap (·[j]?)

/-- The columns from left to right. -/
def columns (g : Grid K) : List (List K) := (List.range g.ncols).map g.column

/-- All values, row by row. -/
def cells (g : Grid K) : List K := g.rows.flatten

theorem length_of_getElem? (g : Grid K) {i : Nat} {row : List K} (h : g.rows[i]? = some row) :
    row.length = g.ncols :=
  g.rect row (List.mem_of_getElem? h)

theorem cell?_isSome_iff (g : Grid K) (i j : Nat) :
    (g.cell? i j).isSome ↔ i < g.nrows ∧ j < g.ncols := by
  unfold cell? nrows
  cases h : g.rows[i]? with
  | none =>
    have := List.getElem?_eq_none_iff.mp h
    simp only [Option.bind_none, Option.isSome_none, Bool.false_eq_true, false_iff]
    omega
  | some row =>
    have hi : i < g.rows.length := (List.getElem?_eq_some_iff.mp h).1
    simp [hi, g.length_of_getElem? h]

theorem cell?_eq_none_iff (g : Grid K) (i j : Nat) :
    g.cell? i j = none ↔ g.nrows ≤ i ∨ g.ncols ≤ j := by
  have h := g.cell?_isSome_iff i j
  cases hc : g.cell? i j with
  | none => simp [hc] at h ⊢; omega
  | some v => simp [hc] at h ⊢; omega

/-- Two grids of one width are equal when they agree in height and at every position. -/
theorem ext_cell? {g h : Grid K} (hc : g.ncols = h.ncols) (hr : g.nrows = h.nrows)
    (hv : ∀ i j, g.cell? i j = h.cell? i j) : g = h := by
  suffices hrows : g.rows = h.rows by
    cases g; cases h; simp_all
  apply List.ext_getElem?
  intro i
  cases hg : g.rows[i]? with
  | none =>
    have := List.getElem?_eq_none_iff.mp hg
    exact (List.getElem?_eq_none_iff.mpr (by simp only [nrows] at hr; omega)).symm
  | some row =>
    have hi : i < g.rows.length := (List.getElem?_eq_some_iff.mp hg).1
    have hi' : i < h.rows.length := by simp only [nrows] at hr; omega
    rw [List.getElem?_eq_getElem hi']
    congr 1
    apply List.ext_getElem?
    intro j
    have := hv i j
    simpa [cell?, hg, List.getElem?_eq_getElem hi'] using this

/-! ## Building and changing grids -/

/-- The grid of the given shape whose value at row `i` and column `j` is `f i j`. -/
def ofFn (nrows ncols : Nat) (f : Nat → Nat → K) : Grid K where
  ncols := ncols
  rows := (List.range nrows).map fun i => (List.range ncols).map (f i)
  rect := by simp

@[simp] theorem ncols_ofFn (m n : Nat) (f : Nat → Nat → K) : (ofFn m n f).ncols = n := rfl

@[simp] theorem nrows_ofFn (m n : Nat) (f : Nat → Nat → K) : (ofFn m n f).nrows = m := by
  simp [nrows, ofFn]

theorem cell?_ofFn (m n : Nat) (f : Nat → Nat → K) (i j : Nat) :
    (ofFn m n f).cell? i j = if i < m ∧ j < n then some (f i j) else none := by
  by_cases hi : i < m <;> by_cases hj : j < n <;> simp [cell?, ofFn, hi, hj]

/-- The grid with these rows, `none` unless all of them have the given length. -/
def ofRows? (ncols : Nat) (rows : List (List K)) : Option (Grid K) :=
  if h : ∀ row ∈ rows, row.length = ncols then some ⟨ncols, rows, h⟩ else none

/-- Change every value by a rule that may look at its position. -/
def mapIdx (g : Grid K) (f : Nat → Nat → K → L) : Grid L where
  ncols := g.ncols
  rows := g.rows.mapIdx fun i row => row.mapIdx (f i)
  rect := by
    intro row h
    obtain ⟨i, hi, rfl⟩ := List.mem_mapIdx.mp h
    simpa using g.rect _ (List.getElem_mem hi)

@[simp] theorem ncols_mapIdx (g : Grid K) (f : Nat → Nat → K → L) :
    (g.mapIdx f).ncols = g.ncols := rfl

@[simp] theorem nrows_mapIdx (g : Grid K) (f : Nat → Nat → K → L) :
    (g.mapIdx f).nrows = g.nrows := by
  simp [nrows, mapIdx]

@[simp] theorem cell?_mapIdx (g : Grid K) (f : Nat → Nat → K → L) (i j : Nat) :
    (g.mapIdx f).cell? i j = (g.cell? i j).map (f i j) := by
  simp only [cell?, mapIdx, List.getElem?_mapIdx]
  cases g.rows[i]? <;> simp

/-- Change every value by one rule. -/
def map (g : Grid K) (f : K → L) : Grid L := g.mapIdx fun _ _ => f

/-- The grid with the value at row `i` and column `j` replaced; unchanged when the position
    lies outside. -/
def set (g : Grid K) (i j : Nat) (v : K) : Grid K :=
  g.mapIdx fun i' j' old => if i' = i ∧ j' = j then v else old

/-- Rows and columns exchanged. -/
def transpose (g : Grid K) : Grid K where
  ncols := g.nrows
  rows := g.columns
  rect := by
    intro row h
    obtain ⟨j, hj, rfl⟩ := List.mem_map.mp h
    have hj : j < g.ncols := List.mem_range.mp hj
    have key : ∀ rows : List (List K), (∀ row ∈ rows, j < row.length) →
        (rows.filterMap (·[j]?)).length = rows.length := by
      intro rows
      induction rows with
      | nil => simp
      | cons row rows ih =>
        intro hrows
        have hrow : j < row.length := hrows row (by simp)
        have := ih fun row h => hrows row (by simp [h])
        simpa [List.getElem?_eq_getElem hrow] using this
    exact key g.rows fun row h => by rw [g.rect row h]; exact hj

/-- The grid enlarged to `n` rows and `n` columns, new positions filled with `fill`. -/
def padTo (g : Grid K) (n : Nat) (fill : K) : Grid K :=
  ofFn n n fun i j => (g.cell? i j).getD fill

theorem cell?_padTo (g : Grid K) (n : Nat) (fill : K) (i j : Nat) :
    (g.padTo n fill).cell? i j =
      if i < n ∧ j < n then some ((g.cell? i j).getD fill) else none :=
  cell?_ofFn ..

end Grid

end LinearAssignment
