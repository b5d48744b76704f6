import LinearAssignment.Grid
import LinearAssignment.Scalar.Basic

/-! # Reduction: lowering each line by its smallest value

    Subtracting a constant from one row or one column changes the cost of every complete
    assignment by that constant and so does not change which one is best.  After reducing
    the rows and then the columns every line of a non-empty grid of numbers has a zero and
    no cell is negative. -/

namespace LinearAssignment

namespace Grid

variable {K : Type} [Scalar K]

/-- A value lowered by the smallest value of its line.  A line whose smallest value is zero
    stays as it is, and so does a line that holds no number. -/
def lowerBy (smallest : Option K) (v : K) : K :=
  match smallest with
  | none => v
  | some d => if Scalar.isZero d then v else v - d

/-- The smallest value of each row. -/
def rowMinima (g : Grid K) : List (Option K) := g.rows.map Scalar.least?

/-- The smallest value of each column. -/
def columnMinima (g : Grid K) : List (Option K) := g.columns.map Scalar.least?

/-- Each row lowered by its smallest value. -/
def reduceRows (g : Grid K) : Grid K :=
  let minima := g.rowMinima
  g.mapIdx fun i _ v => lowerBy (minima[i]?.getD none) v

/-- Each column lowered by its smallest value. -/
def reduceColumns (g : Grid K) : Grid K :=
  let minima := g.columnMinima
  g.mapIdx fun _ j v => lowerBy (minima[j]?.getD none) v

@[simp] theorem ncols_reduceRows (g : Grid K) : g.reduceRows.ncols = g.ncols := rfl

@[simp] theorem nrows_reduceRows (g : Grid K) : g.reduceRows.nrows = g.nrows :=
  nrows_mapIdx ..

@[simp] theorem ncols_reduceColumns (g : Grid K) : g.reduceColumns.ncols = g.ncols := rfl

@[simp] theorem nrows_reduceColumns (g : Grid K) : g.reduceColumns.nrows = g.nrows :=
  nrows_mapIdx ..

theorem cell?_reduceRows (g : Grid K) (i j : Nat) :
    g.reduceRows.cell? i j = (g.cell? i j).map (lowerBy (g.rowMinima[i]?.getD none)) :=
  cell?_mapIdx ..

theorem cell?_reduceColumns (g : Grid K) (i j : Nat) :
    g.reduceColumns.cell? i j = (g.cell? i j).map (lowerBy (g.columnMinima[j]?.getD none)) :=
  cell?_mapIdx ..

end Grid

end LinearAssignment
