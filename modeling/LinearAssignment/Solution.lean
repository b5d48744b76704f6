import LinearAssignment.Config
import LinearAssignment.CostMatrix
import LinearAssignment.Padding
import LinearAssignment.Trace

/-! # Solutions: the answer to an assignment problem

    Rows stand for workers and columns for tasks.  A solution names the pairs chosen, in the
    positions of the input, and what they cost there; with it come the input itself and the
    way to the answer. -/

namespace LinearAssignment

/-- How a row is called, counted from one. -/
def workerLabel (row : Nat) : String := s!"Worker {row + 1}"

/-- How a column is called, counted from one. -/
def taskLabel (col : Nat) : String := s!"Task {col + 1}"

/-- A row and the column chosen for it. -/
structure Pair where
  row : Nat
  col : Nat
  deriving DecidableEq, Repr

namespace Pair

/-- The pair in words. -/
def label (p : Pair) : String := s!"{workerLabel p.row} -> {taskLabel p.col}"

/-- Pairs are ordered by row, and within a row by column. -/
def le (a b : Pair) : Bool := a.row < b.row || (a.row == b.row && a.col ≤ b.col)

end Pair

/-- An answer, and how it was found. -/
structure Solution (K : Type) [Scalar K] where
  /-- The matrix as supplied, before any conversion or padding. -/
  source : CostMatrix K
  /-- The pairs chosen, in ascending order of their rows, without dummy lines. -/
  assignment : List Pair
  /-- The sum of the source cells at these pairs. -/
  totalCost : K
  objective : Objective
  trace : Trace K
  padding : Padding
  /-- How often the working matrix was adjusted. -/
  adjustments : Nat

namespace Solution

variable {K : Type} [Scalar K]

/-- Solutions are compared part by part, scalars as numbers. -/
instance : BEq (Solution K) where
  beq a b :=
    a.source == b.source && a.assignment == b.assignment && a.totalCost == b.totalCost
      && a.objective == b.objective && a.trace == b.trace && a.padding == b.padding
      && a.adjustments == b.adjustments

/-- The column chosen for row `i`. -/
def colForRow? (s : Solution K) (i : Nat) : Option Nat :=
  (s.assignment.find? (·.row == i)).map (·.col)

/-- A table of the shape of the source, one at every chosen cell and zero elsewhere. -/
def indicator (s : Solution K) : Grid Nat :=
  .ofFn s.source.nrows s.source.ncols fun i j => if s.assignment.contains ⟨i, j⟩ then 1 else 0

/-- One line for every pair.  A pair outside the source costs nothing. -/
def description (s : Solution K) : List String :=
  s.assignment.map fun p =>
    let cost := Scalar.text ((s.source.cell? p.row p.col).getD 0)
    s!"{p.label} (cost {cost})"

end Solution

end LinearAssignment
