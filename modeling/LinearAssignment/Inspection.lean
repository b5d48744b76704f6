import LinearAssignment.Json.Table
import LinearAssignment.Padding

/-! # Inspection: every problem of an input at once

    Where solving stops at the first failure, an inspection collects all of them, worded for
    display.  The positions of rows and cells are counted from one; input that has no rows is
    worded as by validation.

    A report is valid until the first problem is noted.  Its flag is kept beside the list of
    problems, and the range of the numbers is looked at only while it stands. -/

namespace LinearAssignment

/-- A problem of an input. -/
inductive Finding where
  | malformed (cause : Malformation)
  | empty
  | ragged (row found expected : Nat)
  | notFinite (row col : Nat) (entry : String)
  | outOfRange (failure : Failure Float)
  deriving DecidableEq

/-- The problem in words. -/
def Finding.text : Finding → String
  | .malformed cause => (Failure.malformedInput cause : Failure Float).message
  | .empty => "Matrix is empty"
  | .ragged row found expected => s!"Row {row + 1} has {found} columns, expected {expected}"
  | .notFinite row col entry =>
    s!"Value at row {row + 1}, column {col + 1} is not a finite number: {entry}"
  | .outOfRange failure => failure.message

/-- What an inspection reports. -/
structure Report where
  isValid : Bool
  errors : List String
  warnings : List String
  rows : Nat
  cols : Nat
  isSquare : Bool
  deriving DecidableEq, Repr

namespace Report

/-- The report before any check. -/
def blank : Report := ⟨true, [], [], 0, 0, false⟩

/-- The report with one more problem, invalid from then on. -/
def note (r : Report) (finding : Finding) : Report :=
  { r with isValid := false, errors := r.errors ++ [finding.text] }

/-- The report with more problems, one after the other. -/
def noteAll (r : Report) (findings : List Finding) : Report := findings.foldl note r

/-- The report on a table with `m` rows and `n` columns before its checks. -/
def ofShape (m n : Nat) : Report := { blank with rows := m, cols := n, isSquare := m == n }

/-- The rows whose length is not the width of the table. -/
def raggedRows (table : RawTable Json) : List Finding :=
  table.zipIdx.filterMap fun (row, i) =>
    if row.length = table.width then none else some (.ragged i row.length table.width)

/-- The cells without a finite number, in reading order. -/
def badCells (table : RawTable Json) : List Finding :=
  table.zipIdx.flatMap fun (row, i) => row.zipIdx.filterMap fun (cell, j) =>
    match cell.finiteCell? with
    | some _ => none
    | none => some (.notFinite i j cell.canonical)

/-- The problem with the range of the numbers in the table. -/
def rangeFinding (table : RawTable Json) : List Finding :=
  let fault := Scalar.rangeFault? (Json.numbers table).flatten (max table.length table.width)
  (fault.map Finding.outOfRange).toList

/-- The report on the rows and the cells of a table. -/
def ofCells (table : RawTable Json) : Report :=
  ((ofShape table.length table.width).noteAll (raggedRows table)).noteAll (badCells table)

/-- The range of the numbers is checked unless there is a problem already. -/
def checkRange (r : Report) (table : RawTable Json) : Report :=
  if r.isValid then r.noteAll (rangeFinding table) else r

/-- The report with a warning that the table will be padded, unless it is square. -/
def warnPadding (r : Report) : Report :=
  if r.isSquare then r
  else
    let lines := if r.rows < r.cols then "rows" else "columns"
    let warning := s!"Matrix is unbalanced ({r.rows}x{r.cols}); dummy {lines} will be added"
    { r with warnings := r.warnings ++ [warning] }

/-- The report on a table that has a shape. -/
def ofTable (table : RawTable Json) : Report := ((ofCells table).checkRange table).warnPadding

end Report

/-- Inspect untyped input. -/
def inspect (j : Json) : Report :=
  match j.table? with
  | .error cause => Report.blank.note (.malformed cause)
  | .ok table => if table.width = 0 then Report.blank.note .empty else .ofTable table

end LinearAssignment
