import LinearAssignment.CostMatrix
import LinearAssignment.Json.Decode
import LinearAssignment.Json.Printer
import LinearAssignment.Scalar.Instances
import LinearAssignment.Text.Blank

/-! # Tables of untyped cells

    Input in the form of a list of lists, whose cells are numbers or texts that spell
    numbers.  The checks are those of a typed table, in the same order, preceded by a check
    of the form; a cell that cannot be read counts as one that is not finite. -/

namespace LinearAssignment

namespace Json

/-- The number of a cell: a number itself, or what a text spells without the blank characters
    at its ends. -/
def cell? : Json → Option Float
  | .str s => Decimal.read? (Text.trim s)
  | j => j.number?

/-- The number of a cell, if it is finite. -/
def finiteCell? (j : Json) : Option Float := j.cell?.filter Scalar.isFinite

/-- The items of a list. -/
def items? : Json → Option (List Json)
  | .arr items => some items
  | _ => none

/-- The first row that is no list. -/
def firstBadRow? (rows : List Json) : Option Nat :=
  rows.findIdx? fun row => row.items?.isNone

/-- The rows of a table of cells. -/
def table? (j : Json) : Except Malformation (RawTable Json) :=
  match j.items? with
  | none => .error .notRows
  | some rows =>
    match firstBadRow? rows with
    | some i => .error (.notRow i)
    | none => .ok (rows.filterMap items?)

/-- The failure for a cell without a finite number. -/
def cellFault? (i j : Nat) (cell : Json) : Option (Failure Float) :=
  match cell.finiteCell? with
  | some _ => none
  | none => some (.nonNumericEntry i j cell.canonical)

/-- The first failure of a table of cells, its range of values aside. -/
def tableFault? (table : RawTable Json) : Option (Failure Float) :=
  if table.width = 0 then some .emptyMatrix
  else match table.firstRagged? with
    | some (i, found) => some (.raggedMatrix i table.width found)
    | none => table.firstCell? cellFault?

/-- The numbers of a table of cells. -/
def numbers (table : RawTable Json) : RawTable Float := table.map (·.filterMap finiteCell?)

/-- The numbers that a value holds in the form of a table. -/
def readTable (j : Json) : Except (Failure Float) (RawTable Float) :=
  match j.table? with
  | .error cause => .error (.malformedInput cause)
  | .ok table =>
    match tableFault? table with
    | some failure => .error failure
    | none => .ok (numbers table)

end Json

/-- The cost matrix that a value holds in the form of a table. -/
def CostMatrix.ofJson (j : Json) : Except (Failure Float) (CostMatrix Float) :=
  j.readTable.bind ofRows

end LinearAssignment
