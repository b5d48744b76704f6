import LinearAssignment.Json.Table
import LinearAssignment.Trace

/-! # Matrices and traces as data

    A matrix is the list of its rows, and a trace the list of its snapshots.  A cost matrix
    is validated as it is read. -/

namespace LinearAssignment

/-- A table of floats as data. -/
def RawTable.toJson (table : RawTable Float) : Json := .list (.list .ofFloat) table

/-- A table of floats from data. -/
def RawTable.ofJson? (j : Json) : Option (RawTable Float) :=
  j.list? fun row => row.list? Json.number?

/-- A cost matrix as data is the list of its rows. -/
def CostMatrix.toJson (a : CostMatrix Float) : Json := RawTable.toJson a.rows

/-- A cost matrix from data, validated. -/
def CostMatrix.ofJson? (j : Json) : Option (CostMatrix Float) :=
  (RawTable.ofJson? j).bind fun table => (CostMatrix.ofRows table).toOption

/-- A snapshot as data. -/
def Step.toJson (s : Step Float) : Json := .obj [
  ("description", .str s.label),
  ("matrix", s.matrix.toJson)]

/-- A snapshot from data. -/
def Step.ofJson? (j : Json) : Option (Step Float) :=
  match j.allFields? ["description", "matrix"] with
  | some [label, matrix] => do
    return { label := ← label.str?, matrix := ← RawTable.ofJson? matrix }
  | _ => none

/-- A trace as data is the list of its snapshots. -/
def Trace.toJson (t : Trace Float) : Json := .list Step.toJson t

/-- A trace from data. -/
def Trace.ofJson? (j : Json) : Option (Trace Float) := j.list? Step.ofJson?

end LinearAssignment
