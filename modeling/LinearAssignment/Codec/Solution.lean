import LinearAssignment.Codec.Trace
import LinearAssignment.Solution

/-! # Solutions as data

    Records are objects with their fields in a fixed order.  A solution has two forms: one
    that is read back as it was, and a payload for display. -/

namespace LinearAssignment

/-- A pair as data. -/
def Pair.toJson (p : Pair) : Json := .obj [("row", .nat p.row), ("col", .nat p.col)]

/-- A pair from data. -/
def Pair.ofJson? (j : Json) : Option Pair :=
  match j.allFields? ["row", "col"] with
  | some [row, col] => do return { row := ← row.nat?, col := ← col.nat? }
  | _ => none

@[simp] theorem Pair.ofJson?_toJson (p : Pair) : Pair.ofJson? p.toJson = some p := by
  simp [Pair.ofJson?, Pair.toJson, Json.allFields?, Json.fields?, Json.onlyMember?]

/-- Padding as data. -/
def Padding.toJson (p : Padding) : Json := .obj [
  ("dummy_rows", .nat p.dummyRows),
  ("dummy_cols", .nat p.dummyCols)]

/-- Padding from data. -/
def Padding.ofJson? (j : Json) : Option Padding :=
  match j.allFields? ["dummy_rows", "dummy_cols"] with
  | some [rows, cols] => do return { dummyRows := ← rows.nat?, dummyCols := ← cols.nat? }
  | _ => none

@[simp] theorem Padding.ofJson?_toJson (p : Padding) : Padding.ofJson? p.toJson = some p := by
  simp [Padding.ofJson?, Padding.toJson, Json.allFields?, Json.fields?, Json.onlyMember?]

namespace Solution

/-- The names of the parts of a solution. -/
def fieldNames : List String := ["original_matrix", "assignment", "total_cost", "maximize",
  "trace", "padding", "iterations"]

/-- A solution as data. -/
def toJson (s : Solution Float) : Json := .obj [
  ("original_matrix", s.source.toJson),
  ("assignment", .list Pair.toJson s.assignment),
  ("total_cost", .ofFloat s.totalCost),
  ("maximize", .bool s.objective.isMaximize),
  ("trace", s.trace.toJson),
  ("padding", s.padding.toJson),
  ("iterations", .nat s.adjustments)]

/-- A solution from data. -/
def ofJson? (j : Json) : Option (Solution Float) :=
  match j.allFields? fieldNames with
  | some [source, assignment, totalCost, maximize, trace, padding, adjustments] => do
    return {
      source := ← CostMatrix.ofJson? source
      assignment := ← assignment.list? Pair.ofJson?
      totalCost := ← totalCost.number?
      objective := .ofFlag (← maximize.bool?)
      trace := ← Trace.ofJson? trace
      padding := ← Padding.ofJson? padding
      adjustments := ← adjustments.nat? }
  | _ => none

/-- The form of a solution that reports and displays take: pairs as lists of two, and the
    total under two names. -/
def payload (s : Solution Float) : Json := .obj [
  ("assignment", .list (fun p => .arr [.nat p.row, .nat p.col]) s.assignment),
  ("total_cost", .ofFloat s.totalCost),
  ("optimal_value", .ofFloat s.totalCost),
  ("steps", s.trace.toJson),
  ("original_matrix", s.source.toJson),
  ("is_maximization", .bool s.objective.isMaximize)]

end Solution

end LinearAssignment
