import LinearAssignment.Inspection
import LinearAssignment.Json.Decode

/-! # Reports as data

    A report is an object with its fields in a fixed order, and is read back as it was. -/

namespace LinearAssignment

namespace Report

/-- The names of the parts of a report. -/
def fieldNames : List String := ["is_valid", "errors", "warnings", "rows", "cols", "is_square"]

/-- A report as data. -/
def toJson (r : Report) : Json := .obj [
  ("is_valid", .bool r.isValid),
  ("errors", .list .str r.errors),
  ("warnings", .list .str r.warnings),
  ("rows", .nat r.rows),
  ("cols", .nat r.cols),
  ("is_square", .bool r.isSquare)]

/-- A report from data. -/
def ofJson? (j : Json) : Option Report :=
  match j.allFields? fieldNames with
  | some [isValid, errors, warnings, rows, cols, isSquare] => do
    return {
      isValid := ← isValid.bool?
      errors := ← errors.list? Json.str?
      warnings := ← warnings.list? Json.str?
      rows := ← rows.nat?
      cols := ← cols.nat?
      isSquare := ← isSquare.bool? }
  | _ => none

end Report

end LinearAssignment
