import LinearAssignment.Log
import LinearAssignment.Scalar.Basic

/-! # Defects: steps of the solver that cannot go on

    Each constructor names a way in which the adjustment loop could get stuck.  Over exact
    numbers none of them arises; rounding can make one arise. -/

namespace LinearAssignment

/-- A broken invariant of the adjustment loop. -/
inductive Defect (K : Type) where
  /-- Every cell lies on one of this many covering lines, or no uncovered one has a finite
      value, and yet the matching is incomplete. -/
  | noUncoveredCell (lines : Nat)
  /-- The smallest uncovered value is not positive. -/
  | notPositive (value : K)
  /-- The cover does not have as many lines as the matching has pairs. -/
  | coverSize (lines pairs : Nat)
  /-- The matching is still incomplete after more adjustments than can be needed. -/
  | unfinished (adjustments : Nat)
  deriving DecidableEq

namespace Defect

variable {K : Type} [Scalar K]

/-- The defect in words. -/
def message : Defect K → String
  | .noUncoveredCell _ => "no uncovered cell left while the matching is incomplete"
  | .notPositive v => s!"minimum uncovered value {Scalar.text v} is not positive"
  | .coverSize lines pairs => s!"cover has {lines} lines for a matching of size {pairs}"
  | .unfinished adjustments => s!"no complete matching after {adjustments} adjustments"

/-- The warning that goes with a defect found while looking for the smallest uncovered
    value; the other two are reported only as failures. -/
def warning? : Defect K → Option LogEntry
  | .noUncoveredCell lines =>
    some ⟨.warn, s!"No uncovered cell with {lines} covering lines"⟩
  | .notPositive v =>
    some ⟨.warn, s!"Minimum uncovered value {Scalar.text v} is not positive"⟩
  | .coverSize .. | .unfinished _ => none

end Defect

end LinearAssignment
