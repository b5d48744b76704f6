import LinearAssignment.Grid
import LinearAssignment.RawTable

/-! # Traces: the working matrix stage by stage

    A trace is a list of labelled snapshots, in the order in which they were taken.  It is a
    record for display and has no part in the answer. -/

namespace LinearAssignment

/-- One labelled snapshot. -/
structure Step (K : Type) where
  label : String
  /-- The rows of the working matrix. -/
  matrix : RawTable K
  deriving DecidableEq, BEq

/-- Snapshots in the order in which they were taken. -/
abbrev Trace (K : Type) : Type := List (Step K)

/-- A snapshot of a grid. -/
def Step.ofGrid {K : Type} (label : String) (g : Grid K) : Step K := ⟨label, g.rows⟩

namespace Trace

variable {K : Type}

/-- The labels alone. -/
def labels (t : Trace K) : List String := t.map (·.label)

/-- The trace with a snapshot added at its end. -/
def record (t : Trace K) (label : String) (g : Grid K) : Trace K := t ++ [.ofGrid label g]

end Trace

end LinearAssignment
