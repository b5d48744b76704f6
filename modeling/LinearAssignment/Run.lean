import LinearAssignment.Complement
import LinearAssignment.Descent
import LinearAssignment.Reduction
import LinearAssignment.Solution

/-! # Runs: from a cost matrix to a solution

    A run turns the source into costs, squares it, reduces rows and columns and descends.
    It keeps every intermediate matrix; the solution, the trace and the log are views of
    it. -/

namespace LinearAssignment

/-- All matrices of one run, in the order in which they arise, and the descent at its end. -/
structure Run (K : Type) [Scalar K] where
  config : Config
  source : CostMatrix K
  /-- Small is good: the source, or its complement when maximizing. -/
  costs : Grid K
  balanced : Grid K
  rowReduced : Grid K
  reduced : Grid K
  descent : Descent K

/-- A table in which small is good. -/
def Objective.costs {K : Type} [Scalar K] (o : Objective) (g : Grid K) : Grid K :=
  match o with
  | .minimize => g
  | .maximize => g.complement

namespace Run

variable {K : Type} [Scalar K]

/-- The run on a source. -/
def ofSource (config : Config) (source : CostMatrix K) : Run K :=
  let costs := config.objective.costs source.toGrid
  let balanced := costs.balanced
  let rowReduced := balanced.reduceRows
  let reduced := rowReduced.reduceColumns
  let descent := reduced.descend (roundBudget reduced.nrows)
  { config, source, costs, balanced, rowReduced, reduced, descent }

/-- What squared the source. -/
def padding (r : Run K) : Padding := r.source.toGrid.padding

/-! ## Views -/

/-- A snapshot of every matrix of the run. -/
def steps (r : Run K) : Trace K :=
  [.ofGrid "Input matrix" r.source.toGrid]
    ++ (if r.config.objective.isMaximize then
          [.ofGrid "Convert maximization to minimization" r.costs] else [])
    ++ (r.padding.label?.map fun label => .ofGrid label r.balanced).toList
    ++ [.ofGrid "Row reduction" r.rowReduced, .ofGrid "Column reduction" r.reduced]
    ++ r.descent.steps

/-- The snapshots to keep: all of them, or the input alone. -/
def trace (r : Run K) : Trace K := if r.config.recordTrace then r.steps else r.steps.take 1

/-- The pairs of a matching that lie in the source, without those of dummy lines. -/
def realPairs (r : Run K) (μ : Matching) : List Pair :=
  (μ.pairs.filter fun (i, j) => i < r.source.nrows && j < r.source.ncols).map
    fun (i, j) => ⟨i, j⟩

/-- The sum of the source cells at the given pairs. -/
def costOf (r : Run K) (assignment : List Pair) : K :=
  Scalar.total (assignment.filterMap fun p => r.source.cell? p.row p.col)

/-- The solution that a complete matching of the balanced matrix stands for. -/
def solutionOf (r : Run K) (μ : Matching) : Solution K :=
  let assignment := r.realPairs μ
  { source := r.source
    assignment := assignment
    totalCost := r.costOf assignment
    objective := r.config.objective
    trace := r.trace
    padding := r.padding
    adjustments := r.descent.rounds.length }

/-- The solution, or the invariant that broke. -/
def outcome (r : Run K) : Except (Failure K) (Solution K) :=
  match r.descent.outcome with
  | .error defect => .error (.invariantViolated defect)
  | .ok μ => .ok (r.solutionOf μ)

/-- The reports made before the descent. -/
def preparationLog (r : Run K) : List LogEntry :=
  let source := r.source.toGrid
  let objective := r.config.objective
  [⟨.debug, s!"Solving {source.nrows}x{source.ncols} assignment ({objective.name})"⟩]
    ++ (if objective.isMaximize then
          let top := Scalar.greatestText source.greatest?
          [⟨.debug, s!"Converted to minimization against max {top}"⟩] else [])
    ++ (r.padding.label?.map fun label =>
          ⟨.debug, s!"{label} to reach {r.balanced.nrows}x{r.balanced.ncols}"⟩).toList

/-- The report of a solution. -/
def solvedEntry (s : Solution K) : LogEntry :=
  let pairs := s.assignment.length
  let cost := Scalar.text s.totalCost
  ⟨.debug, s!"Solved after {s.adjustments} adjustments: {pairs} pairs, total cost {cost}"⟩

/-- The reports of the whole run. -/
def log (r : Run K) : List LogEntry :=
  r.preparationLog ++ r.descent.log r.reduced.nrows
    ++ (r.outcome.toOption.map solvedEntry).toList

end Run

end LinearAssignment
