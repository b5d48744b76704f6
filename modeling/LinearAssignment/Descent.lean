import LinearAssignment.Adjustment
import LinearAssignment.Trace

/-! # Descent: rounds of adjustment on a reduced matrix

    The loop at the heart of the method.  A largest matching over the zeros of the working
    matrix is sought; while it is incomplete, the zeros are covered by as many lines as the
    matching has pairs, and the matrix is adjusted.

    A descent keeps every round, so that what happened on the way can be displayed and
    reasoned about, and says how it ended.  Rounds are bounded by a budget; running out of
    it is an ending of its own. -/

namespace LinearAssignment

/-- One adjustment: the incomplete matching that called for it, the lines that covered the
    zeros, the smallest value on no line, and the matrix after adjusting by it. -/
structure Round (K : Type) where
  matching : Matching
  lines : LineCover
  value : K
  matrix : Grid K

/-- Why a descent ended. -/
inductive Ending (K : Type) where
  /-- Every row is paired. -/
  | complete (matching : Matching)
  /-- The matching is incomplete, and the matrix cannot be adjusted to these lines. -/
  | stuck (matching : Matching) (lines : LineCover) (defect : Defect K)
  /-- The budget of rounds is used up. -/
  | exhausted

/-- The rounds of a run and its ending. -/
structure Descent (K : Type) where
  rounds : List (Round K)
  ending : Ending K

variable {K : Type} [Scalar K]

/-- One round on a working matrix, or the reason why there is none. -/
def Grid.round (g : Grid K) : Except (Ending K) (Round K) :=
  let μ := g.zeroPattern.maximumMatching
  if μ.isComplete then .error (.complete μ)
  else
    let lines := g.zeroPattern.cover μ
    if lines.size = μ.size then
      match g.adjust lines with
      | .error defect => .error (.stuck μ lines defect)
      | .ok (d, g') => .ok ⟨μ, lines, d, g'⟩
    else .error (.stuck μ lines (.coverSize lines.size μ.size))

/-- Rounds on a working matrix until an ending; after a round that finds the budget at zero
    no further one is tried. -/
def Grid.descend (budget : Nat) (g : Grid K) : Descent K :=
  match g.round with
  | .error ending => ⟨[], ending⟩
  | .ok r =>
    match budget with
    | 0 => ⟨[r], .exhausted⟩
    | budget + 1 =>
      let rest := r.matrix.descend budget
      ⟨r :: rest.rounds, rest.ending⟩

/-- More rounds than a square matrix with `n` rows can need. -/
def roundBudget (n : Nat) : Nat := (n + 1) * (n + 1)

namespace Descent

/-- The complete matching, or the defect that kept the descent from one. -/
def outcome (d : Descent K) : Except (Defect K) Matching :=
  match d.ending with
  | .complete μ => .ok μ
  | .stuck _ _ defect => .error defect
  | .exhausted => .error (.unfinished d.rounds.length)

/-- One snapshot for every round. -/
def steps (d : Descent K) : Trace K :=
  d.rounds.map fun r =>
    .ofGrid s!"Adjust matrix (min uncovered: {Scalar.text r.value})" r.matrix

/-- The report that a matching of some rows out of `n` was found in an iteration. -/
def matchedEntry (n iteration : Nat) (μ : Matching) : LogEntry :=
  ⟨.debug, s!"Iteration {iteration}: matched {μ.size}/{n}"⟩

/-- The report of a cover. -/
def coverEntry (lines : LineCover) : LogEntry :=
  let rows := listing lines.coveringRows
  let cols := listing lines.coveringCols
  ⟨.trace, s!"Covering rows {rows}, columns {cols}"⟩

/-- The reports of the ending, for a matrix with `n` rows. -/
def endingLog (n iteration : Nat) : Ending K → List LogEntry
  | .complete μ => [matchedEntry n iteration μ]
  | .stuck μ lines defect =>
    [matchedEntry n iteration μ, coverEntry lines] ++ defect.warning?.toList
  | .exhausted => []

/-- The reports of the whole descent, for a matrix with `n` rows. -/
def log (n : Nat) (d : Descent K) : List LogEntry :=
  (d.rounds.zipIdx.flatMap fun (r, i) => [matchedEntry n i r.matching, coverEntry r.lines])
    ++ endingLog n d.rounds.length d.ending

end Descent

end LinearAssignment
