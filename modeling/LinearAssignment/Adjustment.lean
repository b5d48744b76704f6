import LinearAssignment.Defect
import LinearAssignment.LineCover

/-! # Adjustment: making room for a larger matching

    When the lines of a cover meet every zero and the matching is still incomplete, the
    smallest value on no line is subtracted from every cell on no line and added to every
    cell on two.  This makes a new zero and changes the cost of every complete assignment
    by the same amount. -/

namespace LinearAssignment

namespace Grid

variable {K : Type} [Scalar K]

/-- The values of the cells on no line, row by row. -/
def uncovered (g : Grid K) (lines : LineCover) : List K :=
  (g.mapIdx fun i j v => if lines.isUncovered i j then some v else none).cells.filterMap id

/-- The smallest value on no line.  It has to exist, to be finite and to be positive. -/
def minUncovered (g : Grid K) (lines : LineCover) : Except (Defect K) K :=
  match Scalar.least? (g.uncovered lines) with
  | none => .error (.noUncoveredCell lines.size)
  | some d =>
    if 0 < d then
      if Scalar.isFinite d then .ok d else .error (.noUncoveredCell lines.size)
    else .error (.notPositive d)

/-- Subtract `d` from every cell on no line and add it to every cell on two lines. -/
def adjustBy (g : Grid K) (lines : LineCover) (d : K) : Grid K :=
  g.mapIdx fun i j v =>
    if lines.isUncovered i j then v - d
    else if lines.isDoublyCovered i j then v + d
    else v

/-- Adjust by the smallest value on no line, and say which value that was. -/
def adjust (g : Grid K) (lines : LineCover) : Except (Defect K) (K × Grid K) :=
  (g.minUncovered lines).map fun d => (d, g.adjustBy lines d)

@[simp] theorem ncols_adjustBy (g : Grid K) (lines : LineCover) (d : K) :
    (g.adjustBy lines d).ncols = g.ncols := rfl

@[simp] theorem nrows_adjustBy (g : Grid K) (lines : LineCover) (d : K) :
    (g.adjustBy lines d).nrows = g.nrows :=
  nrows_mapIdx ..

theorem adjust_eq_ok_iff (g : Grid K) (lines : LineCover) (d : K) (g' : Grid K) :
    g.adjust lines = .ok (d, g') ↔ g.minUncovered lines = .ok d ∧ g' = g.adjustBy lines d := by
  unfold adjust
  cases g.minUncovered lines with
  | error e => simp [Except.map]
  | ok d' =>
    simp only [Except.map, Except.ok.injEq, Prod.mk.injEq]
    constructor
    · rintro ⟨rfl, rfl⟩
      exact ⟨rfl, rfl⟩
    · rintro ⟨rfl, rfl⟩
      exact ⟨rfl, rfl⟩

end Grid

end LinearAssignment
