import LinearAssignment.Grid
import LinearAssignment.Scalar.Basic

/-! # Complement: from rewards to costs

    Maximizing a total is minimizing the total of the complement, in which every value is
    replaced by its distance from the largest one. -/

namespace LinearAssignment

namespace Grid

variable {K : Type} [Scalar K]

/-- The largest value of the grid, `none` when it holds no number. -/
def greatest? (g : Grid K) : Option K := Scalar.greatest? g.cells

/-- Every value replaced by its distance from the largest one. -/
def complement (g : Grid K) : Grid K :=
  match g.greatest? with
  | none => g
  | some top => g.map (top - ·)

@[simp] theorem ncols_complement (g : Grid K) : g.complement.ncols = g.ncols := by
  unfold complement
  split <;> rfl

@[simp] theorem nrows_complement (g : Grid K) : g.complement.nrows = g.nrows := by
  unfold complement
  split
  · rfl
  · exact nrows_mapIdx ..

end Grid

end LinearAssignment
