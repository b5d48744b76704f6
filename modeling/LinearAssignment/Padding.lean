import LinearAssignment.Grid
import LinearAssignment.Scalar.Basic

/-! # Padding: squaring a rectangular table

    Matching rows with columns one to one needs a square table, so the shorter dimension
    receives dummy lines whose cells are all zero: a real line matched with a dummy one
    costs nothing. -/

namespace LinearAssignment

/-- Numbers of dummy rows and columns added to make a table square. -/
structure Padding where
  dummyRows : Nat
  dummyCols : Nat
  deriving DecidableEq, Repr

namespace Padding

/-- Nothing was added. -/
def isEmpty (p : Padding) : Bool := p.dummyRows == 0 && p.dummyCols == 0

/-- What squares a table with `m` rows and `n` columns. -/
def ofShape (m n : Nat) : Padding where
  dummyRows := max m n - m
  dummyCols := max m n - n

/-- A count of dummy lines of one kind, in words. -/
def countLabel (count : Nat) (line : String) : String :=
  if count = 1 then s!"Add 1 dummy {line}" else s!"Add {count} dummy {line}s"

/-- How the step is announced, `none` when nothing was added.  Rows are named first; a
    table never needs both. -/
def label? (p : Padding) : Option String :=
  if 0 < p.dummyRows then some (countLabel p.dummyRows "row")
  else if 0 < p.dummyCols then some (countLabel p.dummyCols "column")
  else none

@[simp] theorem ofShape_self (n : Nat) : ofShape n n = ⟨0, 0⟩ := by simp [ofShape]

theorem label?_eq_none_iff (p : Padding) : p.label? = none ↔ p.isEmpty = true := by
  unfold label? isEmpty
  rcases p with ⟨r, c⟩
  cases r <;> cases c <;> simp

theorem isEmpty_ofShape_iff (m n : Nat) : (ofShape m n).isEmpty = true ↔ m = n := by
  simp [ofShape, isEmpty]
  omega

end Padding

namespace Grid

variable {K : Type} [Scalar K]

/-- What squares this grid. -/
def padding (g : Grid K) : Padding := .ofShape g.nrows g.ncols

/-- The grid squared by dummy rows or columns of zeros. -/
def balanced (g : Grid K) : Grid K :=
  if g.isSquare then g else g.padTo g.dimension 0

@[simp] theorem ncols_balanced (g : Grid K) : g.balanced.ncols = g.dimension := by
  unfold balanced
  split
  · next h => simp [isSquare] at h; simp [dimension, h]
  · rfl

@[simp] theorem nrows_balanced (g : Grid K) : g.balanced.nrows = g.dimension := by
  unfold balanced
  split
  · next h => simp [isSquare] at h; simp [dimension, h]
  · exact nrows_ofFn ..

end Grid

end LinearAssignment
