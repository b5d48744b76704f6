import LinearAssignment.Matching.Alternating

/-! # Line covers: rows and columns that meet every zero

    A cover is read off a matching by marking.  Unpaired rows are marked, zeros in marked
    rows mark their columns, and pairs in marked columns mark their rows.  The unmarked rows
    and the marked columns then meet every zero, and when the matching is as large as can
    be there are as many of them as there are pairs. -/

namespace LinearAssignment

/-- A choice of rows and columns of a table. -/
structure LineCover where
  /-- For each row, whether it is chosen. -/
  rows : List Bool
  /-- For each column, whether it is chosen. -/
  cols : List Bool
  deriving DecidableEq, Repr

namespace LineCover

/-- Row `i` is chosen; false for a row outside the table of the cover. -/
def coversRow (lines : LineCover) (i : Nat) : Bool := lines.rows[i]?.getD false

/-- Column `j` is chosen; false for a column outside the table of the cover. -/
def coversCol (lines : LineCover) (j : Nat) : Bool := lines.cols[j]?.getD false

/-- The cell lies in the table of the cover, and neither its row nor its column is chosen. -/
def isUncovered (lines : LineCover) (i j : Nat) : Bool :=
  i < lines.rows.length && j < lines.cols.length && !lines.coversRow i && !lines.coversCol j

/-- Both the row and the column of the cell are chosen. -/
def isDoublyCovered (lines : LineCover) (i j : Nat) : Bool :=
  lines.coversRow i && lines.coversCol j

/-- The chosen rows in ascending order. -/
def coveringRows (lines : LineCover) : List Nat :=
  (List.range lines.rows.length).filter lines.coversRow

/-- The chosen columns in ascending order. -/
def coveringCols (lines : LineCover) : List Nat :=
  (List.range lines.cols.length).filter lines.coversCol

/-- Number of chosen lines. -/
def size (lines : LineCover) : Nat := lines.rows.count true + lines.cols.count true

/-- Nothing is chosen. -/
def isEmpty (lines : LineCover) : Bool := lines.size == 0

/-- The choice that a test on rows and a test on columns make in a table of the given
    shape. -/
def ofTests (m n : Nat) (row col : Nat → Bool) : LineCover where
  rows := (List.range m).map row
  cols := (List.range n).map col

theorem coversRow_ofTests (m n : Nat) (row col : Nat → Bool) (i : Nat) :
    (ofTests m n row col).coversRow i = (decide (i < m) && row i) := by
  by_cases h : i < m <;> simp [ofTests, coversRow, h]

theorem coversCol_ofTests (m n : Nat) (row col : Nat → Bool) (j : Nat) :
    (ofTests m n row col).coversCol j = (decide (j < n) && col j) := by
  by_cases h : j < n <;> simp [ofTests, coversCol, h]

end LineCover

namespace ZeroPattern

/-- The rows without a partner. -/
def unpairedRows (p : ZeroPattern) (μ : Matching) : List Nat :=
  (List.range p.nrows).filter fun i => (μ.col? i).isNone

/-- The cover that marking from the unpaired rows yields: rows that are not marked and
    columns that are. -/
def cover (p : ZeroPattern) (μ : Matching) : LineCover :=
  let paths := p.pathsFrom μ (p.unpairedRows μ)
  let markedCols := paths.filterMap (·.lastCol?)
  let markedRows := p.unpairedRows μ ++ paths.filterMap μ.next?
  .ofTests p.nrows p.ncols (fun i => !markedRows.contains i) markedCols.contains

end ZeroPattern

end LinearAssignment
