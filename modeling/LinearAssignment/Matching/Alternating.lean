import LinearAssignment.Matching.Greedy

/-! # Alternating paths: growing a matching to its largest size

    An alternating path leaves a row along a zero and returns from a column along its pair.
    One that starts at an unpaired row and ends in a free column can be flipped: every zero
    it used becomes a pair, and the matching gains one.

    `explore` is a breadth-first walk over all alternating paths from given rows; it reaches
    every column once, along a path that it hands back.  The search for a path to a free
    column and the marking behind the line cover are both read off this one walk. -/

namespace LinearAssignment

/-- The zeros used by an alternating path, the latest first, each with its row and column. -/
abbrev AlternatingPath : Type := List (Nat × Nat)

namespace AlternatingPath

/-- The column in which the path ends. -/
def lastCol? (path : AlternatingPath) : Option Nat := path.head?.map (·.2)

end AlternatingPath

namespace Matching

/-- The row that `path` goes on to: the partner of its last column. -/
def next? (μ : Matching) (path : AlternatingPath) : Option Nat := path.lastCol?.bind μ.row?

/-- The rows that the given paths go on to, each with its path. -/
def continuations (μ : Matching) (paths : List AlternatingPath) :
    List (Nat × AlternatingPath) :=
  paths.filterMap fun path => (μ.next? path).map (·, path)

theorem length_continuations_le (μ : Matching) (paths : List AlternatingPath) :
    (μ.continuations paths).length ≤ paths.length :=
  List.length_filterMap_le ..

/-- Pair the ends of every zero of the path. -/
def flip (μ : Matching) (path : AlternatingPath) : Matching :=
  path.foldl (fun μ (row, col) => μ.assign row col) μ

end Matching

namespace ZeroPattern

/-- The paths that go on from `row`, reached by `path`, to the columns not seen yet. -/
def found (p : ZeroPattern) (unseen : List Nat) (row : Nat) (path : AlternatingPath) :
    List AlternatingPath :=
  (unseen.filter (p.zerosOf row).contains).map fun col => (row, col) :: path

/-- The columns that remain unseen after leaving from `row`. -/
def remaining (p : ZeroPattern) (unseen : List Nat) (row : Nat) : List Nat :=
  unseen.filter fun col => !(p.zerosOf row).contains col

theorem length_found_add_length_remaining (p : ZeroPattern) (unseen : List Nat) (row : Nat)
    (path : AlternatingPath) :
    (p.found unseen row path).length + (p.remaining unseen row).length = unseen.length := by
  have := (List.filter_append_perm (p.zerosOf row).contains unseen).length_eq
  simpa [found, remaining] using this

/-- Breadth-first walk over alternating paths.  `queue` holds the rows to leave from, each
    with the path that led there; `unseen` holds the columns not reached yet.  The answer
    lists one path for every column reached, in the order of discovery: columns ascend
    within a row, and rows follow in the order in which they were reached. -/
def explore (p : ZeroPattern) (μ : Matching) (unseen : List Nat)
    (queue : List (Nat × AlternatingPath)) : List AlternatingPath :=
  match queue with
  | [] => []
  | (row, path) :: queue =>
    let paths := p.found unseen row path
    paths ++ p.explore μ (p.remaining unseen row) (queue ++ μ.continuations paths)
termination_by unseen.length + queue.length
decreasing_by
  have seen := p.length_found_add_length_remaining unseen row path
  have joined := μ.length_continuations_le (p.found unseen row path)
  simp only [List.length_append, List.length_cons]
  omega

/-- The paths from the given rows, one for every column that they lead to. -/
def pathsFrom (p : ZeroPattern) (μ : Matching) (roots : List Nat) : List AlternatingPath :=
  p.explore μ (List.range p.ncols) (roots.map (·, []))

/-- The first path from row `i` that ends in a free column. -/
def augmentingPath? (p : ZeroPattern) (μ : Matching) (i : Nat) : Option AlternatingPath :=
  (p.pathsFrom μ [i]).find? fun path => (μ.next? path).isNone

/-- The matching grown by one: an augmenting path from the unpaired row `i` is flipped.  There
    is none when no path from the row ends in a free column. -/
def augmentFrom? (p : ZeroPattern) (μ : Matching) (i : Nat) : Option Matching :=
  (p.augmentingPath? μ i).map μ.flip

/-- Pair row `i` as well, if it is unpaired and that can be done. -/
def augmentRow (p : ZeroPattern) (μ : Matching) (i : Nat) : Matching :=
  if (μ.col? i).isSome then μ else (p.augmentFrom? μ i).getD μ

/-- Grow a matching to the largest size, trying each row once from top to bottom. -/
def augment (p : ZeroPattern) (μ : Matching) : Matching :=
  (List.range p.nrows).foldl p.augmentRow μ

/-- A largest matching over the zeros, grown from the greedy one. -/
def maximumMatching (p : ZeroPattern) : Matching := p.augment p.greedyMatching

end ZeroPattern

end LinearAssignment
