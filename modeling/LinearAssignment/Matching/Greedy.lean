import LinearAssignment.Matching.Basic
import LinearAssignment.ZeroPattern

/-! # Greedy matching: the most constrained row first

    A first matching is taken from the zeros by pairing, again and again, the open row with
    the fewest zeros left with the first of these zeros.  Each step pairs one more row, so
    the number of rows bounds the number of steps. -/

namespace LinearAssignment

namespace ZeroPattern

/-- The zeros of row `i` in columns that are still free. -/
def available (p : ZeroPattern) (μ : Matching) (i : Nat) : List Nat :=
  (p.zerosOf i).filter fun j => (μ.row? j).isNone

/-- A row that can be paired: its first free zero and how many free zeros follow. -/
structure Candidate where
  row : Nat
  col : Nat
  others : Nat
  deriving DecidableEq, Repr

/-- The pairing that row `i` offers, if the row is open and has a free zero. -/
def candidate? (p : ZeroPattern) (μ : Matching) (i : Nat) : Option Candidate :=
  if (μ.col? i).isSome then none
  else match p.available μ i with
    | [] => none
    | j :: js => some ⟨i, j, js.length⟩

/-- The next pairing: the row with the fewest free zeros, the topmost of equals. -/
def choice? (p : ZeroPattern) (μ : Matching) : Option Candidate :=
  ((List.range p.nrows).filterMap (p.candidate? μ)).minOn? (·.others)

/-- At most `steps` greedy pairings, ending early when no row can be paired. -/
def extend (p : ZeroPattern) : Nat → Matching → Matching
  | 0, μ => μ
  | steps + 1, μ =>
    match p.choice? μ with
    | none => μ
    | some c => p.extend steps (μ.assign c.row c.col)

/-- The greedy matching over the zeros. -/
def greedyMatching (p : ZeroPattern) : Matching :=
  p.extend p.nrows (.empty p.nrows p.ncols)

end ZeroPattern

end LinearAssignment
