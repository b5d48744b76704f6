/-! # Shortest digits: the briefest decimal that reads back

    The decimals that round to a float `m * 2 ^ q` form an interval around it that reaches
    half way to the neighbouring floats.  Its ends belong to it when `m` is even, since a tie
    is read as the even significand.  Among the grids of multiples of `10 ^ e` the coarsest
    one that meets the interval fixes the number of digits, and on it the point nearest to
    the float is taken. -/

namespace LinearAssignment.Decimal

/-- A value written as digits times a power of ten. -/
structure Digits where
  digits : Nat
  exponent : Int
  deriving DecidableEq, Repr

/-- Which of two equally near points is taken. -/
inductive TieRule where
  /-- The larger one. -/
  | up
  /-- The one whose last digit is even. -/
  | even
  deriving DecidableEq, Repr

/-- An interval of decimals in multiples of a common unit: its ends, the value that it
    surrounds, and the number of multiples that `10 ^ exponent` spans. -/
structure Interval where
  low : Nat
  value : Nat
  high : Nat
  /-- The ends belong to the interval. -/
  closed : Bool
  /-- The exponent of the finest grid that is looked at. -/
  exponent : Int
  /-- The distance between two points of that grid. -/
  spacing : Nat

namespace Interval

/-- The point lies in the interval. -/
def contains (span : Interval) (point : Nat) : Bool :=
  if span.closed then span.low ≤ point && point ≤ span.high
  else span.low < point && point < span.high

/-- The multiple of `spacing` in the interval that is nearest to its value.  Only the two
    multiples on either side of the value need to be looked at. -/
def nearest? (span : Interval) (tie : TieRule) (spacing : Nat) : Option Nat :=
  let below := span.value / spacing
  let above := below + 1
  match span.contains (below * spacing), span.contains (above * spacing) with
  | false, false => none
  | true, false => some below
  | false, true => some above
  | true, true =>
    let down := span.value - below * spacing
    let up := above * spacing - span.value
    if down < up then some below
    else if up < down then some above
    else match tie with
      | .up => some above
      | .even => some (if below % 2 = 0 then below else above)

/-- The interval of the float `m * 2 ^ q`, with `exponent` as that of the finest grid.  The
    unit is a quarter of the spacing of floats, scaled so that all parts are whole. -/
def ofFloat (m : Nat) (q : Int) (edge : Bool) (exponent : Int) : Interval :=
  let scale := Nat.pow 2 (q - 2).toNat * Nat.pow 10 (-exponent).toNat
  { low := (4 * m - (if edge then 1 else 2)) * scale
    value := 4 * m * scale
    high := (4 * m + 2) * scale
    closed := m % 2 == 0
    exponent := exponent
    spacing := Nat.pow 2 (2 - q).toNat * Nat.pow 10 exponent.toNat }

/-- The answer of the coarsest grid that meets the interval, among the finest grid and the
    `steps` grids above it. -/
def coarsest? (span : Interval) (tie : TieRule) : Nat → Option Digits
  | 0 => (span.nearest? tie span.spacing).map fun d => ⟨d, span.exponent⟩
  | steps + 1 =>
    match span.nearest? tie (span.spacing * Nat.pow 10 (steps + 1)) with
    | some d => some ⟨d, span.exponent + (steps + 1)⟩
    | none => span.coarsest? tie steps

end Interval

/-- A power of ten above `m * 2 ^ q`.  Three decimal digits hold about ten binary ones, and
    over the exponents that floats have the error of this estimate is less than two. -/
def exponentAbove (m : Nat) (q : Int) : Int := ((m.log2 + 1 : Nat) + q) * 3 / 10 + 2

/-- Number of grids below this power that are looked at: no float needs more than seventeen
    digits, and the power may lie a few digits too high. -/
def gridCount : Nat := 24

/-- The shortest digits that read back as `m * 2 ^ q`, for a positive `m`.  The finest grid
    looked at has more digits than any float needs, so the search does not fail; `m` itself
    stands in for the value that cannot arise. -/
def shortest (tie : TieRule) (m : Nat) (q : Int) (edge : Bool) : Digits :=
  let span := Interval.ofFloat m q edge (exponentAbove m q - gridCount)
  (span.coarsest? tie gridCount).getD ⟨m, 0⟩

end LinearAssignment.Decimal
