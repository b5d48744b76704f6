/-! # Scalars: the numbers that costs are made of

    The solver is written once for every number type that offers the operations below, so
    that the same definitions run on machine floats and can be reasoned about over exact
    rationals.  The class holds operations only; which laws they obey depends on the type
    (a float rounds, and it has values that are not numbers).

    * `Scalar`: zero, addition, subtraction, multiplication, order, a finiteness test and
      the written form of a value.
    * `least?`, `greatest?`: the extremes of a list, with values that are not numbers
      passed over and no extreme when nothing is left.
    * `total`: a sum from left to right. -/

namespace LinearAssignment

/-- A number type that costs can be drawn from. -/
class Scalar (K : Type) extends Zero K, Add K, Sub K, Mul K, LT K, BEq K where
  /-- The order can be tested. -/
  decidableLT : DecidableLT K
  /-- A count as a scalar. -/
  ofNat : Nat → K
  /-- True of every value that is a number and not an infinity. -/
  isFinite : K → Bool
  /-- The written form of a value, as it appears in labels and messages. -/
  text : K → String

attribute [reducible, instance] Scalar.decidableLT

namespace Scalar

variable {K : Type} [Scalar K]

/-! ## Tests and magnitudes -/

/-- The exact zero test on which matching and covering rest.  A reduction subtracts from a
    cell a value that is at most the cell, so a cell that should vanish is exactly zero and
    no tolerance is wanted. -/
def isZero (v : K) : Bool := v == 0

/-- A value is a number when it equals itself; the invalid value of a float type does not. -/
def isNumber (v : K) : Bool := v == v

/-- The distance of `v` from zero. -/
def magnitude (v : K) : K := if v < 0 then 0 - v else v

/-- The larger of two values, the first one when neither is smaller. -/
def larger (a b : K) : K := if a < b then b else a

/-! ## Extremes of a list -/

/-- The smallest number of a list, `none` when the list holds no number. -/
def least? : List K → Option K
  | [] => none
  | v :: vs =>
    if isNumber v then
      match least? vs with
      | none => some v
      | some m => some (if m < v then m else v)
    else least? vs

/-- The largest number of a list, `none` when the list holds no number. -/
def greatest? : List K → Option K
  | [] => none
  | v :: vs =>
    if isNumber v then
      match greatest? vs with
      | none => some v
      | some m => some (if v < m then m else v)
    else greatest? vs

@[simp] theorem least?_nil : least? ([] : List K) = none := rfl

@[simp] theorem greatest?_nil : greatest? ([] : List K) = none := rfl

/-- The written form of a smallest value: with nothing to choose from it is `inf`, the bound
    that every number satisfies. -/
def leastText (v : Option K) : String := v.elim "inf" text

/-- The written form of a largest value: with nothing to choose from it is `-inf`. -/
def greatestText (v : Option K) : String := v.elim "-inf" text

/-! ## Sums -/

/-- The sum of a list, added from left to right; zero for the empty list. -/
def total : List K → K
  | [] => 0
  | v :: vs => vs.foldl (· + ·) v

@[simp] theorem total_nil : total ([] : List K) = 0 := rfl

@[simp] theorem total_singleton (v : K) : total [v] = v := rfl

end Scalar

end LinearAssignment
