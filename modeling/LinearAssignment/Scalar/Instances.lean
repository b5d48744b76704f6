import LinearAssignment.Decimal.Layout
import LinearAssignment.Scalar.Basic

/-! # The number types that the solver runs on

    Floats are what the solver is used with; rationals are exact, so that what is said of
    the method in terms of numbers can be said of a run. -/

namespace LinearAssignment

instance : Scalar Float where
  zero := 0
  decidableLT := inferInstance
  ofNat := Float.ofNat
  isFinite := Float.isFinite
  text := Decimal.Layout.plain.text

instance : Scalar Rat where
  zero := 0
  decidableLT := inferInstance
  ofNat := Nat.cast
  isFinite := fun _ => true
  text := toString

end LinearAssignment
