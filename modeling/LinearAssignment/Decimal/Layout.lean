import LinearAssignment.Decimal.Binary
import LinearAssignment.Decimal.Shortest

/-! # Layouts: how the digits of a number are set

    The digits of a float are one thing and the way of writing them another: where
    positional notation ends, whether a whole number keeps a point, how ties between digits
    go.  A `Layout` records these decisions. -/

namespace LinearAssignment.Decimal

/-- The decisions of a way of writing floats. -/
structure Layout where
  /-- Which of two equally near digit strings is taken. -/
  tie : TieRule
  /-- The power of ten of the leading digit lies where positional notation is used; outside
      the notation is scientific, with a sign on the exponent. -/
  positional : Int → Bool
  /-- A whole number in positional notation ends with `.0`. -/
  keepPoint : Bool

namespace Layout

/-- Numbers in labels and messages: always positional, whole numbers without a point. -/
def plain : Layout where
  tie := .up
  positional := fun _ => true
  keepPoint := false

/-- Numbers in data: positional from `0.00001` up to sixteen digits before the point, always
    recognizable as a float. -/
def data : Layout where
  tie := .even
  positional := fun e => -5 ≤ e && e ≤ 15
  keepPoint := true

/-- The digits with the point in its place: `exponent` zeros behind them when it is not
    negative, and otherwise that many digits behind the point. -/
def placePoint (l : Layout) (digits : List Char) (exponent : Int) : List Char :=
  if 0 ≤ exponent then
    digits ++ List.replicate exponent.toNat '0' ++ (if l.keepPoint then ['.', '0'] else [])
  else
    let places := (-exponent).toNat
    let padded := List.replicate (places + 1 - digits.length) '0' ++ digits
    let whole := padded.length - places
    padded.take whole ++ '.' :: padded.drop whole

/-- The digits with the point behind the first of them and the power of ten at the end. -/
def scientific (digits : List Char) (leading : Int) : List Char :=
  let sign := if leading < 0 then '-' else '+'
  let mantissa := match digits with
    | first :: second :: rest => first :: '.' :: second :: rest
    | short => short
  mantissa ++ 'e' :: sign :: (toString leading.natAbs).toList

/-- The text of a positive number given by its digits. -/
def unsigned (l : Layout) (d : Digits) : List Char :=
  let digits := (toString d.digits).toList
  let leading := d.exponent + digits.length - 1
  if l.positional leading then l.placePoint digits d.exponent else scientific digits leading

/-- The text of a float.  Zero keeps its sign, and so do the infinities. -/
def text (l : Layout) (x : Float) : String :=
  let signed (negative : Bool) (text : List Char) :=
    String.ofList (if negative then '-' :: text else text)
  match Binary.ofFloat x with
  | .invalid => "NaN"
  | .infinite negative => signed negative ['i', 'n', 'f']
  | .finite negative 0 _ _ => signed negative (l.placePoint ['0'] 0)
  | .finite negative m q edge => signed negative (l.unsigned (shortest l.tie m q edge))

end Layout

end LinearAssignment.Decimal
