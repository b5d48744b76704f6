import LinearAssignment.Decimal.Reader
import LinearAssignment.Json.Basic

/-! # Numbers in JSON text

    A number is written as an optional minus, digits without a leading zero, an optional
    fraction and an optional power of ten.  Without fraction and power it is a whole number
    as long as it fits a word of 64 bits, signed or unsigned.

    Any other number is a float, read in two roundings: the digits that fit a word of 64
    bits are taken as a whole number and rounded, and the result is multiplied with or
    divided by a power of ten and rounded again. -/

namespace LinearAssignment.Json

open Decimal

/-- A number as it is written. -/
structure NumberLiteral where
  negative : Bool
  whole : List Char
  /-- The digits behind the point; empty without a point. -/
  fraction : List Char
  /-- The power of ten, if one is written. -/
  power : Option Int
  deriving DecidableEq, Repr

namespace NumberLiteral

/-- The optional power of ten at the end of a number. -/
def power? : List Char → Option (Option Int)
  | [] => some none
  | c :: cs => if c = 'e' || c = 'E' then (exponent? cs).map some else none

/-- The part of a number behind its whole digits: digits behind a point, then a power. -/
def tail? : List Char → Option (List Char × Option Int)
  | '.' :: cs =>
    let (fraction, rest) := spanDigits cs
    if fraction.isEmpty then none else (power? rest).map (fraction, ·)
  | cs => (power? cs).map ([], ·)

/-- The literal that a word spells. -/
def ofWord? (word : List Char) : Option NumberLiteral :=
  let (negative, cs) := match word with
    | '-' :: cs => (true, cs)
    | cs => (false, cs)
  let (whole, rest) := spanDigits cs
  if whole.isEmpty || (1 < whole.length && whole.head? == some '0') then none
  else (tail? rest).map fun (fraction, power) => ⟨negative, whole, fraction, power⟩

/-! ## Whole numbers -/

/-- The largest number that a word of 64 bits holds. -/
def wordMax : Nat := UInt64.size - 1

/-- The whole number that the literal denotes, when it is written as one and fits a word.
    Minus zero is none, since only a float has it. -/
def int? (n : NumberLiteral) : Option Int :=
  if n.fraction.isEmpty && n.power.isNone then
    let value := ofDigits n.whole
    if n.negative then
      if 0 < value && value ≤ UInt64.size / 2 then some (-value) else none
    else if value ≤ wordMax then some value else none
  else none

/-! ## Floats -/

/-- Digits taken into a word of 64 bits: the number so far, and how many digits were taken or
    dropped; after the first digit that does not fit all others are dropped. -/
structure Significand where
  value : Nat
  taken : Nat
  dropped : Nat

/-- One more digit. -/
def Significand.push (s : Significand) (c : Char) : Significand :=
  let value := s.value * 10 + (digit? c).getD 0
  if 0 < s.dropped || wordMax < value then { s with dropped := s.dropped + 1 }
  else { s with value := value, taken := s.taken + 1 }

/-- The digits of the literal that are kept, and the power of ten that they stand at.  A
    whole digit that is dropped raises the power, and a digit behind the point that is taken
    lowers it. -/
def significand (n : NumberLiteral) : Nat × Int :=
  let whole := n.whole.foldl Significand.push ⟨0, 0, 0⟩
  let all := n.fraction.foldl Significand.push ⟨whole.value, 0, 0⟩
  (all.value, (whole.dropped : Int) - all.taken + n.power.getD 0)

/-- Ten to the power of a count, rounded. -/
def powerOfTen (count : Nat) : Float := Float.ofScientific 1 false count

/-- A float times a power of ten.  A power below the range of floats is applied in steps of
    `10 ^ 308`; two such steps take every significand to zero.  No value is above the range. -/
def scale (steps : Nat) (x : Float) (power : Int) : Option Float :=
  if power.natAbs ≤ 308 then
    if 0 ≤ power then
      let product := x * powerOfTen power.natAbs
      if product.isFinite then some product else none
    else some (x / powerOfTen power.natAbs)
  else if x == 0 then some x
  else if 0 < power then none
  else match steps with
    | 0 => some 0
    | steps + 1 => scale steps (x / powerOfTen 308) (power + 308)

/-- The float that the literal denotes, if one is large enough. -/
def float? (n : NumberLiteral) : Option Float :=
  let (value, power) := n.significand
  (scale 2 (Float.ofNat value) power).map fun x => if n.negative then -x else x

/-- The value that the literal denotes. -/
def toJson (n : NumberLiteral) : Json :=
  match n.int? with
  | some value => .int value
  | none => n.float?.elim .unreadable .float

end NumberLiteral

end LinearAssignment.Json
