/-! # The parts of a binary float

    A finite float of 64 bits is a sign and a significand times a power of two.  `ofFloat`
    takes a float apart into these; the text of a float is then a matter of exact arithmetic
    on natural numbers. -/

namespace LinearAssignment.Decimal

/-- What a float of 64 bits stands for. -/
inductive Binary where
  /-- Not a number. -/
  | invalid
  /-- An infinity. -/
  | infinite (negative : Bool)
  /-- The significand times two to the exponent.  `edge` marks a significand at the lower end
      of its binade, where the float below lies only half as far away as the float above. -/
  | finite (negative : Bool) (significand : Nat) (exponent : Int) (edge : Bool)
  deriving DecidableEq, Repr

namespace Binary

/-- The weight of the leading bit that normal numbers leave out. -/
def hiddenBit : Nat := 1 <<< 52

/-- The parts held in a word of 64 bits: one sign bit, eleven exponent bits and 52 fraction
    bits.  The smallest exponent field belongs to the subnormal numbers, which have no
    hidden leading bit; the largest one to the infinities and the invalid value. -/
def ofWord (word : Nat) : Binary :=
  let negative := word.testBit 63
  let field := word / hiddenBit % 2048
  let fraction := word % hiddenBit
  if field = 2047 then
    if fraction = 0 then .infinite negative else .invalid
  else if field = 0 then .finite negative fraction (-1074) false
  else .finite negative (hiddenBit + fraction) ((field : Int) - 1075) (fraction == 0 && 1 < field)

/-- The parts of a float. -/
def ofFloat (x : Float) : Binary := ofWord x.toBits.toNat

end Binary

end LinearAssignment.Decimal
