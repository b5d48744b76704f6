import LinearAssignment.Text.Ascii

/-! # Reading decimals as floats

    The text of a number is an optional sign followed by a word for an infinity or the
    invalid value, in any letter case, or by digits with an optional point and an optional
    power of ten.  The float nearest to the value is its reading. -/

namespace LinearAssignment.Decimal

/-- A decimal digit as a number. -/
def digit? (c : Char) : Option Nat := if c.isDigit then some (c.toNat - '0'.toNat) else none

/-- The number that a string of digits spells; other characters count as nothing. -/
def ofDigits (digits : List Char) : Nat :=
  digits.foldl (fun n c => n * 10 + (digit? c).getD 0) 0

/-- The longest run of digits at the front, and what follows. -/
def spanDigits (cs : List Char) : List Char × List Char :=
  (cs.takeWhile Char.isDigit, cs.dropWhile Char.isDigit)

/-- An optional sign at the front and what follows. -/
def spanSign : List Char → Bool × List Char
  | '-' :: cs => (true, cs)
  | '+' :: cs => (false, cs)
  | cs => (false, cs)

/-- A power of ten: a sign and at least one digit, and nothing more. -/
def exponent? (cs : List Char) : Option Int :=
  let (negative, cs) := spanSign cs
  let (digits, rest) := spanDigits cs
  if digits.isEmpty || !rest.isEmpty then none
  else if negative then some (-ofDigits digits) else some (ofDigits digits)

/-- The float nearest to `m * 10 ^ e`.  Powers that lie far outside the range of floats are
    cut off first, so that no large power is ever formed. -/
def nearestFloat (m : Nat) (e : Int) : Float :=
  let leading := e + (toString m).length
  if m = 0 || leading < -400 then 0
  else if 400 < leading then 1 / 0
  else Float.ofScientific m (e < 0) e.natAbs

/-- The whole digits, the digits behind the point and the power of ten of an unsigned
    number: a digit on at least one side of the point. -/
def unsigned? (cs : List Char) : Option Float :=
  let (whole, rest) := spanDigits cs
  let (fraction, rest) := match rest with
    | '.' :: rest => spanDigits rest
    | rest => ([], rest)
  if whole.isEmpty && fraction.isEmpty then none
  else
    let value (e : Int) := nearestFloat (ofDigits (whole ++ fraction)) (e - fraction.length)
    match rest with
    | [] => some (value 0)
    | c :: rest => if c = 'e' || c = 'E' then (exponent? rest).map value else none

/-- The float that a text spells. -/
def read? (text : String) : Option Float :=
  let (negative, cs) := spanSign text.toList
  let magnitude := match Text.lowerAscii (String.ofList cs) with
    | "inf" | "infinity" => some (1 / 0)
    | "nan" => some (0 / 0)
    | _ => unsigned? cs
  magnitude.map fun x => if negative then -x else x

end LinearAssignment.Decimal
