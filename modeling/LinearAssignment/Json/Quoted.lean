import LinearAssignment.Decimal.Reader

/-! # Strings in JSON text

    Between its quotes a string holds characters and escapes.  Control characters have to be
    escaped; an escape with four hexadecimal digits stands for a 16-bit unit, and a character
    beyond the 16-bit range is written as a pair of surrogate units. -/

namespace LinearAssignment.Json.Quoted

/-- A character, or a 16-bit unit that is half of a pair. -/
inductive Piece where
  | char (c : Char)
  | surrogate (unit : Nat)
  deriving DecidableEq, Repr

/-! ## Reading -/

/-- A hexadecimal digit as a number. -/
def hexDigit? (c : Char) : Option Nat :=
  if c.isDigit then some (c.toNat - '0'.toNat)
  else if 'a' ≤ c && c ≤ 'f' then some (c.toNat - 'a'.toNat + 10)
  else if 'A' ≤ c && c ≤ 'F' then some (c.toNat - 'A'.toNat + 10)
  else none

/-- The number of four hexadecimal digits. -/
def unit? (a b c d : Char) : Option Nat := do
  let digits := [← hexDigit? a, ← hexDigit? b, ← hexDigit? c, ← hexDigit? d]
  return digits.foldl (fun n digit => n * 16 + digit) 0

/-- A 16-bit unit as a piece. -/
def pieceOfUnit (unit : Nat) : Piece :=
  if 0xD800 ≤ unit && unit ≤ 0xDFFF then .surrogate unit else .char (Char.ofNat unit)

/-- The character of an escape that names it by one letter. -/
def escaped? : Char → Option Char
  | '"' => some '"'
  | '\\' => some '\\'
  | '/' => some '/'
  | 'b' => some '\x08'
  | 'f' => some '\x0c'
  | 'n' => some '\n'
  | 'r' => some '\r'
  | 't' => some '\t'
  | _ => none

/-- The pieces of the text between the quotes, if it is well formed. -/
def pieces? : List Char → Option (List Piece)
  | [] => some []
  | '\\' :: 'u' :: a :: b :: c :: d :: rest => do
    let unit ← unit? a b c d
    return pieceOfUnit unit :: (← pieces? rest)
  | '\\' :: c :: rest => do
    let c ← escaped? c
    return .char c :: (← pieces? rest)
  | c :: rest => do
    if c = '\\' || c < ' ' then none
    return .char c :: (← pieces? rest)

/-- The characters of the pieces: a high surrogate and a low one right behind it make one
    character, and no other surrogate makes any. -/
def chars? : List Piece → Option (List Char)
  | [] => some []
  | .char c :: rest => (chars? rest).map (c :: ·)
  | .surrogate high :: .surrogate low :: rest =>
    if high < 0xDC00 && 0xDC00 ≤ low then
      let code := 0x10000 + (high - 0xD800) * 0x400 + (low - 0xDC00)
      (chars? rest).map (Char.ofNat code :: ·)
    else none
  | .surrogate _ :: _ => none

/-- The string between the quotes.  The outer level is absent for a text that is not well
    formed, the inner one for a text with unpaired surrogates. -/
def read? (body : List Char) : Option (Option String) :=
  (pieces? body).map fun pieces => (chars? pieces).map String.ofList

/-! ## Writing -/

/-- A hexadecimal digit for a number below sixteen. -/
def hexDigit (n : Nat) : Char := Char.ofNat (if n < 10 then '0'.toNat + n else 'a'.toNat + (n - 10))

/-- A character as it stands between quotes. -/
def writeChar (c : Char) : List Char :=
  match c with
  | '"' => ['\\', '"']
  | '\\' => ['\\', '\\']
  | '\x08' => ['\\', 'b']
  | '\x0c' => ['\\', 'f']
  | '\n' => ['\\', 'n']
  | '\r' => ['\\', 'r']
  | '\t' => ['\\', 't']
  | c =>
    if c < ' ' then ['\\', 'u', '0', '0', hexDigit (c.toNat / 16), hexDigit (c.toNat % 16)]
    else [c]

/-- A string with its quotes. -/
def write (s : String) : String :=
  String.ofList ('"' :: s.toList.flatMap writeChar ++ ['"'])

end LinearAssignment.Json.Quoted
