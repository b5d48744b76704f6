import LinearAssignment.Json.Number
import LinearAssignment.Json.Quoted

/-! # Tokens of JSON text

    Text is cut into tokens character by character.  Between tokens there may be blanks; a
    word is a longest run of characters that are neither blank nor punctuation nor a quote,
    and has to spell a number or one of the three names. -/

namespace LinearAssignment.Json

/-- The smallest meaningful part of a text. -/
inductive Token where
  | beginList
  | endList
  | beginObject
  | endObject
  | comma
  | colon
  /-- A number or a name. -/
  | word (value : Json)
  /-- A string, absent when it has unpaired surrogates. -/
  | text (content : Option String)

namespace Token

/-- The token of a punctuation character. -/
def punctuation? : Char → Option Token
  | '[' => some .beginList
  | ']' => some .endList
  | '\x7b' => some .beginObject
  | '\x7d' => some .endObject
  | ',' => some .comma
  | ':' => some .colon
  | _ => none

/-- The characters allowed between tokens. -/
def isBlank (c : Char) : Bool := c == ' ' || c == '\t' || c == '\n' || c == '\r'

/-- The token of a word. -/
def ofWord? (word : List Char) : Option Token :=
  match String.ofList word with
  | "null" => some (.word .null)
  | "true" => some (.word (.bool true))
  | "false" => some (.word (.bool false))
  | _ => (NumberLiteral.ofWord? word).map fun n => .word n.toJson

/-- Where the cut stands: between tokens, in a word, or in a string, perhaps right behind a
    backslash.  Characters of the current token are kept with the latest first. -/
inductive Place where
  | between
  | word (chars : List Char)
  | string (chars : List Char) (escaping : Bool)

/-- A character between tokens. -/
def start (c : Char) : List Token × Place :=
  if isBlank c then ([], .between)
  else if c = '"' then ([], .string [] false)
  else match punctuation? c with
    | some token => ([token], .between)
    | none => ([], .word [c])

/-- A character ends the current word unless it belongs to it. -/
def endsWord (c : Char) : Bool := isBlank c || c == '"' || (punctuation? c).isSome

/-- The tokens that one character completes, and the place behind it. -/
def advance : Place → Char → Option (List Token × Place)
  | .between, c => some (start c)
  | .word chars, c =>
    if endsWord c then do
      let token ← ofWord? chars.reverse
      let (tokens, place) := start c
      return (token :: tokens, place)
    else some ([], .word (c :: chars))
  | .string chars true, c => some ([], .string (c :: chars) false)
  | .string chars false, c =>
    if c = '"' then do
      let content ← Quoted.read? chars.reverse
      return ([.text content], .between)
    else some ([], .string (c :: chars) (c == '\\'))

/-- The tokens that the end of the text completes. -/
def finish : Place → Option (List Token)
  | .between => some []
  | .word chars => (ofWord? chars.reverse).map ([·])
  | .string .. => none

/-- The tokens of a text, from a place on. -/
def scanFrom (place : Place) : List Char → Option (List Token)
  | [] => finish place
  | c :: cs => do
    let (tokens, place) ← advance place c
    return tokens ++ (← scanFrom place cs)

/-- The tokens of a text. -/
def scan (text : String) : Option (List Token) := scanFrom .between text.toList

end Token

end LinearAssignment.Json
