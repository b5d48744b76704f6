import LinearAssignment.Decimal.Layout
import LinearAssignment.Json.Basic
import LinearAssignment.Json.Quoted

/-! # From a value to text

    Three ways of writing a value: without blanks in the order of its members, without
    blanks with members sorted by name, and over several lines. -/

namespace LinearAssignment.Json

/-! ## Order of members -/

/-- A member put in its place among sorted ones; it replaces one of the same name. -/
def insertMember (name : String) (value : Json) : List (String × Json) → List (String × Json)
  | [] => [(name, value)]
  | (other, old) :: rest =>
    if name < other then (name, value) :: (other, old) :: rest
    else if name = other then (name, value) :: rest
    else (other, old) :: insertMember name value rest

mutual
/-- The value with the members of every object sorted by name; of several members with one
    name the last one stays. -/
def sorted : Json → Json
  | .arr items => .arr (sortedItems items)
  | .obj members => .obj (sortedMembers members [])
  | other => other

/-- The items of a list, each sorted. -/
def sortedItems : List Json → List Json
  | [] => []
  | item :: rest => item.sorted :: sortedItems rest

/-- The members of an object, each sorted, put in their places among those already there. -/
def sortedMembers : List (String × Json) → List (String × Json) → List (String × Json)
  | [], done => done
  | (name, value) :: rest, done => sortedMembers rest (insertMember name value.sorted done)
end

/-! ## Text -/

/-- The text of a value without parts.  A float that is not finite has no written form. -/
def atom : Json → String
  | .bool true => "true"
  | .bool false => "false"
  | .int n => toString n
  | .float x => if x.isFinite then Decimal.Layout.data.text x else "null"
  | .str s => Quoted.write s
  | _ => "null"

/-- A list or an object: its parts between brackets, separated by commas. -/
def enclose (opening closing : String) (parts : List String) : String :=
  opening ++ ",".intercalate parts ++ closing

mutual
/-- The value without blanks. -/
def compact : Json → String
  | .arr items => enclose "[" "]" (compactItems items)
  | .obj members => enclose "\x7b" "\x7d" (compactMembers members)
  | other => other.atom

/-- The items of a list without blanks. -/
def compactItems : List Json → List String
  | [] => []
  | item :: rest => item.compact :: compactItems rest

/-- The members of an object without blanks. -/
def compactMembers : List (String × Json) → List String
  | [] => []
  | (name, value) :: rest => (Quoted.write name ++ ":" ++ value.compact) :: compactMembers rest
end

/-- The value without blanks, its members sorted. -/
def canonical (j : Json) : String := j.sorted.compact

/-- A new line, indented to a depth of nesting. -/
def newline (depth : Nat) : String := "\n" ++ String.ofList (List.replicate (2 * depth) ' ')

/-- A list or an object with each of its parts on a line of its own; without parts it is a
    pair of brackets. -/
def encloseLines (opening closing : String) (depth : Nat) (parts : List String) : String :=
  if parts.isEmpty then opening ++ closing
  else
    let lines := parts.map (newline (depth + 1) ++ ·)
    enclose opening (newline depth ++ closing) lines

mutual
/-- The value over several lines, at a depth of nesting. -/
def prettyAt (depth : Nat) : Json → String
  | .arr items => encloseLines "[" "]" depth (prettyItems (depth + 1) items)
  | .obj members => encloseLines "\x7b" "\x7d" depth (prettyMembers (depth + 1) members)
  | other => other.atom

/-- The items of a list over several lines. -/
def prettyItems (depth : Nat) : List Json → List String
  | [] => []
  | item :: rest => item.prettyAt depth :: prettyItems depth rest

/-- The members of an object over several lines. -/
def prettyMembers (depth : Nat) : List (String × Json) → List String
  | [] => []
  | (name, value) :: rest =>
    (Quoted.write name ++ ": " ++ value.prettyAt depth) :: prettyMembers depth rest
end

/-- The value over several lines. -/
def pretty (j : Json) : String := j.prettyAt 0

end LinearAssignment.Json
