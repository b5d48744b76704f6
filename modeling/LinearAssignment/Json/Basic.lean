/-! # JSON values

    Data in the form of a tree.  Numbers are of two kinds, as they are written: whole
    numbers, and floats.  The members of an object keep the order in which they were
    written, and a name may occur more than once; `member?` finds the last one.

    A text can be well formed and yet denote nothing, when it spells a number that no float
    can hold or half of a surrogate pair.  Its place in the tree is taken by `unreadable`,
    so that a reader who skips the place is not disturbed and one who looks there is told. -/

namespace LinearAssignment

/-- A JSON value. -/
inductive Json where
  | null
  | bool (value : Bool)
  | int (value : Int)
  | float (value : Float)
  | str (value : String)
  | arr (items : List Json)
  | obj (members : List (String × Json))
  /-- Well-formed text that denotes no value. -/
  | unreadable

namespace Json

instance : Inhabited Json := ⟨.null⟩

/-- A count. -/
def nat (n : Nat) : Json := .int n

/-- A float as data.  What is not finite has no written form and becomes null. -/
def ofFloat (x : Float) : Json := if x.isFinite then .float x else .null

/-- A list of values. -/
def list {α : Type} (encode : α → Json) (items : List α) : Json := .arr (items.map encode)

/-- A value that may be absent. -/
def option {α : Type} (encode : α → Json) : Option α → Json
  | none => .null
  | some a => encode a

/-- The last member with the given name. -/
def member? (name : String) : Json → Option Json
  | .obj members => (members.findRev? (·.1 == name)).map (·.2)
  | _ => none

end Json

end LinearAssignment
