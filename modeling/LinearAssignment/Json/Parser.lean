import LinearAssignment.Json.Token

/-! # From tokens to a value

    A value is put together token by token.  Lists and objects that are still open wait on a
    stack; what may come next depends on the state alone, so one step looks at one token. -/

namespace LinearAssignment.Json

namespace Parser

/-- A list or an object that is still open, its parts so far with the latest first.  An
    object waits for the value of the member whose name has been read; a name is absent when
    it has unpaired surrogates. -/
inductive Frame where
  | list (items : List Json)
  | object (members : List (Option String × Json)) (name : Option String)

/-- What has been read, and with it what may come next. -/
inductive State where
  /-- A value has to come. -/
  | value (stack : List Frame)
  /-- A list has been opened: a value or its end. -/
  | listOpened (stack : List Frame)
  /-- An object has been opened: a name or its end. -/
  | objectOpened (stack : List Frame)
  /-- A comma in an object: a name. -/
  | name (members : List (Option String × Json)) (stack : List Frame)
  /-- A name in an object: a colon. -/
  | colon (stack : List Frame)
  /-- A value is complete: a comma, the end of what holds it, or the end of the text. -/
  | complete (value : Json) (stack : List Frame)

/-- The object with the given members, unreadable when one of the names is. -/
def object (members : List (Option String × Json)) : Json :=
  match members.mapM fun (name, value) => name.map (·, value) with
  | some members => .obj members
  | none => .unreadable

/-- A token where a value has to come. -/
def stepValue (stack : List Frame) : Token → Option State
  | .word value => some (.complete value stack)
  | .text content => some (.complete (content.elim .unreadable .str) stack)
  | .beginList => some (.listOpened stack)
  | .beginObject => some (.objectOpened stack)
  | _ => none

/-- The state behind one more token. -/
def step : State → Token → Option State
  | .value stack, token => stepValue stack token
  | .listOpened stack, .endList => some (.complete (.arr []) stack)
  | .listOpened stack, token => stepValue (.list [] :: stack) token
  | .objectOpened stack, .endObject => some (.complete (.obj []) stack)
  | .objectOpened stack, .text name => some (.colon (.object [] name :: stack))
  | .name members stack, .text name => some (.colon (.object members name :: stack))
  | .colon stack, .colon => some (.value stack)
  | .complete value (.list items :: stack), .comma =>
    some (.value (.list (value :: items) :: stack))
  | .complete value (.list items :: stack), .endList =>
    some (.complete (.arr (value :: items).reverse) stack)
  | .complete value (.object members name :: stack), .comma =>
    some (.name ((name, value) :: members) stack)
  | .complete value (.object members name :: stack), .endObject =>
    some (.complete (object ((name, value) :: members).reverse) stack)
  | _, _ => none

/-- The value that a state amounts to at the end of the text. -/
def result? : State → Option Json
  | .complete value [] => some value
  | _ => none

end Parser

/-- The value that a text spells, `none` when the text is not well formed. -/
def parse? (text : String) : Option Json := do
  let tokens ← Token.scan text
  let state ← tokens.foldlM Parser.step (.value [])
  Parser.result? state

end LinearAssignment.Json
