import LinearAssignment.Json.Basic

/-! # Reading typed data from values

    Each reader answers `none` for a value of another form.  A record is read from an object
    by the names of its fields or from a list by their order; `fields?` does this for all
    records, so that a type only lists its names and says what becomes of the parts. -/

namespace LinearAssignment.Json

/-! ## Plain values -/

/-- A count: a whole number that is not negative. -/
def nat? : Json → Option Nat
  | .int n => if 0 ≤ n then some n.toNat else none
  | _ => none

/-- A number of either kind, a whole number rounded to the nearest float. -/
def number? : Json → Option Float
  | .int n => some (Float.ofInt n)
  | .float x => some x
  | _ => none

/-- A truth value. -/
def bool? : Json → Option Bool
  | .bool b => some b
  | _ => none

/-- A string. -/
def str? : Json → Option String
  | .str s => some s
  | _ => none

/-- A list whose items can all be read. -/
def list? {α : Type} (decode : Json → Option α) : Json → Option (List α)
  | .arr items => items.mapM decode
  | _ => none

/-- A value that may be null. -/
def option? {α : Type} (decode : Json → Option α) : Json → Option (Option α)
  | .null => some none
  | j => (decode j).map some

@[simp] theorem nat?_nat (n : Nat) : (nat n).nat? = some n := by simp [nat, nat?]

/-- A written list is read back when each of its items is. -/
theorem list?_list {α : Type} {encode : α → Json} {decode : Json → Option α} {items : List α}
    (h : ∀ a ∈ items, decode (encode a) = some a) :
    (list encode items).list? decode = some items := by
  unfold list list?
  induction items with
  | nil => rfl
  | cons a items ih =>
    have head := h a (by simp)
    have tail := ih fun b hb => h b (by simp [hb])
    simp_all [List.mapM_cons]

@[simp] theorem option?_option_nat (n : Option Nat) : (option nat n).option? nat? = some n := by
  cases n with
  | none => rfl
  | some n => exact congrArg (Option.map some) (nat?_nat n)

/-! ## Records -/

/-- The only member with a name: absent when there is none, no answer when there are more. -/
def onlyMember? (members : List (String × Json)) (name : String) : Option (Option Json) :=
  match members.filter (·.1 == name) with
  | [] => some none
  | [(_, value)] => some (some value)
  | _ => none

/-- The parts of a record with the given field names, absent where a field is missing.  An
    object may have other members, which are ignored, but no field twice.  A list gives the
    fields in order; it may be short but not long. -/
def fields? (names : List String) : Json → Option (List (Option Json))
  | .obj members => names.mapM (onlyMember? members)
  | .arr items =>
    if items.length ≤ names.length then
      some ((List.range names.length).map (items[·]?))
    else none
  | _ => none

/-- The parts of a record that has all its fields. -/
def allFields? (names : List String) (j : Json) : Option (List Json) :=
  (j.fields? names).bind (·.mapM id)

end LinearAssignment.Json
