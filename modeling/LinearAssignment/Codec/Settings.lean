import LinearAssignment.Config
import LinearAssignment.Json.Decode
import LinearAssignment.Json.Parser

/-! # Settings as data

    An objective is its name, and settings are an object with one member a setting.  Reading
    is more lenient than writing: an objective has short names, and what is absent is as in
    the standard settings. -/

namespace LinearAssignment

namespace Objective

/-- The objective as data is its name. -/
def toJson (o : Objective) : Json := .str o.name

/-- The objective with exactly this name or short name. -/
def ofName? : String → Option Objective
  | "minimize" | "min" => some .minimize
  | "maximize" | "max" => some .maximize
  | _ => none

/-- An objective is read from its name, or from an object with the name as its only member
    and nothing in it. -/
def ofJson? : Json → Option Objective
  | .str name => ofName? name
  | .obj [(name, .null)] => ofName? name
  | _ => none

@[simp] theorem ofJson?_toJson (o : Objective) : ofJson? o.toJson = some o := by
  cases o <;> rfl

end Objective

namespace Config

/-- The names of the settings. -/
def fieldNames : List String := ["objective", "max_dimension", "record_trace"]

/-- Settings as data. -/
def toJson (c : Config) : Json := .obj [
  ("objective", c.objective.toJson),
  ("max_dimension", .option .nat c.dimensionLimit),
  ("record_trace", .bool c.recordTrace)]

/-- The part read by `decode`, or the standard one where it is absent. -/
def part? {α : Type} (decode : Json → Option α) (standard : α) : Option Json → Option α
  | none => some standard
  | some j => decode j

/-- Settings from data.  What is absent is as in the standard settings. -/
def ofJson? (j : Json) : Option Config :=
  match j.fields? fieldNames with
  | some [objective, limit, recordTrace] => do
    return {
      objective := ← part? Objective.ofJson? standard.objective objective
      dimensionLimit := ← part? (Json.option? Json.nat?) standard.dimensionLimit limit
      recordTrace := ← part? Json.bool? standard.recordTrace recordTrace }
  | _ => none

/-- Settings from data, refused when they mean nothing. -/
def read {K : Type} (j : Json) : Except (Failure K) Config :=
  match ofJson? j with
  | none => .error .unreadableText
  | some c => c.validated.mapError .invalidConfig

/-- Settings from text. -/
def ofText {K : Type} (text : String) : Except (Failure K) Config :=
  match Json.parse? text with
  | none => .error .unreadableText
  | some j => read j

end Config

end LinearAssignment
