import AimeeMemory.Core.Store

/-!
# JSON values

What `cJSON_Parse` makes of a text, and the accessors that the module uses. The parser
itself is a parameter of the functions that call it.
-/

namespace AimeeMemory.Core

/-- A value that `cJSON_Parse` returns. -/
inductive Json where
  | str (s : Text)
  | num (x : ℚ)
  | arr (items : List Json)
  | obj (fields : List (Text × Json))
  | other

/-- The string, where it is one. -/
def Json.str? : Json → Option Text
  | .str s => some s
  | _ => none

/-- `cJSON_GetObjectItemCaseSensitive`. -/
def Json.field? (key : String) : Json → Option Json
  | .obj fields => (fields.find? (·.1 = text key)).map (·.2)
  | _ => none

/-- The string of a field, where it is one. -/
def Json.text? (key : String) (j : Json) : Option Text :=
  match j.field? key with
  | some (.str s) => some s
  | _ => none

/-- The elements of a field, where it is an array. -/
def Json.items (key : String) (j : Json) : List Json :=
  match j.field? key with
  | some (.arr items) => items
  | _ => []

end AimeeMemory.Core
