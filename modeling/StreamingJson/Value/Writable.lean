import StreamingJson.Value.Basic

/-!
# Writable values

JSON text has no form for the infinities and for NaN. A writer puts `null` in their place.

## Main definitions

- `Value.writable` — the value that JSON text can hold
-/

namespace StreamingJson.Value

mutual

/-- The value with `null` in place of every number that JSON text has no form for. -/
def writable : Value → Value
  | .float x => if x.isFinite then .float x else .null
  | .array items => .array (writableItems items)
  | .object members => .object (writableMembers members)
  | v => v
termination_by structural v => v

/-- The items of an array made writable. -/
def writableItems : List Value → List Value
  | [] => []
  | v :: rest => writable v :: writableItems rest
termination_by structural vs => vs

/-- The values of an object's members made writable. -/
def writableMembers : List (String × Value) → List (String × Value)
  | [] => []
  | (name, v) :: rest => (name, writable v) :: writableMembers rest
termination_by structural ms => ms

end

end StreamingJson.Value
