import StreamingJson.Value.Basic

/-!
# Reading values

Views of a value as the payload of one form, absent where the value has another form.

## Main definitions

- `Value.asBool?`, `Value.asInt?`, `Value.asNumber?`, `Value.asString?` — the payload of a scalar
- `Value.asArray?`, `Value.asObject?` — the contents of a container
- `Value.get?` — the value of one member of an object
-/

namespace StreamingJson.Value

/-- The truth value a boolean holds. -/
def asBool? : Value → Option Bool
  | .bool b => some b
  | _ => none

/-- The integer an integer value holds. Other numbers have none, whole or not. -/
def asInt? : Value → Option Int64
  | .int i => some i
  | _ => none

/-- The number a value of either numeric form holds; an integer is rounded to the nearest
double-precision number. -/
def asNumber? : Value → Option Binary64
  | .int i => some (Binary64.ofInt i.toInt)
  | .float x => some x
  | _ => none

/-- The text a string holds. -/
def asString? : Value → Option String
  | .string s => some s
  | _ => none

/-- The items of an array. -/
def asArray? : Value → Option (List Value)
  | .array items => some items
  | _ => none

/-- The members of an object. -/
def asObject? : Value → Option (List (String × Value))
  | .object members => some members
  | _ => none

/-- The value of the member of the given name. -/
def get? (v : Value) (name : String) : Option Value :=
  v.asObject?.bind (lookup name)

end StreamingJson.Value
