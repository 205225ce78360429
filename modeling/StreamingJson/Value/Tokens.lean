import StreamingJson.Value.Basic

/-!
# Values as tokens

The tokens of a value in document order. They determine the value.

## Main definitions

- `Value.tokens` — the tokens of a value
- `Value.tokensOfItems`, `Value.tokensOfMembers` — the tokens between the brackets of a container
-/

namespace StreamingJson.Value

mutual

/-- The tokens of a value in document order. -/
def tokens : Value → List Token
  | .null => [.null]
  | .bool b => [.bool b]
  | .int i => [.int i]
  | .float x => [.float x]
  | .string s => [.string s]
  | .array items => .startArray :: (tokensOfItems items ++ [.endArray])
  | .object members => .startObject :: (tokensOfMembers members ++ [.endObject])
termination_by structural v => v

/-- The tokens of the items of an array. -/
def tokensOfItems : List Value → List Token
  | [] => []
  | v :: rest => tokens v ++ tokensOfItems rest
termination_by structural vs => vs

/-- The tokens of the members of an object. -/
def tokensOfMembers : List (String × Value) → List Token
  | [] => []
  | (name, v) :: rest => .fieldName name :: (tokens v ++ tokensOfMembers rest)
termination_by structural ms => ms

end

end StreamingJson.Value
