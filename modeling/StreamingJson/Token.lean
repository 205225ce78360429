import StreamingJson.Binary64

/-!
# Tokens

The structural tokens a JSON text is made of. Commas, colons and blanks only separate them and are
no tokens themselves.

## Main definitions

- `Token` — a token with its payload
- `Token.Kind` — a token without its payload, as messages name it
-/

namespace StreamingJson

/-- A structural token. Text is held without its escapes. -/
inductive Token where
  | startObject
  | endObject
  | startArray
  | endArray
  /-- The name of an object member. -/
  | fieldName (name : String)
  | string (text : String)
  /-- A number with neither fraction nor exponent. -/
  | int (value : Int64)
  /-- Any other number. -/
  | float (value : Binary64)
  | bool (value : Bool)
  | null
deriving DecidableEq, Repr

namespace Token

/-- What kind of token a token is. -/
inductive Kind where
  | startObject
  | endObject
  | startArray
  | endArray
  | fieldName
  | string
  | int
  | float
  | bool
  | null
deriving DecidableEq, Repr

/-- The kind of a token. -/
def kind : Token → Kind
  | .startObject => .startObject
  | .endObject => .endObject
  | .startArray => .startArray
  | .endArray => .endArray
  | .fieldName _ => .fieldName
  | .string _ => .string
  | .int _ => .int
  | .float _ => .float
  | .bool _ => .bool
  | .null => .null

/-- The name of a kind in messages. -/
def Kind.text : Kind → String
  | .startObject => "start of object"
  | .endObject => "end of object"
  | .startArray => "start of array"
  | .endArray => "end of array"
  | .fieldName => "field name"
  | .string => "string literal"
  | .int => "integer literal"
  | .float => "float literal"
  | .bool => "boolean literal"
  | .null => "null literal"

end Token

end StreamingJson
