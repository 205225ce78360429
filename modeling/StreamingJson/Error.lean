import StreamingJson.Builder
import StreamingJson.Lexer.Error

/-!
# Terminal errors

Why the values of a text cannot be delivered to the end, and how a message says so.

## Main definitions

- `ProtocolViolation` — calls that a pipeline does not allow
- `Error` — everything that ends a pipeline before its time
- `Error.message`, `Error.location?` — its wording and its place
-/

namespace StreamingJson

/-- Calls that the agreement between a pipeline and its two sides does not allow. -/
inductive ProtocolViolation where
  /-- A demand for no values. -/
  | zeroDemand
  /-- A chunk that was not asked for. -/
  | unrequestedChunk
  /-- A chunk that the token source refused. -/
  | refusedChunk (refusal : UnreadInput)
deriving DecidableEq, Repr

/-- The wording of a violation. -/
def ProtocolViolation.message : ProtocolViolation → String
  | .zeroDemand => "demand must be greater than zero"
  | .unrequestedChunk => "upstream delivered a chunk without an outstanding request"
  | .refusedChunk refusal => refusal.message

/-- Everything that ends a pipeline before its time. -/
inductive Error where
  /-- The bytes are no tokens. -/
  | lexical (fault : LexicalFault)
  /-- The tokens are no trees. -/
  | malformed (cause : StructureError) (location : Location)
  /-- The text ends inside a value. -/
  | truncated (location : Location)
  /-- The supplier of chunks failed. -/
  | supplier (message : String)
  /-- One of the two sides broke the agreement. -/
  | protocol (violation : ProtocolViolation)
deriving DecidableEq, Repr

namespace Error

/-- The wording of an error. -/
def message : Error → String
  | .lexical fault => fault.message
  | .malformed cause location =>
    "malformed JSON structure: " ++ cause.message ++ " at " ++ location.text
  | .truncated location =>
    "unexpected end-of-input at " ++ location.text ++ ": JSON value left unclosed"
  | .supplier message => "upstream failed: " ++ message
  | .protocol violation => "protocol violation: " ++ violation.message

/-- The place in the text, for errors of the text. -/
def location? : Error → Option Location
  | .lexical fault => some fault.location
  | .malformed _ location => some location
  | .truncated location => some location
  | .supplier _ | .protocol _ => none

/-- Whether more text could have made up for the error. -/
def isTruncated : Error → Bool
  | .truncated _ => true
  | _ => false

end Error

end StreamingJson
