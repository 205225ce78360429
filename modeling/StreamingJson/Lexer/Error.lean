import StreamingJson.Location
import StreamingJson.Text.Quoted

/-!
# Lexical errors

What a text can have against being read as tokens, and how a message says so.

## Main definitions

- `LexicalError` — the causes
- `LexicalFault` — a cause and the place where it was found
- `UnreadInput` — the refusal of a chunk that came too early
-/

namespace StreamingJson

/-- Why no token can be read. -/
inductive LexicalError where
  /-- A byte that the grammar does not allow here, with the UTF-8 sequence it opens. -/
  | invalidCharacter (sequence : List UInt8)
  /-- A byte after a backslash that names no escape, as the character of that number. -/
  | invalidEscape (letter : Char)
  /-- A byte among the four digits of an escaped code unit that is no digit, with the UTF-8
  sequence it opens. -/
  | invalidUnicodeEscape (sequence : List UInt8)
  /-- A surrogate code unit that is not one half of a pair. -/
  | unpairedSurrogate (unit : Nat)
  /-- An unescaped control character in a string. -/
  | controlCharacter (byte : UInt8)
  /-- A string whose bytes are no UTF-8. -/
  | invalidUtf8
  /-- A number with neither fraction nor exponent that 64 bits do not hold. -/
  | integerOutOfRange (literal : String)
  /-- A container opened inside as many containers as are allowed. -/
  | depthLimitExceeded (limit : Nat)
deriving DecidableEq, Repr

/-- The wording of a lexical error. -/
def LexicalError.message : LexicalError → String
  | .invalidCharacter sequence => "invalid character " ++ Text.quoteSequence sequence
  | .invalidEscape letter => "invalid escape sequence '\\" ++ letter.toString ++ "'"
  | .invalidUnicodeEscape sequence =>
    "invalid unicode escape sequence at character: " ++ Text.quoteSequence sequence
  | .unpairedSurrogate unit => "unpaired surrogate \\u" ++ (Text.hex unit).toUpper
  | .controlCharacter byte =>
    "unescaped control character 0x" ++ (Text.hexByte byte).toUpper ++ " in string"
  | .invalidUtf8 => "string is not valid UTF-8"
  | .integerOutOfRange literal => "integer literal " ++ literal ++ " does not fit in 64 bits"
  | .depthLimitExceeded limit => "nesting depth exceeds the limit of " ++ toString limit

/-- A lexical error and the location of the next unread byte when it was found. -/
structure LexicalFault where
  cause : LexicalError
  location : Location
deriving DecidableEq, Repr

/-- The wording of a fault: its cause and its place. -/
def LexicalFault.message (fault : LexicalFault) : String :=
  fault.cause.message ++ " at " ++ fault.location.text

/-- The refusal of a chunk while bytes of an earlier one are unread. -/
structure UnreadInput where
  count : Nat
deriving DecidableEq, Repr

/-- The wording of the refusal. -/
def UnreadInput.message (refusal : UnreadInput) : String :=
  "cannot feed more input while " ++ toString refusal.count ++ " fed bytes are still unread"

end StreamingJson
