/-!
# Escaped code units

A `\u` escape names a UTF-16 code unit. Two surrogate units in a row, a high one and a low one, name
one character; any other unit that is no surrogate names a character by itself.

## Main definitions

- `CodeUnit.isHigh`, `CodeUnit.isLow` — the two halves of surrogate pairs
- `CodeUnit.pair` — the code point that two halves name
-/

namespace StreamingJson.CodeUnit

/-- The units that open a surrogate pair. -/
def isHigh (unit : Nat) : Bool :=
  0xD800 ≤ unit && unit ≤ 0xDBFF

/-- The units that close a surrogate pair. -/
def isLow (unit : Nat) : Bool :=
  0xDC00 ≤ unit && unit ≤ 0xDFFF

/-- The code point that a high and a low surrogate name together. -/
def pair (high low : Nat) : Nat :=
  0x10000 + (high - 0xD800) * 0x400 + (low - 0xDC00)

/-- The UTF-8 form of the character of a given code point. -/
def encode (codePoint : Nat) : List UInt8 :=
  String.utf8EncodeChar (Char.ofNat codePoint)

end StreamingJson.CodeUnit
