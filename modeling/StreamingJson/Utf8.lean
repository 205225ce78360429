/-!
# UTF-8 sequences

The sequence of bytes that an error message shows for a place in a text: the UTF-8 form of one
character or, where the bytes there are no UTF-8, the longest start of such a form.

## Main definitions

- `Utf8.leadLength` — how many bytes that sequence has
- `Utf8.leading` — the sequence itself
-/

namespace StreamingJson.Utf8

/-- The bytes `0x80` to `0xBF` continue a sequence. -/
def isContinuation (b : UInt8) : Bool :=
  0x80 ≤ b && b ≤ 0xBF

/-- How many bytes follow the first byte of a sequence, and the range the second of them lies in.
The narrower ranges after `E0`, `ED`, `F0` and `F4` keep out overlong forms, surrogates and code
points past the last plane. -/
def announced (b : UInt8) : Nat × UInt8 × UInt8 :=
  if b < 0xC2 then (0, 0, 0)
  else if b ≤ 0xDF then (1, 0x80, 0xBF)
  else if b = 0xE0 then (2, 0xA0, 0xBF)
  else if b = 0xED then (2, 0x80, 0x9F)
  else if b ≤ 0xEF then (2, 0x80, 0xBF)
  else if b = 0xF0 then (3, 0x90, 0xBF)
  else if b ≤ 0xF3 then (3, 0x80, 0xBF)
  else if b = 0xF4 then (3, 0x80, 0x8F)
  else (0, 0, 0)

/-- How many of the first `n` bytes continue a sequence before one that does not. -/
def continuations (n : Nat) (bytes : List UInt8) : Nat :=
  ((bytes.take n).takeWhile isContinuation).length

/-- The length of the character that opens `bytes`, or of the longest start of a character there.
A byte that opens no character counts as a sequence of its own. -/
def leadLength : List UInt8 → Nat
  | [] => 0
  | [_] => 1
  | first :: second :: rest =>
    let (more, low, high) := announced first
    if more = 0 || second < low || high < second then 1
    else 2 + continuations (more - 1) rest

/-- The character that opens `bytes`, or the longest start of one. -/
def leading (bytes : List UInt8) : List UInt8 :=
  bytes.take (leadLength bytes)

end StreamingJson.Utf8
