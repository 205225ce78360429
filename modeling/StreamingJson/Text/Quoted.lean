import StreamingJson.Text.Hidden

/-!
# Quoted text

How messages show a piece of text between double quotes. A string and a byte sequence follow two
rules that agree beyond ASCII: a visible character stands for itself, a hidden one is written as
its code point in braces.

## Main definitions

- `Text.quoteString` — a string in quotes
- `Text.quoteSequence` — the bytes of one UTF-8 sequence, or of a broken one, in quotes
-/

namespace StreamingJson.Text

/-- The digit of `n` in base sixteen, letters in lower case. -/
def hexDigit (n : Nat) : Char :=
  if n < 10 then Char.ofNat (0x30 + n) else Char.ofNat (0x61 + (n - 10))

/-- A byte as two hexadecimal digits. -/
def hexByte (b : UInt8) : String :=
  String.ofList [hexDigit (b.toNat / 16), hexDigit (b.toNat % 16)]

/-- A number in base sixteen without leading zeros. -/
def hex (n : Nat) : String :=
  String.ofList (Nat.toDigits 16 n)

/-- A character as its code point in braces. -/
def codePoint (c : Char) : String :=
  "\\u\x7b" ++ hex c.toNat ++ "\x7d"

/-- A byte as a backslash, an `x` and two digits. -/
def escapedByte (b : UInt8) : String :=
  "\\x" ++ hexByte b

/-- A character as it is, or as its code point where it is hidden. -/
def wideChar (c : Char) : String :=
  if isHidden c then codePoint c else c.toString

/-- The escapes that both rules write with a letter or a sign of its own. -/
def shortEscape? (c : Char) : Option String :=
  match c.toNat with
  | 0x00 => some "\\0"
  | 0x09 => some "\\t"
  | 0x0A => some "\\n"
  | 0x0D => some "\\r"
  | 0x22 => some "\\\""
  | 0x5C => some "\\\\"
  | _ => none

/-- A character of a quoted string. Apostrophes stand for themselves. -/
def stringChar (c : Char) : String :=
  (shortEscape? c).getD (wideChar c)

/-- A character of a quoted byte sequence. Apostrophes are escaped, and an ASCII control without a
letter of its own is written as a byte. -/
def sequenceChar (c : Char) : String :=
  (shortEscape? c).getD <|
    if c.toNat = 0x27 then "\\" ++ c.toString
    else if c.toNat < 0x20 || c.toNat = 0x7F then escapedByte c.toUInt8
    else wideChar c

/-- A string in double quotes. -/
def quoteString (s : String) : String :=
  "\"" ++ String.join (s.toList.map stringChar) ++ "\""

/-- One UTF-8 sequence in double quotes. Bytes that are no UTF-8 are written one by one. -/
def quoteSequence (bytes : List UInt8) : String :=
  match String.fromUTF8? ⟨bytes.toArray⟩ with
  | some s => "\"" ++ String.join (s.toList.map sequenceChar) ++ "\""
  | none => "\"" ++ String.join (bytes.map escapedByte) ++ "\""

end StreamingJson.Text
