/-!
# Locations

Where in a text a byte stands. Lines and columns count from one, a column is one byte wide, and a
line feed ends its line.

## Main definitions

- `Location` — a line and a column
- `Location.past` — the location after one more byte
- `Location.right` — the location further on in the line
- `Location.text` — the location as `line:column`
-/

namespace StreamingJson

/-- The line and column of a byte, both counted from one. -/
structure Location where
  line : Nat
  column : Nat
deriving DecidableEq, Repr

namespace Location

/-- The first byte of a text. -/
def start : Location := ⟨1, 1⟩

/-- The location after `byte`: a line feed opens the next line, any other byte the next column. -/
def past (loc : Location) (byte : UInt8) : Location :=
  if byte = 0x0A then ⟨loc.line + 1, 1⟩ else ⟨loc.line, loc.column + 1⟩

/-- The location after `count` bytes without a line feed. -/
def right (loc : Location) (count : Nat) : Location :=
  ⟨loc.line, loc.column + count⟩

/-- The location as `line:column`. -/
def text (loc : Location) : String :=
  toString loc.line ++ ":" ++ toString loc.column

end Location

end StreamingJson
