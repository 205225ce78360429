/-!
# Settings

How a text is turned into values.

## Main definitions

- `DuplicatePolicy` — what happens to a member name that occurs again
- `Options` — all settings
-/

namespace StreamingJson

/-- What happens if a member name occurs again in one object. -/
inductive DuplicatePolicy where
  /-- The new value replaces the old one. -/
  | keepLast
  /-- The text is refused. -/
  | reject
deriving DecidableEq, Repr

/-- How a text is turned into values. -/
structure Options where
  /-- Whether the items of a root array are values of their own, and its end is the end of all. -/
  streamRootArray : Bool := false
  duplicates : DuplicatePolicy := .keepLast
  /-- How many containers may be open at a time. -/
  depthLimit : Nat := 1000
deriving DecidableEq, Repr

end StreamingJson
