import StreamingJson.Value.Basic

/-!
# Equality of values

Two values are equal as JSON data if they differ at most in the order of object members and in the
sign of zeros. Numbers of the two numeric forms are never equal, and a value that holds a NaN is not
equal to itself. The comparison of objects stands for that of insertion-ordered maps, and what is
documented of it is taken as given: as many entries, and each key of the first with an equal value
in the second, in whichever order.

## Main definitions

- `Value.same` — equality as JSON data
-/

namespace StreamingJson.Value

mutual

/-- Equality as JSON data. Objects are equal if they have as many members and every member of the
first has an equal value under its name in the second. -/
def same : Value → Value → Bool
  | .null, .null => true
  | .bool a, .bool b => a == b
  | .int a, .int b => a == b
  | .float a, .float b => a.sameNumber b
  | .string a, .string b => a == b
  | .array xs, .array ys => sameItems xs ys
  | .object ms, .object ns => ms.length == ns.length && sameMembers ms ns
  | _, _ => false
termination_by structural v => v

/-- Equality of arrays, item by item. -/
def sameItems : List Value → List Value → Bool
  | [], [] => true
  | x :: xs, y :: ys => x.same y && sameItems xs ys
  | _, _ => false
termination_by structural xs => xs

/-- Whether every member of the first list has an equal value under its name in the second. -/
def sameMembers : List (String × Value) → List (String × Value) → Bool
  | [], _ => true
  | (name, v) :: ms, ns =>
    (match lookup name ns with
      | some w => v.same w
      | none => false) && sameMembers ms ns
termination_by structural ms => ms

end

end StreamingJson.Value
