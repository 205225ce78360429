import StreamingJson.Token

/-!
# JSON values

A JSON text denotes a tree of values. Objects keep their members in the order in which the names
first occurred; a name that occurs again replaces the value it had.

The members of an object stand for a map that keeps the order of insertion. What is documented of
such a map is taken as given: `insertMember` is what inserting does to its entries, and `lookup` and
`hasMember` are what looking up a key and asking for it give.

## Main definitions

- `Value` — a tree of values
- `Value.insertMember` — an object's members after one more
- `Value.ofMembers` — the object that a list of members makes
- `Value.lookup` — the value stored under a name
- `Value.shape` — which of the seven forms a value has
-/

namespace StreamingJson

/-- A JSON value. -/
inductive Value where
  | null
  | bool (value : Bool)
  /-- A number with neither fraction nor exponent. -/
  | int (value : Int64)
  /-- Any other number. -/
  | float (value : Binary64)
  | string (text : String)
  | array (items : List Value)
  /-- The members in order of first occurrence. -/
  | object (members : List (String × Value))
deriving Repr, Inhabited

namespace Value

/-- The members of an object after one more: a new name goes to the end, a known name keeps its
place and takes the new value. This is the documented insertion of an insertion-ordered map. -/
def insertMember (name : String) (value : Value) :
    List (String × Value) → List (String × Value)
  | [] => [(name, value)]
  | (known, old) :: rest =>
    if known = name then (known, value) :: rest
    else (known, old) :: insertMember name value rest

/-- The object that the given members make one after the other. -/
def ofMembers (members : List (String × Value)) : Value :=
  .object (members.foldl (fun done member => insertMember member.1 member.2 done) [])

/-- The value stored under a name. -/
def lookup (name : String) : List (String × Value) → Option Value
  | [] => none
  | (known, value) :: rest => if known = name then some value else lookup name rest

/-- Whether a member of the given name is among `members`, as an insertion-ordered map answers. -/
def hasMember (name : String) (members : List (String × Value)) : Bool :=
  (lookup name members).isSome

/-- The forms a value can have. -/
inductive Shape where
  | null
  | bool
  | int
  | float
  | string
  | array
  | object
deriving DecidableEq, Repr

/-- Whether values of this form hold other values. -/
def Shape.isContainer : Shape → Bool
  | .array | .object => true
  | _ => false

/-- The form of a value. -/
def shape : Value → Shape
  | .null => .null
  | .bool _ => .bool
  | .int _ => .int
  | .float _ => .float
  | .string _ => .string
  | .array _ => .array
  | .object _ => .object

mutual

/-- Decides whether two values are the same tree, member order and bit patterns included. -/
def decEq : (v w : Value) → Decidable (v = w)
  | .null, .null => .isTrue rfl
  | .bool a, .bool b => if h : a = b then .isTrue (h ▸ rfl) else .isFalse (by simpa using h)
  | .int a, .int b => if h : a = b then .isTrue (h ▸ rfl) else .isFalse (by simpa using h)
  | .float a, .float b => if h : a = b then .isTrue (h ▸ rfl) else .isFalse (by simpa using h)
  | .string a, .string b => if h : a = b then .isTrue (h ▸ rfl) else .isFalse (by simpa using h)
  | .array xs, .array ys =>
    match decEqItems xs ys with
    | .isTrue h => .isTrue (h ▸ rfl)
    | .isFalse h => .isFalse (by simpa using h)
  | .object ms, .object ns =>
    match decEqMembers ms ns with
    | .isTrue h => .isTrue (h ▸ rfl)
    | .isFalse h => .isFalse (by simpa using h)
  | .null, .bool _ | .null, .int _ | .null, .float _ | .null, .string _ | .null, .array _
  | .null, .object _ | .bool _, .null | .bool _, .int _ | .bool _, .float _ | .bool _, .string _
  | .bool _, .array _ | .bool _, .object _ | .int _, .null | .int _, .bool _ | .int _, .float _
  | .int _, .string _ | .int _, .array _ | .int _, .object _ | .float _, .null | .float _, .bool _
  | .float _, .int _ | .float _, .string _ | .float _, .array _ | .float _, .object _
  | .string _, .null | .string _, .bool _ | .string _, .int _ | .string _, .float _
  | .string _, .array _ | .string _, .object _ | .array _, .null | .array _, .bool _
  | .array _, .int _ | .array _, .float _ | .array _, .string _ | .array _, .object _
  | .object _, .null | .object _, .bool _ | .object _, .int _ | .object _, .float _
  | .object _, .string _ | .object _, .array _ => .isFalse (by simp)
termination_by structural v => v

/-- Decides whether two lists of items are the same. -/
def decEqItems : (xs ys : List Value) → Decidable (xs = ys)
  | [], [] => .isTrue rfl
  | x :: xs, y :: ys =>
    match decEq x y, decEqItems xs ys with
    | .isTrue h, .isTrue k => .isTrue (h ▸ k ▸ rfl)
    | .isFalse h, _ => .isFalse (by simp [h])
    | _, .isFalse k => .isFalse (by simp [k])
  | [], _ :: _ | _ :: _, [] => .isFalse (by simp)
termination_by structural xs => xs

/-- Decides whether two lists of members are the same. -/
def decEqMembers : (ms ns : List (String × Value)) → Decidable (ms = ns)
  | [], [] => .isTrue rfl
  | (k, v) :: ms, (l, w) :: ns =>
    match decEq v w, decEqMembers ms ns with
    | .isTrue h, .isTrue t =>
      if e : k = l then .isTrue (e ▸ h ▸ t ▸ rfl) else .isFalse (by simp [e])
    | .isFalse h, _ => .isFalse (by simp [h])
    | _, .isFalse t => .isFalse (by simp [t])
  | [], _ :: _ | _ :: _, [] => .isFalse (by simp)
termination_by structural ms => ms

end

instance : DecidableEq Value := decEq

end Value

end StreamingJson
