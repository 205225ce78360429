import StreamingJson.Options
import StreamingJson.Text.Quoted
import StreamingJson.Value.Basic

/-!
# Building values

A builder takes tokens one at a time and hands out each value whose last token it has seen. It
checks by itself that the tokens form trees. With a streamed root array it hands out the items of
the array instead, one by one, and says when the array closes.

## Main definitions

- `StructureError` — how tokens can fail to form a tree
- `Builder` — the containers under construction
- `Built` — what a token completes
- `Builder.push` — takes one token
-/

namespace StreamingJson

/-- How tokens can fail to form a tree. -/
inductive StructureError where
  /-- A token that cannot stand outside containers. -/
  | unexpectedAtTopLevel (kind : Token.Kind)
  /-- A member name in an array, or after another name. -/
  | unexpectedFieldName
  /-- A value in an object with no name before it. -/
  | missingFieldName
  /-- The end of an object after a name with no value. -/
  | missingValue (name : String)
  /-- A closing bracket of the wrong kind. -/
  | mismatchedClose (expected found : Token.Kind)
  /-- A member name that the object has already. -/
  | duplicateKey (name : String)
deriving DecidableEq, Repr

/-- The wording of a structure error. -/
def StructureError.message : StructureError → String
  | .unexpectedAtTopLevel kind => "unexpected " ++ kind.text ++ " at top level"
  | .unexpectedFieldName => "unexpected field name where a value was expected"
  | .missingFieldName => "object member has no field name"
  | .missingValue name => "field " ++ Text.quoteString name ++ " has no value"
  | .mismatchedClose expected found => "expected " ++ expected.text ++ ", found " ++ found.text
  | .duplicateKey name => "duplicate field " ++ Text.quoteString name

/-- A container under construction. -/
inductive Container where
  | object (members : List (String × Value))
  | array (items : Array Value)
deriving DecidableEq, Repr

namespace Container

/-- The kind of token that ends the container. -/
def closing : Container → Token.Kind
  | .object _ => .endObject
  | .array _ => .endArray

/-- The value that the container is once it is closed. -/
def value : Container → Value
  | .object members => .object members
  | .array items => .array items.toList

end Container

/-- A container under construction and the name it will be stored under: none in an array and
outside containers. -/
structure Nest where
  container : Container
  slot : Option String
deriving DecidableEq, Repr

/-- What a token completes. -/
inductive Built where
  /-- Nothing yet. -/
  | incomplete
  /-- A value: outside containers or, where the root array is streamed, one of its items. -/
  | value (value : Value)
  /-- The streamed root array. -/
  | rootClosed
deriving DecidableEq, Repr

/-- The containers under construction, innermost first. -/
structure Builder where
  streamRootArray : Bool
  duplicates : DuplicatePolicy
  nests : List Nest := []
  /-- A member name whose value is still to come. -/
  pending : Option String := none
  /-- Whether the outermost container is an array that is streamed. -/
  streaming : Bool := false
deriving DecidableEq, Repr

namespace Builder

/-- A builder for the given settings that has seen nothing. -/
def new (options : Options) : Builder :=
  { streamRootArray := options.streamRootArray, duplicates := options.duplicates }

/-- The number of containers under construction. -/
def depth (b : Builder) : Nat :=
  b.nests.length

/-- Drops everything under construction. -/
def reset (b : Builder) : Builder :=
  { b with nests := [], pending := none, streaming := false }

/-- The name under which a value that starts now is stored. Inside an object that is the pending
name, which is then no longer pending; elsewhere values have no name. -/
def takeSlot (b : Builder) : Except StructureError (Option String) × Builder :=
  match b.nests with
  | ⟨.object _, _⟩ :: _ =>
    match b.pending with
    | some name => (.ok (some name), { b with pending := none })
    | none => (.error .missingFieldName, b)
  | _ => (.ok none, b)

/-- Starts a container. -/
def openNest (b : Builder) (container : Container) (isArray : Bool) :
    Except StructureError Built × Builder :=
  let b := if b.nests.isEmpty then { b with streaming := b.streamRootArray && isArray } else b
  match b.takeSlot with
  | (.error cause, b) => (.error cause, b)
  | (.ok slot, b) => (.ok .incomplete, { b with nests := ⟨container, slot⟩ :: b.nests })

/-- Stores a complete value in the innermost container. Outside containers, and where that container
is the streamed array, the value is handed out instead. -/
def attach (b : Builder) (value : Value) (slot : Option String) :
    Except StructureError Built × Builder :=
  match b.nests with
  | [] => (.ok (.value value), b)
  | nest :: outer =>
    if b.streaming && outer.isEmpty then (.ok (.value value), b)
    else
      match nest.container, slot with
      | .array items, _ =>
        (.ok .incomplete,
          { b with nests := { nest with container := .array (items.push value) } :: outer })
      | .object members, some name =>
        let members := Value.insertMember name value members
        (.ok .incomplete, { b with nests := { nest with container := .object members } :: outer })
      | .object _, none => (.error .missingFieldName, b)

/-- Ends the innermost container. It is gone even if the token is refused. -/
def closeNest (b : Builder) (found : Token.Kind) : Except StructureError Built × Builder :=
  match b.nests with
  | [] => (.error (.unexpectedAtTopLevel found), b)
  | nest :: outer =>
    let b := { b with nests := outer }
    if nest.container.closing ≠ found then
      (.error (.mismatchedClose nest.container.closing found), b)
    else
      match b.pending with
      | some name => (.error (.missingValue name), { b with pending := none })
      | none =>
        if b.streaming && outer.isEmpty then (.ok .rootClosed, { b with streaming := false })
        else b.attach nest.container.value nest.slot

/-- Takes the name of the next member. -/
def fieldName (b : Builder) (name : String) : Except StructureError Built × Builder :=
  match b.nests, b.pending with
  | [], _ => (.error (.unexpectedAtTopLevel .fieldName), b)
  | ⟨.object members, _⟩ :: _, none =>
    if b.duplicates = .reject && Value.hasMember name members then
      (.error (.duplicateKey name), b)
    else (.ok .incomplete, { b with pending := some name })
  | _, _ => (.error .unexpectedFieldName, b)

/-- Takes a value that is a single token. -/
def scalar (b : Builder) (value : Value) (kind : Token.Kind) :
    Except StructureError Built × Builder :=
  if b.nests.isEmpty then (.error (.unexpectedAtTopLevel kind), b)
  else
    match b.takeSlot with
    | (.error cause, b) => (.error cause, b)
    | (.ok slot, b) => b.attach value slot

/-- Takes one token. After an error the builder is to be reset before it is used again. -/
def push (b : Builder) (token : Token) : Except StructureError Built × Builder :=
  match token with
  | .startObject => b.openNest (.object []) false
  | .startArray => b.openNest (.array #[]) true
  | .endObject => b.closeNest .endObject
  | .endArray => b.closeNest .endArray
  | .fieldName name => b.fieldName name
  | .string text => b.scalar (.string text) .string
  | .int i => b.scalar (.int i) .int
  | .float x => b.scalar (.float x) .float
  | .bool t => b.scalar (.bool t) .bool
  | .null => b.scalar .null .null

end Builder

end StreamingJson
