import StreamingJson.Lexer.Scanner
import StreamingJson.Utf8

/-!
# The lexer in registers

The lexer as it keeps its state from one byte to the next: a chunk and a position in it, the open
containers, what may come next, and a register for each thing that a token read in part needs. What
may come next is a single field for all open containers, and nothing but the order of steps makes it
fit the innermost one. A register is set when a token of its kind begins. When the token ends, or is
given up because of a fault, most registers keep what is in them.

## Main definitions

- `Machine` — the registers
- `Machine.Expect`, `Machine.Mode` — what may come next, and what kind of token is read in part
- `Machine.Matcher`, `Machine.Digits` — progress through a word and through an escaped code unit
- `Machine.Outcome` — what a step hands back, and the machine after it
- `Machine.step` — what the byte at the position does
-/

namespace StreamingJson

namespace Machine

/-- The kind of an open container. -/
inductive Container where
  | array
  | object
deriving DecidableEq, Repr

/-- What may come next between tokens. -/
inductive Expect where
  /-- A value, where no container is open. -/
  | rootValue
  /-- The first item of an array or its closing bracket. -/
  | arrayValueOrEnd
  /-- An item of an array, after a comma. -/
  | arrayValue
  /-- A comma or the closing bracket of an array. -/
  | afterArrayValue
  /-- The first name of an object or its closing brace. -/
  | keyOrEnd
  /-- A name, after a comma. -/
  | key
  /-- The colon after a name. -/
  | colon
  /-- The value of a member. -/
  | objectValue
  /-- A comma or the closing brace of an object. -/
  | afterObjectValue
deriving DecidableEq, Repr

/-- What may come next after a value, where the given containers are open. -/
def Expect.afterValue : List Container → Expect
  | [] => .rootValue
  | .array :: _ => .afterArrayValue
  | .object :: _ => .afterObjectValue

/-- What kind of token is read in part, and how far into it the last byte was. -/
inductive Mode where
  | between
  | word
  | number (phase : NumberPhase)
  | text
  /-- In a string, after a backslash. -/
  | escape
  /-- In a string, among the digits of an escaped code unit. -/
  | codeUnit
deriving DecidableEq, Repr

/-! ## Words -/

/-- Progress through a word: its bytes, and how many of them are matched. -/
structure Matcher where
  text : List UInt8 := []
  matched : Nat := 0
deriving DecidableEq, Repr

namespace Matcher

/-- The matcher after the first byte of a word. After any other byte it matches nothing. -/
def opening (first : UInt8) : Matcher :=
  { text :=
      if first = 0x74 then first :: Word.true.tail
      else if first = 0x66 then first :: Word.false.tail
      else if first = 0x6E then first :: Word.null.tail
      else []
    matched := 1 }

/-- The token of the word. -/
def token (w : Matcher) : Token :=
  if w.text = 0x74 :: Word.true.tail then Word.true.token
  else if w.text = 0x66 :: Word.false.tail then Word.false.token
  else Word.null.token

/-- What a byte does to a matcher. -/
inductive Progress where
  /-- It is matched, and more bytes follow. -/
  | more
  /-- It is matched as the last one. -/
  | done (token : Token)
  /-- It is not the byte that follows. -/
  | reject

/-- Matches one more byte. A byte that is rejected leaves the matcher as it is. -/
def step (w : Matcher) (b : UInt8) : Progress × Matcher :=
  if w.text[w.matched]? = some b then
    let w := { w with matched := w.matched + 1 }
    (if w.matched < w.text.length then .more else .done w.token, w)
  else (.reject, w)

end Matcher

/-! ## Code units -/

/-- The digits of a code unit so far: their value and their number. -/
structure Digits where
  value : UInt16 := 0
  count : Nat := 0
deriving DecidableEq, Repr

/-- Takes one more digit, unless the byte is none. The fourth digit completes a code unit, and then
there are none again. -/
def Digits.feed (d : Digits) (b : UInt8) : Option (Option UInt16 × Digits) :=
  match Ascii.hexValue? b with
  | none => none
  | some digit =>
    let d := { value := d.value <<< 4 ||| UInt16.ofNat digit, count := d.count + 1 : Digits }
    if d.count = 4 then some (some d.value, {}) else some (none, d)

/-- The bytes of a string that stand for themselves. -/
def isPlain (b : UInt8) : Bool :=
  b != Ascii.quote && b != Ascii.backslash && !Ascii.isControl b

end Machine

/-- The registers of the lexer. -/
structure Machine where
  depthLimit : Nat
  /-- The last chunk. -/
  input : List UInt8 := []
  /-- The position of the next unread byte in it. -/
  pos : Nat := 0
  location : Location := Location.start
  mode : Machine.Mode := .between
  expect : Machine.Expect := .rootValue
  /-- The open containers, innermost first. -/
  containers : List Machine.Container := []
  /-- The text of a number, or the bytes that a string stands for. -/
  scratch : Array UInt8 := #[]
  /-- Whether a number has a fraction or an exponent. -/
  isFloat : Bool := false
  digits : Machine.Digits := {}
  /-- A high surrogate that waits for its other half. -/
  high : Option UInt16 := none
  matcher : Machine.Matcher := {}
deriving DecidableEq, Repr

namespace Machine

/-- Whether every byte fed is read. -/
def needsInput (m : Machine) : Bool :=
  m.input.length ≤ m.pos

/-- Whether a value is begun and not complete. -/
def isMidValue (m : Machine) : Bool :=
  !m.containers.isEmpty || m.mode != .between

/-- The number of open containers. -/
def depth (m : Machine) : Nat :=
  m.containers.length

/-- A machine with the same limit that has read nothing. -/
def fresh (m : Machine) : Machine :=
  { depthLimit := m.depthLimit }

/-- Takes a chunk in place of the last one, unless bytes of that are unread. -/
def feed (m : Machine) (chunk : List UInt8) : Except UnreadInput Machine :=
  if m.needsInput then .ok { m with input := chunk, pos := 0 }
  else .error ⟨m.input.length - m.pos⟩

/-! ## Bytes -/

/-- The next unread byte. -/
def peek (m : Machine) : Option UInt8 :=
  m.input[m.pos]?

/-- The unread bytes. -/
def rest (m : Machine) : List UInt8 :=
  m.input.drop m.pos

/-- Goes past the given byte. -/
def advance (m : Machine) (b : UInt8) : Machine :=
  { m with pos := m.pos + 1, location := m.location.past b }

/-- Keeps the run of such bytes that comes next, and goes past it. None of them ends a line. -/
def takeRun (m : Machine) (repeats : UInt8 → Bool) : Machine :=
  let run := m.rest.takeWhile repeats
  { m with
    pos := m.pos + run.length
    location := m.location.right run.length
    scratch := m.scratch ++ run }

/-! ## Outcomes -/

/-- What a step hands back, and the machine after it. -/
abbrev Outcome := Except LexicalFault (Option Token) × Machine

/-- Nothing is complete. -/
def silent (m : Machine) : Outcome :=
  (.ok none, m)

/-- A token is complete. -/
def emit (m : Machine) (token : Token) : Outcome :=
  (.ok (some token), m)

/-- There is a fault. -/
def fail (m : Machine) (cause : LexicalError) : Outcome :=
  (.error ⟨cause, m.location⟩, m)

/-- The next byte cannot stand where it does. -/
def unexpected (m : Machine) : Outcome :=
  m.fail (.invalidCharacter (Utf8.leading m.rest))

/-! ## Containers -/

/-- A value is complete. -/
def valueDone (m : Machine) : Machine :=
  { m with expect := .afterValue m.containers }

/-- Opens a container, unless as many as allowed are open. -/
def openContainer (m : Machine) (b : UInt8) (kind : Container) (expect : Expect) (token : Token) :
    Outcome :=
  if m.depthLimit ≤ m.containers.length then m.fail (.depthLimitExceeded m.depthLimit)
  else { m.advance b with containers := kind :: m.containers, expect }.emit token

/-- The token that closes the innermost container. -/
def closer : List Container → Token
  | .object :: _ => .endObject
  | _ => .endArray

/-- Closes the innermost container. -/
def close (m : Machine) (b : UInt8) : Outcome :=
  { m.advance b with containers := m.containers.tail }.valueDone.emit (closer m.containers)

/-! ## Numbers -/

/-- Takes a byte of a number, and the run of digits behind it where one may stand. -/
def pushDigit (m : Machine) (b : UInt8) (next : NumberPhase) : Outcome :=
  let m := { m.advance b with
    scratch := m.scratch.push b
    isFloat := m.isFloat || next == NumberPhase.point || next == NumberPhase.exponentMark
    mode := .number next }
  match next with
  | .whole | .fraction | .exponent => (m.takeRun Ascii.isDigit).silent
  | .sign | .zero | .point | .exponentMark | .exponentSign => m.silent

/-- Ends a number before the next byte. -/
def finishNumber (m : Machine) : Outcome :=
  let m := { m with mode := .between }
  match Numeral.token (!m.isFloat) m.scratch.toList with
  | .ok token => { m with scratch := #[] }.valueDone.emit token
  | .error cause => m.fail cause

/-- A byte inside a number or after it. -/
def numberByte (m : Machine) (b : UInt8) (phase : NumberPhase) : Outcome :=
  match phase.after b with
  | some next => m.pushDigit b next
  | none => if phase.isComplete then m.finishNumber else m.unexpected

/-! ## Words -/

/-- A byte inside a word. -/
def wordByte (m : Machine) (b : UInt8) : Outcome :=
  match m.matcher.step b with
  | (.more, matcher) => { m.advance b with matcher }.silent
  | (.done token, matcher) =>
    { m.advance b with matcher, mode := .between }.valueDone.emit token
  | (.reject, _) => m.unexpected

/-! ## Strings -/

/-- Begins a string. -/
def beginText (m : Machine) (b : UInt8) : Outcome :=
  { m.advance b with scratch := #[], high := none, mode := .text }.silent

/-- The closing quote of a string, as a name where one is expected and as a value elsewhere. -/
def closeText (m : Machine) (b : UInt8) : Outcome :=
  let m' := { m.advance b with mode := .between, scratch := #[] }
  match String.fromUTF8? ⟨m.scratch⟩ with
  | none => m'.fail .invalidUtf8
  | some text =>
    if m.expect = .key ∨ m.expect = .keyOrEnd then
      { m' with expect := .colon }.emit (.fieldName text)
    else m'.valueDone.emit (.string text)

/-- A byte inside a string, outside escapes. -/
def textByte (m : Machine) (b : UInt8) : Outcome :=
  match if b = Ascii.backslash then none else m.high with
  | some unit => m.fail (.unpairedSurrogate unit.toNat)
  | none =>
    if b = Ascii.quote then m.closeText b
    else if b = Ascii.backslash then { m.advance b with mode := .escape }.silent
    else if Ascii.isControl b then m.fail (.controlCharacter b)
    else (m.takeRun isPlain).silent

/-- The byte after a backslash. -/
def escapeByte (m : Machine) (b : UInt8) : Outcome :=
  match if b = 0x75 then none else m.high with
  | some unit => m.fail (.unpairedSurrogate unit.toNat)
  | none =>
    if b = 0x75 then { m.advance b with digits := {}, mode := .codeUnit }.silent
    else
      match Scanner.simpleEscape? b with
      | some decoded =>
        { m.advance b with scratch := m.scratch.push decoded, mode := .text }.silent
      | none => m.fail (.invalidEscape (Char.ofNat b.toNat))

/-- Adds a complete code unit to a string. A high surrogate waits for the next unit. -/
def pushCodeUnit (m : Machine) (unit : UInt16) : Outcome :=
  let m' := { m with high := none }
  match m.high with
  | none =>
    if CodeUnit.isHigh unit.toNat then { m with high := some unit }.silent
    else if CodeUnit.isLow unit.toNat then m'.fail (.unpairedSurrogate unit.toNat)
    else { m' with scratch := m.scratch ++ CodeUnit.encode unit.toNat }.silent
  | some first =>
    if CodeUnit.isLow unit.toNat then
      { m' with
        scratch := m.scratch ++ CodeUnit.encode (CodeUnit.pair first.toNat unit.toNat) }.silent
    else m'.fail (.unpairedSurrogate first.toNat)

/-- A byte among the four digits of a code unit. -/
def codeUnitByte (m : Machine) (b : UInt8) : Outcome :=
  match m.digits.feed b with
  | none => m.fail (.invalidUnicodeEscape (Utf8.leading m.rest))
  | some (none, digits) => { m.advance b with digits }.silent
  | some (some unit, digits) => { m.advance b with digits, mode := .text }.pushCodeUnit unit

/-! ## Steps -/

/-- Begins a value where one may stand. -/
def beginValue (m : Machine) (b : UInt8) : Lead → Outcome
  | .openObject => m.openContainer b .object .keyOrEnd .startObject
  | .openArray => m.openContainer b .array .arrayValueOrEnd .startArray
  | .quote => m.beginText b
  | .word _ => { m.advance b with matcher := .opening b, mode := .word }.silent
  | .number phase => { m with scratch := #[], isFloat := false }.pushDigit b phase
  | _ => m.unexpected

/-- A byte between tokens that is not blank. -/
def leadByte (m : Machine) (b : UInt8) : Expect → Lead → Outcome
  | .rootValue, .closeObject => (m.advance b).emit .endObject
  | .rootValue, .closeArray => (m.advance b).emit .endArray
  | .arrayValueOrEnd, .closeArray | .afterArrayValue, .closeArray => m.close b
  | .keyOrEnd, .closeObject | .afterObjectValue, .closeObject => m.close b
  | .rootValue, lead | .arrayValueOrEnd, lead | .arrayValue, lead | .objectValue, lead =>
    m.beginValue b lead
  | .keyOrEnd, .quote | .key, .quote => m.beginText b
  | .colon, .colon => { m.advance b with expect := .objectValue }.silent
  | .afterArrayValue, .comma => { m.advance b with expect := .arrayValue }.silent
  | .afterObjectValue, .comma => { m.advance b with expect := .key }.silent
  | .keyOrEnd, _ | .key, _ | .colon, _ | .afterArrayValue, _ | .afterObjectValue, _ =>
    m.unexpected

/-- A byte between tokens. -/
def betweenByte (m : Machine) (b : UInt8) : Outcome :=
  match Lead.ofByte b with
  | .blank => (m.advance b).silent
  | lead => m.leadByte b m.expect lead

/-- What the next byte, which is `b`, does. -/
def step (m : Machine) (b : UInt8) : Outcome :=
  match m.mode with
  | .between => m.betweenByte b
  | .word => m.wordByte b
  | .number phase => m.numberByte b phase
  | .text => m.textByte b
  | .escape => m.escapeByte b
  | .codeUnit => m.codeUnitByte b

end Machine

end StreamingJson
