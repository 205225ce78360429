import StreamingJson.Lexer.CodeUnit
import StreamingJson.Lexer.Numeral

/-!
# The scanner

A push-down automaton that reads a JSON text one byte at a time. Its stack holds the open
containers, each with what may come next in it; its control state is the token read in part. It
checks where commas, colons, names and closing brackets may stand, and lets scalars and closing
brackets pass where no container is open.

Only what counts has a place here: what may come next belongs to its container, and what is kept of
a token belongs to the token. The registers in which all that is stored, and in which former tokens
leave their traces, are those of `Machine`.

## Main definitions

- `Frame` — an open container and what may come next in it
- `Lexeme` — a token read in part
- `Scanner` — the open containers and the token read in part
- `Scanner.step` — what one byte does
-/

namespace StreamingJson

/-- What may come next in an array. -/
inductive ArrayPhase where
  /-- The first item or the closing bracket. -/
  | first
  /-- An item. -/
  | item
  /-- A comma or the closing bracket. -/
  | separator
deriving DecidableEq, Repr

/-- What may come next in an object. -/
inductive ObjectPhase where
  /-- The first name or the closing brace. -/
  | first
  /-- A name. -/
  | name
  /-- The colon after a name. -/
  | colon
  /-- The value of a member. -/
  | value
  /-- A comma or the closing brace. -/
  | separator
deriving DecidableEq, Repr

/-- An open container and what may come next in it. -/
inductive Frame where
  | array (phase : ArrayPhase)
  | object (phase : ObjectPhase)
deriving DecidableEq, Repr

namespace Frame

/-- The frame after a value in it is complete. -/
def filled : Frame → Frame
  | .array _ => .array .separator
  | .object _ => .object .separator

/-- The open containers after a value in the innermost is complete. -/
def fill : List Frame → List Frame
  | [] => []
  | frame :: outer => frame.filled :: outer

end Frame

/-- The literals that are words. -/
inductive Word where
  | true
  | false
  | null
deriving DecidableEq, Repr

namespace Word

/-- The bytes of a word after its first, which tells the words apart. -/
def tail : Word → List UInt8
  | .true => [0x72, 0x75, 0x65]
  | .false => [0x61, 0x6C, 0x73, 0x65]
  | .null => [0x75, 0x6C, 0x6C]

/-- The token a word stands for. -/
def token : Word → Token
  | .true => .bool Bool.true
  | .false => .bool Bool.false
  | .null => .null

end Word

/-- A token read in part. -/
inductive Lexeme where
  /-- No token is begun. -/
  | between
  /-- A word of which the given bytes are still to come. -/
  | word (word : Word) (missing : List UInt8)
  /-- A number, with its text so far. -/
  | number (phase : NumberPhase) (text : Array UInt8)
  /-- A string, with its bytes so far and a high surrogate that waits for its other half. -/
  | text (bytes : Array UInt8) (high : Option Nat)
  /-- A string after a backslash. -/
  | escape (bytes : Array UInt8) (high : Option Nat)
  /-- A string within an escaped code unit, with the digits so far: their value and their number. -/
  | codeUnit (bytes : Array UInt8) (high : Option Nat) (value count : Nat)
deriving DecidableEq, Repr

namespace Lexeme

/-- The bytes that a token read in part takes one after the other without changing otherwise: digits
in a part of a number that may have several, and in a string the bytes that stand for
themselves. -/
def repeats : Lexeme → UInt8 → Bool
  | .number .whole _, b | .number .fraction _, b | .number .exponent _, b => Ascii.isDigit b
  | .text _ none, b => b != Ascii.quote && b != Ascii.backslash && !Ascii.isControl b
  | _, _ => false

/-- The token read in part after a run of such bytes. -/
def append : Lexeme → List UInt8 → Lexeme
  | .number phase digits, run => .number phase (digits ++ run)
  | .text bytes high, run => .text (bytes ++ run) high
  | lexeme, _ => lexeme

end Lexeme

/-- The open containers, innermost first, and the token read in part. -/
structure Scanner where
  frames : List Frame := []
  lexeme : Lexeme := .between
deriving DecidableEq, Repr

/-- What a byte does to a scanner. A byte that completes nothing is always consumed. -/
inductive Step where
  /-- The byte is consumed. -/
  | shift (next : Scanner)
  /-- The byte is consumed and completes a token or a fault. -/
  | consume (result : Except LexicalError Token) (next : Scanner)
  /-- The byte is left unread; a token or a fault is complete before it. -/
  | leave (result : Except LexicalError Token) (next : Scanner)

/-- What a byte outside tokens and strings can open or separate. -/
inductive Lead where
  | blank
  | openObject
  | closeObject
  | openArray
  | closeArray
  | comma
  | colon
  | quote
  | word (word : Word)
  | number (phase : NumberPhase)
  | other
deriving DecidableEq, Repr

/-- The role of a byte outside tokens. -/
def Lead.ofByte (b : UInt8) : Lead :=
  if Ascii.isBlank b then .blank
  else if b = Ascii.openBrace then .openObject
  else if b = Ascii.closeBrace then .closeObject
  else if b = Ascii.openBracket then .openArray
  else if b = Ascii.closeBracket then .closeArray
  else if b = Ascii.comma then .comma
  else if b = Ascii.colon then .colon
  else if b = Ascii.quote then .quote
  else if b = 0x74 then .word .true
  else if b = 0x66 then .word .false
  else if b = 0x6E then .word .null
  else
    match NumberPhase.opening b with
    | some phase => .number phase
    | none => .other

namespace Scanner

/-- Whether a value is begun and not complete: a token is read in part or a container is open. -/
def isMidValue (s : Scanner) : Bool :=
  !s.frames.isEmpty || s.lexeme != .between

/-- The byte is left unread, and so it is for every later call. -/
def stuck (s : Scanner) (cause : LexicalError) : Step :=
  .leave (.error cause) s

/-- Opens a container, unless as many as allowed are open. -/
def openContainer (limit : Nat) (s : Scanner) (token : Token) (frame : Frame) : Step :=
  if limit ≤ s.frames.length then s.stuck (.depthLimitExceeded limit)
  else .consume (.ok token) { s with frames := frame :: s.frames }

/-- Begins a value where one may stand. -/
def beginValue (limit : Nat) (shown : List UInt8) (s : Scanner) (b : UInt8) : Lead → Step
  | .openObject => s.openContainer limit .startObject (.object .first)
  | .openArray => s.openContainer limit .startArray (.array .first)
  | .quote => .shift { s with lexeme := .text #[] none }
  | .word w => .shift { s with lexeme := .word w w.tail }
  | .number phase => .shift { s with lexeme := .number phase #[b] }
  | _ => s.stuck (.invalidCharacter shown)

/-- A byte where no container is open. Closing brackets pass as tokens. -/
def atRoot (limit : Nat) (shown : List UInt8) (s : Scanner) (b : UInt8) : Lead → Step
  | .closeObject => .consume (.ok .endObject) s
  | .closeArray => .consume (.ok .endArray) s
  | lead => s.beginValue limit shown b lead

/-- A byte inside an array, between tokens. -/
def inArray (limit : Nat) (shown : List UInt8) (s : Scanner) (b : UInt8) (outer : List Frame) :
    ArrayPhase → Lead → Step
  | .first, .closeArray | .separator, .closeArray =>
    .consume (.ok .endArray) { s with frames := Frame.fill outer }
  | .separator, .comma => .shift { s with frames := .array .item :: outer }
  | .separator, _ => s.stuck (.invalidCharacter shown)
  | .first, lead | .item, lead => s.beginValue limit shown b lead

/-- A byte inside an object, between tokens. -/
def inObject (limit : Nat) (shown : List UInt8) (s : Scanner) (b : UInt8) (outer : List Frame) :
    ObjectPhase → Lead → Step
  | .first, .closeObject | .separator, .closeObject =>
    .consume (.ok .endObject) { s with frames := Frame.fill outer }
  | .first, .quote | .name, .quote => .shift { s with lexeme := .text #[] none }
  | .colon, .colon => .shift { s with frames := .object .value :: outer }
  | .separator, .comma => .shift { s with frames := .object .name :: outer }
  | .value, lead => s.beginValue limit shown b lead
  | _, _ => s.stuck (.invalidCharacter shown)

/-- A byte between tokens. -/
def between (limit : Nat) (shown : List UInt8) (s : Scanner) (b : UInt8) : Step :=
  match Lead.ofByte b with
  | .blank => .shift s
  | lead =>
    match s.frames with
    | [] => s.atRoot limit shown b lead
    | .array phase :: outer => s.inArray limit shown b outer phase lead
    | .object phase :: outer => s.inObject limit shown b outer phase lead

/-- A byte inside a word. -/
def inWord (shown : List UInt8) (s : Scanner) (b : UInt8) (w : Word) : List UInt8 → Step
  | [] => s.stuck (.invalidCharacter shown)
  | expected :: missing =>
    if b ≠ expected then s.stuck (.invalidCharacter shown)
    else if missing.isEmpty then
      .consume (.ok w.token) { frames := Frame.fill s.frames, lexeme := .between }
    else .shift { s with lexeme := .word w missing }

/-- A byte inside a number or after it. Only the byte after a number shows where it ends, and it is
left unread. -/
def inNumber (shown : List UInt8) (s : Scanner) (b : UInt8) (phase : NumberPhase)
    (text : Array UInt8) : Step :=
  match phase.after b with
  | some next => .shift { s with lexeme := .number next (text.push b) }
  | none =>
    if phase.isComplete then
      match Numeral.token phase.isInteger text.toList with
      | .ok token => .leave (.ok token) { frames := Frame.fill s.frames, lexeme := .between }
      | .error cause => .leave (.error cause) { s with lexeme := .between }
    else s.stuck (.invalidCharacter shown)

/-- The token of a string, and the open containers after it: a name where a name is expected, a
value elsewhere. -/
def placeText (text : String) : List Frame → Token × List Frame
  | .object .first :: outer | .object .name :: outer => (.fieldName text, .object .colon :: outer)
  | frames => (.string text, Frame.fill frames)

/-- The closing quote of a string. -/
def closeText (s : Scanner) (bytes : Array UInt8) : Step :=
  match String.fromUTF8? ⟨bytes⟩ with
  | none => .consume (.error .invalidUtf8) { s with lexeme := .between }
  | some text =>
    let (token, frames) := placeText text s.frames
    .consume (.ok token) { frames, lexeme := .between }

/-- A byte inside a string, outside escapes. -/
def inText (s : Scanner) (b : UInt8) (bytes : Array UInt8) (high : Option Nat) : Step :=
  if b = Ascii.backslash then .shift { s with lexeme := .escape bytes high }
  else
    match high with
    | some unit => s.stuck (.unpairedSurrogate unit)
    | none =>
      if b = Ascii.quote then s.closeText bytes
      else if Ascii.isControl b then s.stuck (.controlCharacter b)
      else .shift { s with lexeme := .text (bytes.push b) none }

/-- The byte that a single letter or sign after a backslash stands for. -/
def simpleEscape? (b : UInt8) : Option UInt8 :=
  if b = Ascii.quote || b = Ascii.backslash || b = Ascii.slash then some b
  else if b = 0x62 then some 0x08
  else if b = 0x66 then some 0x0C
  else if b = 0x6E then some 0x0A
  else if b = 0x72 then some 0x0D
  else if b = 0x74 then some 0x09
  else none

/-- The byte after a backslash. -/
def inEscape (s : Scanner) (b : UInt8) (bytes : Array UInt8) (high : Option Nat) : Step :=
  if b = 0x75 then .shift { s with lexeme := .codeUnit bytes high 0 0 }
  else
    match high with
    | some unit => s.stuck (.unpairedSurrogate unit)
    | none =>
      match simpleEscape? b with
      | some decoded => .shift { s with lexeme := .text (bytes.push decoded) none }
      | none => s.stuck (.invalidEscape (Char.ofNat b.toNat))

/-- A complete code unit inside a string. -/
def closeCodeUnit (s : Scanner) (bytes : Array UInt8) (high : Option Nat) (unit : Nat) : Step :=
  match high with
  | some first =>
    if CodeUnit.isLow unit then
      .shift { s with lexeme := .text (bytes ++ CodeUnit.encode (CodeUnit.pair first unit)) none }
    else .consume (.error (.unpairedSurrogate first)) { s with lexeme := .text bytes none }
  | none =>
    if CodeUnit.isHigh unit then .shift { s with lexeme := .text bytes (some unit) }
    else if CodeUnit.isLow unit then
      .consume (.error (.unpairedSurrogate unit)) { s with lexeme := .text bytes none }
    else .shift { s with lexeme := .text (bytes ++ CodeUnit.encode unit) none }

/-- A byte among the four digits of a code unit. -/
def inCodeUnit (shown : List UInt8) (s : Scanner) (b : UInt8) (bytes : Array UInt8)
    (high : Option Nat) (value count : Nat) : Step :=
  match Ascii.hexValue? b with
  | none => s.stuck (.invalidUnicodeEscape shown)
  | some digit =>
    if count < 3 then
      .shift { s with lexeme := .codeUnit bytes high (16 * value + digit) (count + 1) }
    else s.closeCodeUnit bytes high (16 * value + digit)

/-- What the byte `b` does to the scanner, where at most `limit` containers may be open and `shown`
is what a message shows for this place. -/
def step (limit : Nat) (shown : List UInt8) (s : Scanner) (b : UInt8) : Step :=
  match s.lexeme with
  | .between => s.between limit shown b
  | .word w missing => s.inWord shown b w missing
  | .number phase text => s.inNumber shown b phase text
  | .text bytes high => s.inText b bytes high
  | .escape bytes high => s.inEscape b bytes high
  | .codeUnit bytes high value count => s.inCodeUnit shown b bytes high value count

end Scanner

end StreamingJson
