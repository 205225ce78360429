import StreamingJson.Ascii
import StreamingJson.Token
import StreamingJson.Lexer.Error

/-!
# Number literals

The grammar of number literals as an automaton over bytes, and the numbers that complete literals
denote. A literal is an optional minus, a whole part without superfluous zeros, an optional fraction
and an optional exponent.

## Main definitions

- `NumberPhase` — how far into a literal a text has come
- `NumberPhase.after` — the phase after one more byte
- `Numeral` — the parts of a complete literal
- `Numeral.token` — the token a complete literal stands for
-/

namespace StreamingJson

/-- What the last byte read of a number literal was. -/
inductive NumberPhase where
  /-- The minus in front. -/
  | sign
  /-- A whole part that is zero, which no digit may follow. -/
  | zero
  /-- A digit of any other whole part. -/
  | whole
  /-- The decimal point. -/
  | point
  /-- A digit of the fraction. -/
  | fraction
  /-- The letter of the exponent. -/
  | exponentMark
  /-- The sign of the exponent. -/
  | exponentSign
  /-- A digit of the exponent. -/
  | exponent
deriving DecidableEq, Repr

namespace NumberPhase

/-- The phase after the first byte of a literal. -/
def opening (b : UInt8) : Option NumberPhase :=
  if b = Ascii.minus then some .sign
  else if b = Ascii.zero then some .zero
  else if Ascii.isDigit b then some .whole
  else none

/-- The phase after one more byte, if the literal can go on with it. -/
def after (phase : NumberPhase) (b : UInt8) : Option NumberPhase :=
  match phase with
  | .sign =>
    if b = Ascii.zero then some .zero else if Ascii.isDigit b then some .whole else none
  | .zero =>
    if b = Ascii.point then some .point
    else if Ascii.isExponentMark b then some .exponentMark else none
  | .whole =>
    if Ascii.isDigit b then some .whole
    else if b = Ascii.point then some .point
    else if Ascii.isExponentMark b then some .exponentMark else none
  | .point => if Ascii.isDigit b then some .fraction else none
  | .fraction =>
    if Ascii.isDigit b then some .fraction
    else if Ascii.isExponentMark b then some .exponentMark else none
  | .exponentMark =>
    if b = Ascii.plus || b = Ascii.minus then some .exponentSign
    else if Ascii.isDigit b then some .exponent else none
  | .exponentSign => if Ascii.isDigit b then some .exponent else none
  | .exponent => if Ascii.isDigit b then some .exponent else none

/-- Whether the bytes read so far are a literal by themselves. -/
def isComplete : NumberPhase → Bool
  | .zero | .whole | .fraction | .exponent => true
  | .sign | .point | .exponentMark | .exponentSign => false

/-- Whether the bytes read so far have neither fraction nor exponent. -/
def isInteger : NumberPhase → Bool
  | .sign | .zero | .whole => true
  | .point | .fraction | .exponentMark | .exponentSign | .exponent => false

end NumberPhase

/-- The parts of a number literal. The digits are those of the whole part followed by those of the
fraction, and the literal denotes them times a power of ten. -/
structure Numeral where
  negative : Bool
  digits : Nat
  exponent : Int
deriving DecidableEq, Repr

namespace Numeral

/-- The number that digits read from left to right denote. -/
def ofDigits (digits : List UInt8) : Nat :=
  digits.foldl (fun n d => 10 * n + Ascii.digitValue d) 0

/-- A text without the minus in front, and whether it had one. -/
def splitSign : List UInt8 → Bool × List UInt8
  | b :: rest => if b = Ascii.minus then (true, rest) else (false, b :: rest)
  | [] => (false, [])

/-- The digits after a decimal point in front, and what follows them. -/
def splitFraction : List UInt8 → List UInt8 × List UInt8
  | b :: rest =>
    if b = Ascii.point then (rest.takeWhile Ascii.isDigit, rest.dropWhile Ascii.isDigit)
    else ([], b :: rest)
  | [] => ([], [])

/-- The number after an exponent mark in front, or zero if there is none. -/
def exponentOf : List UInt8 → Int
  | mark :: rest =>
    if Ascii.isExponentMark mark then
      match rest with
      | s :: digits =>
        if s = Ascii.minus then -(ofDigits digits : Int)
        else if s = Ascii.plus then ofDigits digits
        else ofDigits rest
      | [] => 0
    else 0
  | [] => 0

/-- The parts of a complete literal. -/
def ofText (text : List UInt8) : Numeral :=
  let (negative, unsigned) := splitSign text
  let whole := unsigned.takeWhile Ascii.isDigit
  let (fraction, tail) := splitFraction (unsigned.dropWhile Ascii.isDigit)
  { negative
    digits := ofDigits (whole ++ fraction)
    exponent := exponentOf tail - (fraction.length : Int) }

/-- The integer a literal without fraction and exponent denotes. -/
def toInt (numeral : Numeral) : Int :=
  if numeral.negative then -(numeral.digits : Int) else numeral.digits

/-- The double-precision number nearest to what a literal denotes. -/
def toBinary64 (numeral : Numeral) : Binary64 :=
  Binary64.ofDecimal numeral.negative numeral.digits numeral.exponent

/-- The integers that 64 bits hold. -/
def inRange (i : Int) : Bool :=
  Int64.minValue.toInt ≤ i && i ≤ Int64.maxValue.toInt

/-- The token that a complete literal stands for. -/
def token (isInteger : Bool) (text : List UInt8) : Except LexicalError Token :=
  let numeral := ofText text
  if isInteger then
    if inRange numeral.toInt then .ok (.int (Int64.ofInt numeral.toInt))
    else .error (.integerOutOfRange (String.ofList (text.map fun b => Char.ofNat b.toNat)))
  else .ok (.float numeral.toBinary64)

end Numeral

end StreamingJson
