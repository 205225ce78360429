import StreamingJson.Lexer.CodeUnit
import StreamingJson.Lexer.Numeral
import StreamingJson.Options
import StreamingJson.Value.Basic

/-!
# The grammar of JSON texts

Which bytes are the text of a value, as the standard has it and without regard to how they are read.
The texts of numbers and strings are related to what they denote piece by piece; those of containers
by recursion over the value. Here an object may name a member several times, since its text may.

## Main definitions

- `NumberText` — the number literals and their parts
- `StringText` — what may stand between two quotes, and the characters it denotes
- `ValueText` — the texts of a value
- `Documents` — the texts that are a row of containers
- `Value.merged` — the value with each member name once
- `Value.nesting`, `Value.NamesDistinct` — what the settings restrict
-/

namespace StreamingJson

/-- Blanks may stand around all tokens. -/
def Blank (bytes : List UInt8) : Prop :=
  ∀ b ∈ bytes, Ascii.isBlank b = true

/-! ## Numbers -/

/-- One or more decimal digits. -/
def Digits (bytes : List UInt8) : Prop :=
  bytes ≠ [] ∧ ∀ b ∈ bytes, Ascii.isDigit b = true

/-- The whole part of a number: digits of which the first is no zero unless it is the only one. -/
def Whole (bytes : List UInt8) : Prop :=
  Digits bytes ∧ (bytes.head? = some Ascii.zero → bytes = [Ascii.zero])

/-- The sign in front of a number, and whether the number is negative. -/
inductive SignText : Bool → List UInt8 → Prop where
  | absent : SignText false []
  | minus : SignText true [Ascii.minus]

/-- The fraction of a number, and its digits. -/
inductive FractionText : List UInt8 → List UInt8 → Prop where
  | absent : FractionText [] []
  | present {digits : List UInt8} (h : Digits digits) : FractionText digits (Ascii.point :: digits)

/-- The exponent of a number, and its value. -/
inductive ExponentText : Int → List UInt8 → Prop where
  | absent : ExponentText 0 []
  | unsigned {mark : UInt8} {digits : List UInt8} (letter : Ascii.isExponentMark mark = true)
    (h : Digits digits) : ExponentText (Numeral.ofDigits digits) (mark :: digits)
  | plus {mark : UInt8} {digits : List UInt8} (letter : Ascii.isExponentMark mark = true)
    (h : Digits digits) : ExponentText (Numeral.ofDigits digits) (mark :: Ascii.plus :: digits)
  | minus {mark : UInt8} {digits : List UInt8} (letter : Ascii.isExponentMark mark = true)
    (h : Digits digits) :
    ExponentText (-(Numeral.ofDigits digits : Int)) (mark :: Ascii.minus :: digits)

/-- The number literals: the parts, whether there is neither fraction nor exponent, and the text. -/
inductive NumberText : Numeral → Bool → List UInt8 → Prop where
  | mk {negative : Bool} {sign whole digits fraction tail : List UInt8} {exponent : Int}
    (hsign : SignText negative sign) (hwhole : Whole whole)
    (hfraction : FractionText digits fraction) (hexponent : ExponentText exponent tail) :
    NumberText
      { negative, digits := Numeral.ofDigits (whole ++ digits),
        exponent := exponent - (digits.length : Int) }
      (fraction ++ tail).isEmpty (sign ++ whole ++ fraction ++ tail)

/-! ## Strings -/

/-- The letters that may follow a backslash, and the characters they stand for. -/
inductive EscapeLetter : UInt8 → Char → Prop where
  | quote : EscapeLetter 0x22 '"'
  | backslash : EscapeLetter 0x5C '\\'
  | slash : EscapeLetter 0x2F '/'
  | backspace : EscapeLetter 0x62 '\x08'
  | formFeed : EscapeLetter 0x66 '\x0C'
  | lineFeed : EscapeLetter 0x6E '\n'
  | carriageReturn : EscapeLetter 0x72 '\r'
  | tab : EscapeLetter 0x74 '\t'

/-- The four hexadecimal digits of a code unit. -/
def UnitDigits (unit : Nat) (bytes : List UInt8) : Prop :=
  ∃ a b c d u v w x, bytes = [a, b, c, d] ∧
    Ascii.hexValue? a = some u ∧ Ascii.hexValue? b = some v ∧
    Ascii.hexValue? c = some w ∧ Ascii.hexValue? d = some x ∧
    unit = 16 * (16 * (16 * u + v) + w) + x

/-- What may stand between two quotes, and the characters it denotes. -/
inductive StringText : List Char → List UInt8 → Prop where
  | nil : StringText [] []
  /-- Any other character stands for itself, in its UTF-8 form. -/
  | plain {c : Char} {chars : List Char} {body : List UInt8} (notQuote : c ≠ '"')
    (notBackslash : c ≠ '\\') (notControl : 0x20 ≤ c.toNat) (rest : StringText chars body) :
    StringText (c :: chars) (String.utf8EncodeChar c ++ body)
  | letter {c : Char} {e : UInt8} {chars : List Char} {body : List UInt8} (h : EscapeLetter e c)
    (rest : StringText chars body) : StringText (c :: chars) (Ascii.backslash :: e :: body)
  /-- A code unit that is no surrogate. -/
  | unit {unit : Nat} {digits : List UInt8} {chars : List Char} {body : List UInt8}
    (h : UnitDigits unit digits) (notHigh : CodeUnit.isHigh unit = false)
    (notLow : CodeUnit.isLow unit = false) (rest : StringText chars body) :
    StringText (Char.ofNat unit :: chars) (Ascii.backslash :: 0x75 :: (digits ++ body))
  /-- A high surrogate followed by a low one. -/
  | pair {high low : Nat} {digits digits' : List UInt8} {chars : List Char} {body : List UInt8}
    (h : UnitDigits high digits) (isHigh : CodeUnit.isHigh high = true)
    (h' : UnitDigits low digits') (isLow : CodeUnit.isLow low = true)
    (rest : StringText chars body) :
    StringText (Char.ofNat (CodeUnit.pair high low) :: chars)
      (Ascii.backslash :: 0x75 :: (digits ++ Ascii.backslash :: 0x75 :: (digits' ++ body)))

/-! ## Values -/

mutual

/-- The texts of a value. -/
inductive ValueText : Value → List UInt8 → Prop where
  | null : ValueText .null [0x6E, 0x75, 0x6C, 0x6C]
  | true : ValueText (.bool Bool.true) [0x74, 0x72, 0x75, 0x65]
  | false : ValueText (.bool Bool.false) [0x66, 0x61, 0x6C, 0x73, 0x65]
  | int {n : Numeral} {text : List UInt8} (h : NumberText n Bool.true text)
    (range : Numeral.inRange n.toInt = Bool.true) :
    ValueText (.int (Int64.ofInt n.toInt)) text
  | float {n : Numeral} {text : List UInt8} (h : NumberText n Bool.false text) :
    ValueText (.float n.toBinary64) text
  | string {chars : List Char} {body : List UInt8} (h : StringText chars body) :
    ValueText (.string (String.ofList chars)) (Ascii.quote :: (body ++ [Ascii.quote]))
  | emptyArray {blank : List UInt8} (h : Blank blank) :
    ValueText (.array []) (Ascii.openBracket :: (blank ++ [Ascii.closeBracket]))
  | array {items : List Value} {body : List UInt8} (h : ItemsText items body) :
    ValueText (.array items) (Ascii.openBracket :: (body ++ [Ascii.closeBracket]))
  | emptyObject {blank : List UInt8} (h : Blank blank) :
    ValueText (.object []) (Ascii.openBrace :: (blank ++ [Ascii.closeBrace]))
  | object {members : List (String × Value)} {body : List UInt8} (h : MembersText members body) :
    ValueText (.object members) (Ascii.openBrace :: (body ++ [Ascii.closeBrace]))

/-- The texts of one or more items of an array. -/
inductive ItemsText : List Value → List UInt8 → Prop where
  | last {v : Value} {before text after : List UInt8} (hbefore : Blank before)
    (h : ValueText v text) (hafter : Blank after) : ItemsText [v] (before ++ text ++ after)
  | more {v : Value} {items : List Value} {before text after body : List UInt8}
    (hbefore : Blank before) (h : ValueText v text) (hafter : Blank after)
    (rest : ItemsText items body) :
    ItemsText (v :: items) (before ++ text ++ after ++ Ascii.comma :: body)

/-- The texts of one or more members of an object. -/
inductive MembersText : List (String × Value) → List UInt8 → Prop where
  | last {name : String} {v : Value} {before text after : List UInt8} (hbefore : Blank before)
    (h : MemberText name v text) (hafter : Blank after) :
    MembersText [(name, v)] (before ++ text ++ after)
  | more {name : String} {v : Value} {members : List (String × Value)}
    {before text after body : List UInt8} (hbefore : Blank before) (h : MemberText name v text)
    (hafter : Blank after) (rest : MembersText members body) :
    MembersText ((name, v) :: members) (before ++ text ++ after ++ Ascii.comma :: body)

/-- The texts of a member of an object, from its name to its value. -/
inductive MemberText : String → Value → List UInt8 → Prop where
  | mk {chars : List Char} {v : Value} {name before after text : List UInt8}
    (hname : StringText chars name) (hbefore : Blank before) (hafter : Blank after)
    (h : ValueText v text) :
    MemberText (String.ofList chars) v
      (Ascii.quote :: (name ++ Ascii.quote :: (before ++ Ascii.colon :: (after ++ text))))

end

/-- A row of containers with blanks around them. -/
inductive Documents : List Value → List UInt8 → Prop where
  | done {blank : List UInt8} (h : Blank blank) : Documents [] blank
  | more {v : Value} {documents : List Value} {before text rest : List UInt8}
    (hbefore : Blank before) (container : v.shape.isContainer = true) (h : ValueText v text)
    (hrest : Documents documents rest) : Documents (v :: documents) (before ++ text ++ rest)

theorem Documents.containers {documents : List Value} {text : List UInt8}
    (h : Documents documents text) : ∀ v ∈ documents, v.shape.isContainer = true := by
  induction h with
  | done => exact List.forall_mem_nil _
  | more _ container _ _ ih => exact List.forall_mem_cons.mpr ⟨container, ih⟩

/-! ## What a text stands for and what the settings restrict -/

namespace Value

mutual

/-- The value in which every object has each member name once, in the place where it first occurred
and with the value that it had last. -/
def merged : Value → Value
  | .array items => .array (mergedItems items)
  | .object members => ofMembers (mergedMembers members)
  | v => v
termination_by structural v => v

/-- The items of an array, each merged. -/
def mergedItems : List Value → List Value
  | [] => []
  | v :: rest => merged v :: mergedItems rest
termination_by structural vs => vs

/-- The members of an object, the value of each merged. -/
def mergedMembers : List (String × Value) → List (String × Value)
  | [] => []
  | (name, v) :: rest => (name, merged v) :: mergedMembers rest
termination_by structural ms => ms

end

mutual

/-- How many containers of a value lie inside each other. -/
def nesting : Value → Nat
  | .array items => nestingOfItems items + 1
  | .object members => nestingOfMembers members + 1
  | _ => 0
termination_by structural v => v

/-- How many containers lie inside each other in the items of an array. -/
def nestingOfItems : List Value → Nat
  | [] => 0
  | v :: rest => max (nesting v) (nestingOfItems rest)
termination_by structural vs => vs

/-- How many containers lie inside each other in the members of an object. -/
def nestingOfMembers : List (String × Value) → Nat
  | [] => 0
  | (_, v) :: rest => max (nesting v) (nestingOfMembers rest)
termination_by structural ms => ms

end

mutual

/-- Whether no object of a value has a member name twice. -/
def NamesDistinct : Value → Prop
  | .array items => ItemNamesDistinct items
  | .object members => (members.map Prod.fst).Nodup ∧ MemberNamesDistinct members
  | _ => True
termination_by structural v => v

/-- Whether no object in the items of an array has a member name twice. -/
def ItemNamesDistinct : List Value → Prop
  | [] => True
  | v :: rest => NamesDistinct v ∧ ItemNamesDistinct rest
termination_by structural vs => vs

/-- Whether no object in the values of an object's members has a member name twice. -/
def MemberNamesDistinct : List (String × Value) → Prop
  | [] => True
  | (_, v) :: rest => NamesDistinct v ∧ MemberNamesDistinct rest
termination_by structural ms => ms

end

end Value

end StreamingJson
