import StreamingJson.Proofs.Grammar.Strings

/-!
# Spellings of strings

What may stand between two quotes, seen as runs of bytes that stand for themselves with escapes
between them, and what is the first thing wrong where it is something else. Every run has to be
UTF-8 by itself. Since an escape stands for a whole character and UTF-8 is self-synchronizing, this
is the same as to ask it of all bytes that are spelled.

## Main definitions

- `EscapeText` — the escapes
- `Spelling`, `Spells` — runs and escapes in turn, and their text
- `Violation` — what no string goes on with

## Main statements

- `IsUtf8.around` — what stands around a character in UTF-8 is UTF-8
- `Spelling.isUtf8_bytes_iff` — the bytes of a spelling are UTF-8 if its runs are
- `pieces_of_spells` — spellings are pieces
-/

namespace StreamingJson

/-! ## UTF-8 -/

/-- Bytes that are characters in a row. -/
def IsUtf8 (bytes : List UInt8) : Prop :=
  ∃ chars : List Char, bytes = chars.flatMap String.utf8EncodeChar

namespace IsUtf8

variable {xs ys : List UInt8}

theorem nil : IsUtf8 [] :=
  ⟨[], rfl⟩

theorem encode (c : Char) : IsUtf8 (String.utf8EncodeChar c) :=
  ⟨[c], by simp⟩

theorem append (hxs : IsUtf8 xs) (hys : IsUtf8 ys) : IsUtf8 (xs ++ ys) := by
  obtain ⟨chars, rfl⟩ := hxs
  obtain ⟨more, rfl⟩ := hys
  exact ⟨chars ++ more, List.flatMap_append.symm⟩

/-- What stands around a character in UTF-8 is UTF-8. -/
theorem around {c : Char} (h : IsUtf8 (xs ++ (String.utf8EncodeChar c ++ ys))) :
    IsUtf8 xs ∧ IsUtf8 ys := by
  obtain ⟨chars, hchars⟩ := h
  induction chars generalizing xs with
  | nil =>
    obtain ⟨-, hrest⟩ := List.append_eq_nil_iff.mp hchars
    exact absurd (List.append_eq_nil_iff.mp hrest).1 String.utf8EncodeChar_ne_nil
  | cons d chars ih =>
    rw [List.flatMap_cons] at hchars
    rcases List.append_eq_append_iff.mp hchars with ⟨more, hd, hrest⟩ | ⟨more, rfl, hrest⟩
    · cases xs with
      | nil =>
        rw [List.nil_append] at hd
        obtain ⟨rfl, rfl⟩ := Utf8.encode_append_inj (hd ▸ hrest)
        exact ⟨nil, chars, rfl⟩
      | cons x xs =>
        cases more with
        | nil =>
          rw [List.append_nil] at hd
          exact ⟨hd ▸ encode d, (@ih [] hrest).2⟩
        | cons m more =>
          -- the character would begin within another one
          obtain ⟨first, tail, hfirst, -, hlater⟩ := Utf8.exists_encode_eq_cons d
          obtain ⟨first', tail', hfirst', hbegins, -⟩ := Utf8.exists_encode_eq_cons c
          rw [hfirst'] at hrest
          obtain rfl := (List.cons.inj hrest).1
          rw [hfirst] at hd
          obtain ⟨-, htail⟩ := List.cons.inj hd
          have hmem : first' ∈ tail := by
            rw [htail]
            simp
          exact absurd hbegins (hlater first' hmem)
    · obtain ⟨hmore, hys⟩ := ih hrest.symm
      exact ⟨(encode d).append hmore, hys⟩

end IsUtf8

/-! ## Spellings -/

/-- A backslash, the letter of code units and the digits of one. -/
def UnitText (unit : Nat) (text : List UInt8) : Prop :=
  ∃ digits, UnitDigits unit digits ∧ text = Ascii.backslash :: 0x75 :: digits

/-- The escapes, and the characters they stand for. -/
inductive EscapeText : Char → List UInt8 → Prop where
  | letter {c : Char} {e : UInt8} (h : EscapeLetter e c) : EscapeText c [Ascii.backslash, e]
  /-- A code unit that is no surrogate. -/
  | unit {unit : Nat} {text : List UInt8} (h : UnitText unit text)
    (notHigh : CodeUnit.isHigh unit = false) (notLow : CodeUnit.isLow unit = false) :
    EscapeText (Char.ofNat unit) text
  /-- A high surrogate and a low one right behind it. -/
  | pair {high low : Nat} {text text' : List UInt8} (h : UnitText high text)
    (isHigh : CodeUnit.isHigh high = true) (h' : UnitText low text')
    (isLow : CodeUnit.isLow low = true) :
    EscapeText (Char.ofNat (CodeUnit.pair high low)) (text ++ text')

theorem EscapeText.length_pos {c : Char} {text : List UInt8} (h : EscapeText c text) :
    0 < text.length := by
  cases h with
  | letter h => exact Nat.zero_lt_succ _
  | unit h =>
    obtain ⟨digits, -, rfl⟩ := h
    exact Nat.zero_lt_succ _
  | pair h =>
    obtain ⟨digits, -, rfl⟩ := h
    exact Nat.zero_lt_succ _

/-- Runs of bytes, with a character between each two that is spelled by an escape. -/
structure Spelling where
  first : List UInt8
  later : List (Char × List UInt8)

namespace Spelling

/-- The runs of bytes between escapes. -/
def runs (s : Spelling) : List (List UInt8) :=
  s.first :: s.later.map Prod.snd

/-- The bytes that are spelled: those of the runs as they are, and the UTF-8 forms of the characters
between them. -/
def bytes (s : Spelling) : List UInt8 :=
  s.first ++ s.later.flatMap fun part => String.utf8EncodeChar part.1 ++ part.2

theorem bytes_cons (run next : List UInt8) (c : Char) (later : List (Char × List UInt8)) :
    bytes ⟨run, (c, next) :: later⟩ = run ++ (String.utf8EncodeChar c ++ bytes ⟨next, later⟩) := by
  simp [bytes]

/-- The bytes of a spelling are UTF-8 if its runs are: no escape completes a character that a run
has begun. -/
theorem isUtf8_bytes_iff (s : Spelling) : IsUtf8 s.bytes ↔ ∀ run ∈ s.runs, IsUtf8 run := by
  obtain ⟨run, later⟩ := s
  induction later generalizing run with
  | nil => simp [bytes, runs]
  | cons part later ih =>
    obtain ⟨c, next⟩ := part
    have hruns : runs ⟨run, (c, next) :: later⟩ = run :: runs ⟨next, later⟩ := rfl
    rw [bytes_cons, hruns, List.forall_mem_cons, ← ih next]
    constructor
    · exact IsUtf8.around
    · rintro ⟨hrun, hrest⟩
      exact hrun.append ((IsUtf8.encode c).append hrest)

end Spelling

/-- The texts of a spelling. -/
inductive Spells : Spelling → List UInt8 → Prop where
  | run {run : List UInt8} (plain : ∀ b ∈ run, PlainByte b) : Spells ⟨run, []⟩ run
  | escape {run text next body : List UInt8} {c : Char} {later : List (Char × List UInt8)}
    (plain : ∀ b ∈ run, PlainByte b) (h : EscapeText c text) (rest : Spells ⟨next, later⟩ body) :
    Spells ⟨run, (c, next) :: later⟩ (run ++ (text ++ body))

namespace Spells

variable {s : Spelling} {body : List UInt8}

theorem nil : Spells ⟨[], []⟩ [] :=
  .run (List.forall_mem_nil _)

theorem cons {b : UInt8} (hb : PlainByte b) (h : Spells s body) :
    Spells ⟨b :: s.first, s.later⟩ (b :: body) := by
  cases h with
  | run plain => exact .run (List.forall_mem_cons.mpr ⟨hb, plain⟩)
  | escape plain h rest => exact .escape (List.forall_mem_cons.mpr ⟨hb, plain⟩) h rest

theorem cons_escape {c : Char} {text : List UInt8} (hc : EscapeText c text) (h : Spells s body) :
    Spells ⟨[], (c, s.first) :: s.later⟩ (text ++ body) :=
  .escape (List.forall_mem_nil _) hc h

end Spells

theorem pieces_of_escapeText {c : Char} {text bytes body : List UInt8} (h : EscapeText c text)
    (rest : Pieces bytes body) : Pieces (String.utf8EncodeChar c ++ bytes) (text ++ body) := by
  cases h with
  | letter h => exact .letter h rest
  | unit h notHigh notLow =>
    obtain ⟨digits, hdigits, rfl⟩ := h
    exact .unit hdigits notHigh notLow rest
  | pair h isHigh h' isLow =>
    obtain ⟨digits, hdigits, rfl⟩ := h
    obtain ⟨digits', hdigits', rfl⟩ := h'
    have hpair := Pieces.pair hdigits isHigh hdigits' isLow rest
    simpa [CodeUnit.encode] using hpair

/-- Spellings are pieces, which stand for the bytes that are spelled. -/
theorem pieces_of_spells {s : Spelling} {body : List UInt8} (h : Spells s body) :
    Pieces s.bytes body := by
  induction h with
  | @run run plain =>
    have hrun := Pieces.plain_append plain .nil
    rw [List.append_nil] at hrun
    rwa [Spelling.bytes, List.flatMap_nil, List.append_nil]
  | escape plain h rest ih =>
    rw [Spelling.bytes_cons]
    exact .plain_append plain (pieces_of_escapeText h ih)

/-! ## Violations -/

/-- Fewer than four hexadecimal digits of a code unit. -/
def SomeDigits (digits : List UInt8) : Prop :=
  digits.length < 4 ∧ ∀ d ∈ digits, Ascii.hexValue? d ≠ none

/-- What no string goes on with: the bytes up to where that shows, the byte that shows it if it is
not one of these, and the cause. The sequence that some causes quote is left out. -/
inductive Violation : List UInt8 → List UInt8 → LexicalError → Prop where
  | control {b : UInt8} (h : Ascii.isControl b = true) : Violation [] [b] (.controlCharacter b)
  | letter {e : UInt8} (notUnit : e ≠ 0x75) (h : ∀ c, ¬EscapeLetter e c) :
    Violation [Ascii.backslash] [e] (.invalidEscape (Char.ofNat e.toNat))
  | digit {digits : List UInt8} {b : UInt8} (some : SomeDigits digits)
    (h : Ascii.hexValue? b = none) :
    Violation (Ascii.backslash :: 0x75 :: digits) [b] (.invalidUnicodeEscape [])
  /-- A low surrogate without a high one before it. -/
  | low {unit : Nat} {text : List UInt8} (h : UnitText unit text)
    (isLow : CodeUnit.isLow unit = true) : Violation text [] (.unpairedSurrogate unit)
  /-- A high surrogate and then no backslash, whatever else may be wrong with that byte. -/
  | highByte {high : Nat} {text : List UInt8} {b : UInt8} (h : UnitText high text)
    (isHigh : CodeUnit.isHigh high = true) (hb : b ≠ Ascii.backslash) :
    Violation text [b] (.unpairedSurrogate high)
  /-- A high surrogate and then an escape that is no code unit, whatever its letter. -/
  | highLetter {high : Nat} {text : List UInt8} {e : UInt8} (h : UnitText high text)
    (isHigh : CodeUnit.isHigh high = true) (he : e ≠ 0x75) :
    Violation (text ++ [Ascii.backslash]) [e] (.unpairedSurrogate high)
  | highDigit {high : Nat} {text digits : List UInt8} {b : UInt8} (h : UnitText high text)
    (isHigh : CodeUnit.isHigh high = true) (some : SomeDigits digits)
    (hb : Ascii.hexValue? b = none) :
    Violation (text ++ Ascii.backslash :: 0x75 :: digits) [b] (.invalidUnicodeEscape [])
  /-- A high surrogate and then a code unit that is no low one. -/
  | highUnit {high unit : Nat} {text text' : List UInt8} (h : UnitText high text)
    (isHigh : CodeUnit.isHigh high = true) (h' : UnitText unit text')
    (notLow : CodeUnit.isLow unit = false) : Violation (text ++ text') [] (.unpairedSurrogate high)

/-- A text that begins with a violation. -/
def Violated (text : List UInt8) : Prop :=
  ∃ taken refused cause left, text = taken ++ (refused ++ left) ∧ Violation taken refused cause

end StreamingJson
