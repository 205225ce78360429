import StreamingJson.Lexer.Basic

/-!
# Bytes quoted in errors

Two errors quote the character that stands at the offending place. How much of that character is at
hand depends on where the chunk ends, and on nothing else does an error depend on the bytes to come.

## Main definitions

- `LexicalError.quoting` — the error with other bytes quoted
- `LexicalError.Abridges` — the same error with perhaps less of the character quoted

## Main statements

- `Utf8.leading_prefix` — a longer text shows at least as much of its first character
- `Scanner.step_quoting` — a step depends on the bytes to be shown in its quotations only
- `Scanner.step_abridges` — with more bytes to show, a fault shows at least as much
-/

namespace StreamingJson

namespace Utf8

theorem continuations_le {n : Nat} {p q : List UInt8} (h : p <+: q) :
    continuations n p ≤ continuations n q := by
  obtain ⟨rest, rfl⟩ := h
  unfold continuations
  rw [List.take_append, List.takeWhile_append]
  split
  next hall => simp [hall]
  next => exact Nat.le_refl _

/-- The first character of a text is shown in full only where it is all there. -/
theorem leadLength_le {b : UInt8} {p q : List UInt8} (h : b :: p <+: q) :
    leadLength (b :: p) ≤ leadLength q := by
  obtain ⟨rest, rfl⟩ := h
  cases p with
  | nil =>
    cases rest with
    | nil => exact Nat.le_refl _
    | cons c rest =>
      simp only [List.cons_append, List.nil_append, leadLength]
      split <;> omega
  | cons c p =>
    simp only [List.cons_append, leadLength]
    split
    · exact Nat.le_refl _
    · have := continuations_le (n := (announced b).1 - 1) (List.prefix_append p rest)
      omega

/-- A longer text shows at least as much of its first character. -/
theorem leading_prefix {b : UInt8} {p q : List UInt8} (h : b :: p <+: q) :
    leading (b :: p) <+: leading q := by
  -- both are beginnings of the longer text, so that only their lengths matter
  refine List.prefix_of_prefix_length_le ((List.take_prefix _ _).trans h) (List.take_prefix _ _) ?_
  rw [leading, leading, List.length_take, List.length_take]
  have hlead := leadLength_le h
  have hlength := h.length_le
  omega

theorem leading_ne_nil (b : UInt8) (rest : List UInt8) : leading (b :: rest) ≠ [] := by
  have hlead : leadLength [b] ≤ leadLength (b :: rest) := leadLength_le ⟨rest, rfl⟩
  intro hnil
  simp only [leading, List.take_eq_nil_iff, reduceCtorEq, or_false] at hnil
  rw [hnil] at hlead
  exact Nat.not_succ_le_zero 0 hlead

end Utf8

namespace LexicalError

/-- The error with other bytes quoted, where it quotes any. -/
def quoting (shown : List UInt8) : LexicalError → LexicalError
  | .invalidCharacter _ => .invalidCharacter shown
  | .invalidUnicodeEscape _ => .invalidUnicodeEscape shown
  | cause => cause

/-- The same error, quoting a non-empty beginning of what the second one quotes. -/
inductive Abridges : LexicalError → LexicalError → Prop where
  | same (cause : LexicalError) : Abridges cause cause
  | character {shown whole : List UInt8} (some : shown ≠ []) (part : shown <+: whole) :
    Abridges (.invalidCharacter shown) (.invalidCharacter whole)
  | unicodeEscape {shown whole : List UInt8} (some : shown ≠ []) (part : shown <+: whole) :
    Abridges (.invalidUnicodeEscape shown) (.invalidUnicodeEscape whole)

theorem abridges_quoting {shown whole : List UInt8} (some : shown ≠ []) (part : shown <+: whole)
    (cause : LexicalError) : (cause.quoting shown).Abridges (cause.quoting whole) := by
  cases cause with
  | invalidCharacter sequence => exact .character some part
  | invalidUnicodeEscape sequence => exact .unicodeEscape some part
  | invalidEscape letter => exact .same _
  | unpairedSurrogate unit => exact .same _
  | controlCharacter byte => exact .same _
  | invalidUtf8 => exact .same _
  | integerOutOfRange literal => exact .same _
  | depthLimitExceeded limit => exact .same _

/-- Of two abridgements of one error, one abridges the other. -/
theorem Abridges.total {c d e : LexicalError} (hc : c.Abridges e) (hd : d.Abridges e) :
    c.Abridges d ∨ d.Abridges c := by
  cases hc with
  | same => exact .inr hd
  | character hsome hpart =>
    cases hd with
    | same => exact .inl (.character hsome hpart)
    | character hsome' hpart' =>
      exact (List.prefix_or_prefix_of_prefix hpart hpart').imp (.character hsome)
        (.character hsome')
  | unicodeEscape hsome hpart =>
    cases hd with
    | same => exact .inl (.unicodeEscape hsome hpart)
    | unicodeEscape hsome' hpart' =>
      exact (List.prefix_or_prefix_of_prefix hpart hpart').imp (.unicodeEscape hsome)
        (.unicodeEscape hsome')

end LexicalError

namespace Step

/-- The step with other bytes quoted in the fault it completes. -/
def quoting (shown : List UInt8) : Step → Step
  | .shift next => .shift next
  | .consume result next => .consume (result.mapError (·.quoting shown)) next
  | .leave result next => .leave (result.mapError (·.quoting shown)) next

section

variable {shown : List UInt8} {step : Step} {next : Scanner} {token : Token}

theorem quoting_eq_shift : step.quoting shown = .shift next ↔ step = .shift next := by
  cases step <;> simp only [quoting, reduceCtorEq]

theorem quoting_eq_consume :
    step.quoting shown = .consume (.ok token) next ↔ step = .consume (.ok token) next := by
  rcases step with _ | ⟨_ | _, _⟩ | ⟨_ | _, _⟩
  · exact Iff.rfl
  · exact ⟨nofun, nofun⟩
  · exact Iff.rfl
  · exact ⟨nofun, nofun⟩
  · exact ⟨nofun, nofun⟩

theorem quoting_eq_leave :
    step.quoting shown = .leave (.ok token) next ↔ step = .leave (.ok token) next := by
  rcases step with _ | ⟨_ | _, _⟩ | ⟨_ | _, _⟩
  · exact Iff.rfl
  · exact ⟨nofun, nofun⟩
  · exact ⟨nofun, nofun⟩
  · exact ⟨nofun, nofun⟩
  · exact Iff.rfl

end

/-- The same step, but for an abridged fault. -/
inductive Abridges : Step → Step → Prop where
  | shift (next : Scanner) : Abridges (.shift next) (.shift next)
  | consumeToken (token : Token) (next : Scanner) :
    Abridges (.consume (.ok token) next) (.consume (.ok token) next)
  | consumeFault {c d : LexicalError} (cause : c.Abridges d) (next : Scanner) :
    Abridges (.consume (.error c) next) (.consume (.error d) next)
  | leaveToken (token : Token) (next : Scanner) :
    Abridges (.leave (.ok token) next) (.leave (.ok token) next)
  | leaveFault {c d : LexicalError} (cause : c.Abridges d) (next : Scanner) :
    Abridges (.leave (.error c) next) (.leave (.error d) next)

section

variable {next : Scanner} {token : Token} {cause : LexicalError} {whole : Step}

theorem shift_abridges : (shift next).Abridges whole ↔ whole = shift next :=
  ⟨fun h => by cases h; rfl, fun h => h ▸ .shift next⟩

theorem consume_ok_abridges :
    (consume (.ok token) next).Abridges whole ↔ whole = consume (.ok token) next :=
  ⟨fun h => by cases h; rfl, fun h => h ▸ .consumeToken token next⟩

theorem leave_ok_abridges :
    (leave (.ok token) next).Abridges whole ↔ whole = leave (.ok token) next :=
  ⟨fun h => by cases h; rfl, fun h => h ▸ .leaveToken token next⟩

theorem consume_error_abridges :
    (consume (.error cause) next).Abridges whole ↔
      ∃ d, whole = consume (.error d) next ∧ cause.Abridges d := by
  constructor
  · rintro ⟨⟩
    exact ⟨_, rfl, ‹_›⟩
  · rintro ⟨d, rfl, hd⟩
    exact .consumeFault hd next

theorem leave_error_abridges :
    (leave (.error cause) next).Abridges whole ↔
      ∃ d, whole = leave (.error d) next ∧ cause.Abridges d := by
  constructor
  · rintro ⟨⟩
    exact ⟨_, rfl, ‹_›⟩
  · rintro ⟨d, rfl, hd⟩
    exact .leaveFault hd next

end

end Step

theorem Numeral.token_quoting (shown : List UInt8) (isInteger : Bool) (text : List UInt8) :
    (Numeral.token isInteger text).mapError (·.quoting shown) = Numeral.token isInteger text := by
  unfold Numeral.token
  dsimp only
  split
  · split <;> rfl
  · rfl

namespace Scanner

variable (limit : Nat) (shown : List UInt8) (s : Scanner) (b : UInt8)

theorem openContainer_quoting (token : Token) (frame : Frame) :
    s.openContainer limit token frame = (s.openContainer limit token frame).quoting shown := by
  unfold openContainer
  split <;> rfl

theorem beginValue_quoting (lead : Lead) :
    s.beginValue limit shown b lead = (s.beginValue limit [] b lead).quoting shown := by
  cases lead with
  | openObject => exact openContainer_quoting ..
  | openArray => exact openContainer_quoting ..
  | _ => rfl

theorem between_quoting :
    s.between limit shown b = (s.between limit [] b).quoting shown := by
  have begins := beginValue_quoting limit shown s b
  unfold between
  split
  · rfl
  · split
    · unfold atRoot
      split <;> first | rfl | exact begins _
    · unfold inArray
      split <;> first | rfl | exact begins _
    · unfold inObject
      split <;> first | rfl | exact begins _

theorem inWord_quoting (w : Word) (missing : List UInt8) :
    s.inWord shown b w missing = (s.inWord [] b w missing).quoting shown := by
  unfold inWord
  split
  · rfl
  · split
    · rfl
    · split <;> rfl

theorem inNumber_quoting (phase : NumberPhase) (text : Array UInt8) :
    s.inNumber shown b phase text = (s.inNumber [] b phase text).quoting shown := by
  unfold inNumber
  split
  · rfl
  · split
    · have hquoting := Numeral.token_quoting shown phase.isInteger text.toList
      split
      · rfl
      next cause htoken =>
        rw [htoken] at hquoting
        simp only [Step.quoting, hquoting]
    · rfl

theorem inText_quoting (bytes : Array UInt8) (high : Option Nat) :
    s.inText b bytes high = (s.inText b bytes high).quoting shown := by
  unfold inText closeText
  split
  · rfl
  · split
    · rfl
    · split
      · split <;> rfl
      · split <;> rfl

theorem inEscape_quoting (bytes : Array UInt8) (high : Option Nat) :
    s.inEscape b bytes high = (s.inEscape b bytes high).quoting shown := by
  unfold inEscape
  split
  · rfl
  · split
    · rfl
    · split <;> rfl

theorem inCodeUnit_quoting (bytes : Array UInt8) (high : Option Nat) (value count : Nat) :
    s.inCodeUnit shown b bytes high value count =
      (s.inCodeUnit [] b bytes high value count).quoting shown := by
  unfold inCodeUnit
  split
  · rfl
  · split
    · rfl
    · unfold closeCodeUnit
      split
      · split <;> rfl
      · split
        · rfl
        · split <;> rfl

/-- A step depends on the bytes to be shown in its quotations only. -/
theorem step_quoting : s.step limit shown b = (s.step limit [] b).quoting shown := by
  unfold step
  split
  · exact between_quoting limit shown s b
  · exact inWord_quoting shown s b _ _
  · exact inNumber_quoting shown s b _ _
  · exact inText_quoting shown s b _ _
  · exact inEscape_quoting shown s b _ _
  · exact inCodeUnit_quoting shown s b _ _ _ _

/-- With more bytes to show, a step does the same and its fault shows at least as much. -/
theorem step_abridges {shown whole : List UInt8} (some : shown ≠ []) (part : shown <+: whole) :
    (s.step limit shown b).Abridges (s.step limit whole b) := by
  -- both are the step that shows nothing, each with its own bytes quoted
  rw [step_quoting limit shown, step_quoting limit whole]
  have quoting := LexicalError.abridges_quoting some part
  rcases s.step limit [] b with next | ⟨cause | token, next⟩ | ⟨cause | token, next⟩
  · exact .shift next
  · exact .consumeFault (quoting cause) next
  · exact .consumeToken token next
  · exact .leaveFault (quoting cause) next
  · exact .leaveToken token next

end Scanner

end StreamingJson
