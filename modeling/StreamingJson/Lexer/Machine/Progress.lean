import StreamingJson.Lexer.Machine.Basic
import StreamingJson.TokenSource

/-!
# Progress of the machine

A step that hands nothing back goes on to a later position of the same chunk, so the machine can
step until something is handed back or the chunk is read. A token is followed by no token begun, and
it uses up a byte or the number read before that byte. So the machine is a token source.

## Main definitions

- `Machine.next` — steps up to the next token or fault, or to the end of the chunk

## Main statements

- `Machine.settles_step` — how a step leaves the chunk, the position and the mode
- `Machine.supply_next_lt` — every token uses up some of the supply
-/

namespace StreamingJson

namespace Machine

/-- What an outcome owes to the machine before it: the chunk is the same, and without a token or a
fault some of it is read. After a token no token is begun, and if nothing is read then one was begun
before. -/
def Settles (m : Machine) : Outcome → Prop
  | (.ok none, m') => m'.input = m.input ∧ m.pos < m'.pos
  | (.ok (some _), m') =>
    m'.input = m.input ∧ m'.mode = .between ∧
      (m.pos < m'.pos ∨ m'.pos = m.pos ∧ m.mode ≠ .between)
  | (.error _, m') => m'.input = m.input ∧ m.pos ≤ m'.pos

theorem settles_stuck (m : Machine) (cause : LexicalError) : m.Settles (m.fail cause) :=
  ⟨rfl, Nat.le_refl _⟩

section

variable {m : Machine} {b : UInt8}

theorem lt_advance (m : Machine) (b : UInt8) : m.pos < (m.advance b).pos :=
  Nat.lt_succ_self _

theorem settles_openContainer (h : m.mode = .between) (kind : Container) (expect : Expect)
    (token : Token) : m.Settles (m.openContainer b kind expect token) := by
  unfold openContainer
  split
  · exact settles_stuck m _
  · exact ⟨rfl, h, .inl (lt_advance m b)⟩

theorem settles_pushDigit (next : NumberPhase) : m.Settles (m.pushDigit b next) := by
  unfold pushDigit
  have hrun (count : Nat) : m.pos < m.pos + 1 + count := by omega
  cases next with
  | whole | fraction | exponent => exact ⟨rfl, hrun _⟩
  | sign | zero | point | exponentMark | exponentSign => exact ⟨rfl, lt_advance m b⟩

theorem settles_beginText : m.Settles (m.beginText b) :=
  ⟨rfl, lt_advance m b⟩

theorem settles_beginValue (h : m.mode = .between) (lead : Lead) :
    m.Settles (m.beginValue b lead) := by
  cases lead with
  | openObject | openArray => exact settles_openContainer h ..
  | quote => exact settles_beginText
  | word w => exact ⟨rfl, lt_advance m b⟩
  | number phase => exact settles_pushDigit (m := { m with scratch := #[], isFloat := false }) phase
  | blank | closeObject | closeArray | comma | colon | other => exact settles_stuck m _

theorem settles_leadByte (h : m.mode = .between) (expect : Expect) (lead : Lead) :
    m.Settles (m.leadByte b expect lead) := by
  have hbegin : m.Settles (m.beginValue b lead) := settles_beginValue h lead
  have hadvance := lt_advance m b
  unfold leadByte
  split <;>
    first
    | exact hbegin
    | exact ⟨rfl, h, .inl hadvance⟩
    | exact ⟨rfl, hadvance⟩
    | exact settles_stuck m _

theorem settles_wordByte : m.Settles (m.wordByte b) := by
  unfold wordByte
  split
  · exact ⟨rfl, lt_advance m b⟩
  · exact ⟨rfl, rfl, .inl (lt_advance m b)⟩
  · exact settles_stuck m _

theorem settles_numberByte {phase : NumberPhase} (h : m.mode = .number phase) :
    m.Settles (m.numberByte b phase) := by
  have hmode : m.mode ≠ .between := by simp [h]
  unfold numberByte finishNumber
  split
  · exact settles_pushDigit _
  · split
    · dsimp only
      split
      · exact ⟨rfl, rfl, .inr ⟨rfl, hmode⟩⟩
      · exact ⟨rfl, Nat.le_refl _⟩
    · exact settles_stuck m _

theorem settles_closeText : m.Settles (m.closeText b) := by
  have hadvance := lt_advance m b
  unfold closeText
  dsimp only
  split
  · exact ⟨rfl, Nat.le_of_lt hadvance⟩
  · split
    · exact ⟨rfl, rfl, .inl hadvance⟩
    · exact ⟨rfl, rfl, .inl hadvance⟩

/-- The unread bytes begin with the next one. -/
theorem rest_of_peek (h : m.peek = some b) : m.rest = b :: m.input.drop (m.pos + 1) := by
  obtain ⟨hlt, hget⟩ := List.getElem?_eq_some_iff.mp h
  rw [rest, List.drop_eq_getElem_cons hlt, hget]

theorem settles_takeRun {repeats : UInt8 → Bool} (h : m.peek = some b) (hb : repeats b = true) :
    m.Settles (m.takeRun repeats).silent := by
  refine ⟨rfl, ?_⟩
  rw [takeRun, rest_of_peek h, List.takeWhile_cons, if_pos hb]
  exact Nat.lt_add_of_pos_right (Nat.succ_pos _)

theorem settles_textByte (h : m.peek = some b) : m.Settles (m.textByte b) := by
  unfold textByte
  split
  · exact settles_stuck m _
  · split
    · exact settles_closeText
    next hquote =>
      split
      · exact ⟨rfl, lt_advance m b⟩
      next hbackslash =>
        split
        · exact settles_stuck m _
        next hcontrol => exact settles_takeRun h (by simp [isPlain, hquote, hbackslash, hcontrol])

theorem settles_escapeByte : m.Settles (m.escapeByte b) := by
  have hadvance := lt_advance m b
  unfold escapeByte
  split
  · exact settles_stuck m _
  · split
    · exact ⟨rfl, hadvance⟩
    · split
      · exact ⟨rfl, hadvance⟩
      · exact settles_stuck m _

theorem settles_codeUnitByte : m.Settles (m.codeUnitByte b) := by
  have hadvance := lt_advance m b
  unfold codeUnitByte pushCodeUnit
  split
  · exact settles_stuck m _
  · exact ⟨rfl, hadvance⟩
  · dsimp only
    split
    · split
      · exact ⟨rfl, hadvance⟩
      · split
        · exact ⟨rfl, Nat.le_of_lt hadvance⟩
        · exact ⟨rfl, hadvance⟩
    · split
      · exact ⟨rfl, hadvance⟩
      · exact ⟨rfl, Nat.le_of_lt hadvance⟩

/-- How a step leaves the chunk, the position and the mode. -/
theorem settles_step (h : m.peek = some b) : m.Settles (m.step b) := by
  unfold step
  split
  next hmode =>
    unfold betweenByte
    split
    · exact ⟨rfl, lt_advance m b⟩
    · exact settles_leadByte hmode _ _
  · exact settles_wordByte
  next phase hmode => exact settles_numberByte hmode
  · exact settles_textByte h
  · exact settles_escapeByte
  · exact settles_codeUnitByte

end

/-! ## Calls -/

/-- Steps up to the next token or fault, or to the end of the chunk. -/
def next (m : Machine) : Outcome :=
  match _hb : m.peek with
  | none => m.silent
  | some b =>
    match _hstep : m.step b with
    | (.ok none, m') => m'.next
    | outcome => outcome
termination_by m.input.length - m.pos
decreasing_by
  have hsettles := settles_step _hb
  rw [_hstep] at hsettles
  obtain ⟨hinput, hpos⟩ := hsettles
  obtain ⟨hlt, -⟩ := List.getElem?_eq_some_iff.mp _hb
  rw [hinput]
  omega

/-- A bound on the tokens that the unread bytes complete: one for each, and one for a number that
ends before the first of them. -/
def supply (m : Machine) : Nat :=
  m.input.length - m.pos + if m.mode = .between then 0 else 1

theorem next_token {m m' : Machine} {token : Token} (h : m.next = (.ok (some token), m')) :
    m'.input = m.input ∧ m'.mode = .between ∧ m.pos < m.input.length ∧
      (m.pos < m'.pos ∨ m'.pos = m.pos ∧ m.mode ≠ .between) := by
  fun_induction next m with
  | case1 m hb => cases h
  | case2 m b hb next hstep ih =>
    obtain ⟨hlt, -⟩ := List.getElem?_eq_some_iff.mp hb
    have hsettles := settles_step hb
    rw [hstep] at hsettles
    obtain ⟨hinput, hpos⟩ := hsettles
    obtain ⟨hinput', hmode, -, hpos'⟩ := ih h
    refine ⟨hinput'.trans hinput, hmode, hlt, .inl ?_⟩
    omega
  | case3 m b hb hnone =>
    obtain ⟨hlt, -⟩ := List.getElem?_eq_some_iff.mp hb
    have hsettles := settles_step hb
    rw [h] at hsettles
    obtain ⟨hinput, hmode, hpos⟩ := hsettles
    exact ⟨hinput, hmode, hlt, hpos⟩

/-- Every token uses up some of the supply. -/
theorem supply_next_lt (m : Machine) (token : Token) (m' : Machine)
    (h : m.next = (.ok (some token), m')) : m'.supply < m.supply := by
  obtain ⟨hinput, hmode, hlt, hpos⟩ := next_token h
  simp only [supply, hinput, hmode, if_true]
  rcases hpos with hpos | ⟨hpos, hbegun⟩
  · omega
  · simp only [hpos, hbegun, if_false]
    omega

instance : TokenSource Machine where
  feed := feed
  next := next
  needsInput := needsInput
  isMidValue := isMidValue
  location := location
  fresh := fresh
  supply := supply
  supply_next_lt := supply_next_lt

end Machine

end StreamingJson
