import Mathlib.Algebra.Group.Nat.Defs
import StreamingJson.Lexer.Machine.Progress
import StreamingJson.Proofs.Lexer.Partial

/-!
# The steps of the machine

The scanner has only what counts: the open containers, each with what may come next in it, and the
token read in part with all that it needs. The machine has more room. Its field for what may come
next could contradict its containers, and its registers keep what former tokens left in them. Here a
machine is related to the scanner that it stands for. The fields that the scanner determines are
equal to what it determines, and nothing is said of a register that no token read in part needs.
Every step of the machine is then the step of that scanner.

## Main definitions

- `Machine.Expect.ofFrames`, `Machine.Mode.ofLexeme` — the fields that a scanner determines
- `Machine.Holds` — the registers hold what a token read in part needs
- `Machine.Mirrors` — a machine stands for a scanner
- `Machine.Renders` — an outcome of the machine is a step of the scanner

## Main statements

- `Machine.renders_step` — the machine takes the steps of the scanner
-/

namespace StreamingJson

theorem Ascii.hexValue?_lt {b : UInt8} {digit : Nat} (h : hexValue? b = some digit) :
    digit < 16 := by
  have hall : ∀ n : Fin 256, ∀ digit ∈ hexValue? (UInt8.ofNat n.val), digit < 16 := by
    decide +kernel
  have hb := hall ⟨b.toNat, b.toNat_lt⟩ digit
  rw [UInt8.ofNat_toNat] at hb
  exact hb h

/-- The kind of the container. -/
def Frame.container : Frame → Machine.Container
  | .array _ => .array
  | .object _ => .object

namespace Machine

/-! ## Fields and scanners -/

/-- What may come next in an array. -/
def Expect.inArray : ArrayPhase → Expect
  | .first => .arrayValueOrEnd
  | .item => .arrayValue
  | .separator => .afterArrayValue

/-- What may come next in an object. -/
def Expect.inObject : ObjectPhase → Expect
  | .first => .keyOrEnd
  | .name => .key
  | .colon => .colon
  | .value => .objectValue
  | .separator => .afterObjectValue

/-- What may come next, by the phase of the innermost container. -/
def Expect.ofFrames : List Frame → Expect
  | [] => .rootValue
  | .array phase :: _ => .inArray phase
  | .object phase :: _ => .inObject phase

theorem afterValue_map_container (frames : List Frame) :
    Expect.afterValue (frames.map Frame.container) = .ofFrames (Frame.fill frames) := by
  rcases frames with _ | ⟨phase | phase, outer⟩ <;> rfl

theorem map_container_fill (frames : List Frame) :
    (Frame.fill frames).map Frame.container = frames.map Frame.container := by
  rcases frames with _ | ⟨phase | phase, outer⟩ <;> rfl

/-- The mode in which a token is read in part. -/
def Mode.ofLexeme : Lexeme → Mode
  | .between => .between
  | .word _ _ => .word
  | .number phase _ => .number phase
  | .text _ _ => .text
  | .escape _ _ => .escape
  | .codeUnit _ _ _ _ => .codeUnit

/-- The registers of a string hold its bytes and the surrogate that is pending. -/
def HoldsText (m : Machine) (bytes : Array UInt8) (high : Option Nat) : Prop :=
  m.scratch = bytes ∧ m.high.map UInt16.toNat = high

/-- The registers hold what a token read in part needs. Nothing is said of the others, and between
tokens of none. -/
def Holds (m : Machine) : Lexeme → Prop
  | .between => True
  | .word w missing =>
    m.matcher.text = w.text ∧ 0 < m.matcher.matched ∧ w.text.drop m.matcher.matched = missing ∧
      missing ≠ []
  | .number phase digits => m.scratch = digits ∧ m.isFloat = !phase.isInteger
  | .text bytes high | .escape bytes high => m.HoldsText bytes high
  | .codeUnit bytes high value count =>
    m.HoldsText bytes high ∧ m.digits.value.toNat = value ∧ m.digits.count = count ∧ count < 4 ∧
      value < 16 ^ count

/-- The machine stands for the scanner. -/
structure Mirrors (m : Machine) (s : Scanner) : Prop where
  containers : m.containers = s.frames.map Frame.container
  expect : m.expect = .ofFrames s.frames
  mode : m.mode = .ofLexeme s.lexeme
  holds : m.Holds s.lexeme

/-- The fields that say where a machine is in its text. -/
def cursor (m : Machine) : Nat × List UInt8 × Nat × Location :=
  (m.depthLimit, m.input, m.pos, m.location)

/-- Hands back a completed token or a fault. -/
def handBack (m : Machine) : Except LexicalError Token → Outcome
  | .ok token => m.emit token
  | .error cause => m.fail cause

/-- The outcome of the next byte, which is `b`, is the step of the scanner. Behind a byte that
completes nothing a run may be taken at once. -/
def Renders (m : Machine) (b : UInt8) (outcome : Outcome) : Step → Prop
  | .shift next => ∃ m' : Machine,
      (outcome = m'.silent ∨ outcome = (m'.takeRun next.lexeme.repeats).silent) ∧
        m'.cursor = (m.advance b).cursor ∧ m'.Mirrors next
  | .consume result next => ∃ m' : Machine,
      outcome = m'.handBack result ∧ m'.cursor = (m.advance b).cursor ∧ m'.Mirrors next
  | .leave result next => ∃ m' : Machine,
      outcome = m'.handBack result ∧ m'.cursor = m.cursor ∧ m'.Mirrors next

section

variable {m : Machine} {s : Scanner} {b : UInt8} {frames : List Frame}

theorem renders_stuck (h : m.Mirrors s) (cause : LexicalError) :
    m.Renders b (m.fail cause) (s.stuck cause) :=
  ⟨m, rfl, rfl, h⟩

/-- A value that is complete fills its place. -/
theorem mirrors_valueDone {m' : Machine} (hcontainers : m'.containers = frames.map Frame.container)
    (hmode : m'.mode = .between) : m'.valueDone.Mirrors ⟨Frame.fill frames, .between⟩ where
  containers := hcontainers.trans (map_container_fill frames).symm
  expect := (congrArg Expect.afterValue hcontainers).trans (afterValue_map_container frames)
  mode := hmode
  holds := trivial

/-! ## Words -/

theorem matcher_opening {w : Word} (hb : Lead.ofByte b = .word w) :
    (Matcher.opening b).text = w.text ∧ w.text.drop (Matcher.opening b).matched = w.tail := by
  cases w with
  | true | false | null =>
    obtain rfl := Lead.eq_of_byte? hb rfl
    exact ⟨rfl, rfl⟩

theorem matcher_token {matcher : Matcher} {w : Word} (h : matcher.text = w.text) :
    matcher.token = w.token := by
  rw [Matcher.token, h]
  cases w <;> decide

/-- A matcher takes the byte that the word goes on with, and no other. -/
theorem matcher_step {matcher : Matcher} {w : Word} {expected : UInt8} {missing : List UInt8}
    (htext : matcher.text = w.text) (hdrop : w.text.drop matcher.matched = expected :: missing) :
    matcher.step b =
      if b ≠ expected then (.reject, matcher)
      else
        (if missing.isEmpty then .done w.token else .more,
          { matcher with matched := matcher.matched + 1 }) := by
  have hget : matcher.text[matcher.matched]? = some expected := by
    rw [htext, ← List.head?_drop, hdrop]
    rfl
  rw [Matcher.step, hget]
  by_cases hb : b = expected
  · -- the byte is the last one if nothing is missing behind it
    have hlast : matcher.matched + 1 < matcher.text.length ↔ ¬missing.isEmpty = true := by
      rw [htext, ← Nat.not_le, ← List.drop_eq_nil_iff, ← List.tail_drop, hdrop, List.tail_cons,
        List.isEmpty_iff]
    have htoken : Matcher.token ⟨matcher.text, matcher.matched + 1⟩ = w.token :=
      matcher_token htext
    subst hb
    rw [if_pos rfl, if_neg (not_not.mpr rfl)]
    simp only [hlast, ite_not]
    rw [htoken]
  · rw [if_neg fun heq => hb (Option.some.inj heq).symm, if_pos hb]

theorem renders_wordByte {w : Word} {missing : List UInt8}
    (h : m.Mirrors ⟨frames, .word w missing⟩) :
    m.Renders b (m.wordByte b)
      (Scanner.inWord (Utf8.leading m.rest) ⟨frames, .word w missing⟩ b w missing) := by
  obtain ⟨htext, hpos, hdrop, hne⟩ := h.holds
  cases missing with
  | nil => exact absurd rfl hne
  | cons expected missing =>
    have hrest : w.text.drop (m.matcher.matched + 1) = missing := by
      rw [← List.tail_drop, hdrop, List.tail_cons]
    rw [Scanner.inWord, wordByte, matcher_step htext hdrop]
    by_cases hb : b ≠ expected
    · rw [if_pos hb, if_pos hb]
      exact renders_stuck h _
    · rw [if_neg hb, if_neg hb]
      by_cases hmissing : missing.isEmpty = true
      · rw [if_pos hmissing, if_pos hmissing]
        exact ⟨_, rfl, rfl, mirrors_valueDone h.containers rfl⟩
      · rw [if_neg hmissing, if_neg hmissing]
        exact ⟨_, .inl rfl, rfl, h.containers, h.expect, h.mode, htext, Nat.succ_pos _, hrest,
          fun hnil => hmissing (List.isEmpty_iff.mpr hnil)⟩

/-! ## Numbers -/

theorem renders_pushDigit {digits : Array UInt8} {next : NumberPhase}
    (hcontainers : m.containers = frames.map Frame.container)
    (hexpect : m.expect = .ofFrames frames) (hscratch : m.scratch = digits)
    (hfloat : (m.isFloat || next == NumberPhase.point || next == NumberPhase.exponentMark) =
      !next.isInteger) :
    m.Renders b (m.pushDigit b next) (.shift ⟨frames, .number next (digits.push b)⟩) := by
  subst hscratch
  unfold pushDigit
  cases next with
  | whole | fraction | exponent => exact ⟨_, .inr rfl, rfl, hcontainers, hexpect, rfl, rfl, hfloat⟩
  | sign | zero | point | exponentMark | exponentSign =>
    exact ⟨_, .inl rfl, rfl, hcontainers, hexpect, rfl, rfl, hfloat⟩

/-- A number has a fraction or an exponent from its point or its letter on. -/
theorem isInteger_after {phase next : NumberPhase} (h : phase.after b = some next) :
    (!phase.isInteger || next == .point || next == .exponentMark) = !next.isInteger := by
  unfold NumberPhase.after at h
  split at h <;> (repeat' split at h) <;> cases h <;> rfl

theorem isInteger_opening {phase : NumberPhase} (h : NumberPhase.opening b = some phase) :
    (false || phase == .point || phase == .exponentMark) = !phase.isInteger := by
  unfold NumberPhase.opening at h
  (repeat' split at h) <;> cases h <;> rfl

theorem renders_numberByte {phase : NumberPhase} {digits : Array UInt8}
    (h : m.Mirrors ⟨frames, .number phase digits⟩) :
    m.Renders b (m.numberByte b phase)
      (Scanner.inNumber (Utf8.leading m.rest) ⟨frames, .number phase digits⟩ b phase digits) := by
  obtain ⟨hscratch, hfloat⟩ := h.holds
  rw [Scanner.inNumber, numberByte]
  cases hafter : phase.after b with
  | some next =>
    have hnext := isInteger_after hafter
    rw [← hfloat] at hnext
    exact renders_pushDigit h.containers h.expect hscratch hnext
  | none =>
    dsimp only
    by_cases hcomplete : phase.isComplete = true
    · rw [if_pos hcomplete, if_pos hcomplete, finishNumber, hscratch, hfloat, Bool.not_not]
      cases Numeral.token phase.isInteger digits.toList with
      | ok token => exact ⟨_, rfl, rfl, mirrors_valueDone h.containers rfl⟩
      | error cause => exact ⟨_, rfl, rfl, h.containers, h.expect, rfl, trivial⟩
    · rw [if_neg hcomplete, if_neg hcomplete]
      exact renders_stuck h _

/-! ## Between tokens -/

theorem renders_openContainer (h : m.Mirrors ⟨frames, .between⟩) (frame : Frame) (token : Token) :
    m.Renders b (m.openContainer b frame.container (.ofFrames (frame :: frames)) token)
      (Scanner.openContainer m.depthLimit ⟨frames, .between⟩ token frame) := by
  have hdepth : m.containers.length = frames.length := by
    rw [h.containers, List.length_map]
  rw [Scanner.openContainer, openContainer, hdepth]
  by_cases hlimit : m.depthLimit ≤ frames.length
  · rw [if_pos hlimit, if_pos hlimit]
    exact renders_stuck h _
  · rw [if_neg hlimit, if_neg hlimit]
    exact ⟨_, rfl, rfl, congrArg (frame.container :: ·) h.containers, rfl, h.mode, trivial⟩

theorem renders_close {frame : Frame} {outer : List Frame}
    (h : m.Mirrors ⟨frame :: outer, .between⟩) {token : Token}
    (htoken : closer [frame.container] = token) :
    m.Renders b (m.close b) (.consume (.ok token) ⟨Frame.fill outer, .between⟩) := by
  have hcontainers := h.containers
  rw [List.map_cons] at hcontainers
  have hclose : closer m.containers = token := by
    rw [hcontainers, ← htoken]
    cases frame <;> rfl
  rw [close, hclose]
  refine ⟨_, rfl, rfl, mirrors_valueDone ?_ h.mode⟩
  rw [hcontainers, List.tail_cons]

theorem renders_beginText (h : m.Mirrors ⟨frames, .between⟩) :
    m.Renders b (m.beginText b) (.shift ⟨frames, .text #[] none⟩) :=
  ⟨_, .inl rfl, rfl, h.containers, h.expect, rfl, rfl, rfl⟩

theorem renders_beginValue (h : m.Mirrors ⟨frames, .between⟩) {lead : Lead}
    (hb : Lead.ofByte b = lead) :
    m.Renders b (m.beginValue b lead)
      (Scanner.beginValue m.depthLimit (Utf8.leading m.rest) ⟨frames, .between⟩ b lead) := by
  cases lead with
  | openObject => exact renders_openContainer h (.object .first) .startObject
  | openArray => exact renders_openContainer h (.array .first) .startArray
  | quote => exact renders_beginText h
  | word w =>
    obtain ⟨htext, hdrop⟩ := matcher_opening hb
    exact ⟨_, .inl rfl, rfl, h.containers, h.expect, rfl, htext, Nat.one_pos, hdrop,
      by cases w <;> exact List.cons_ne_nil _ _⟩
  | number phase =>
    exact renders_pushDigit (m := { m with scratch := #[], isFloat := false }) h.containers h.expect
      rfl (isInteger_opening (Lead.opening_of_ofByte hb))
  | blank | closeObject | closeArray | comma | colon | other => exact renders_stuck h _

/-- What may come next changes, and nothing else. -/
theorem renders_expect {frame : Frame} {outer : List Frame}
    (h : m.Mirrors ⟨frame :: outer, .between⟩) (frame' : Frame)
    (hkind : frame'.container = frame.container) :
    m.Renders b { m.advance b with expect := .ofFrames (frame' :: outer) }.silent
      (.shift ⟨frame' :: outer, .between⟩) := by
  refine ⟨_, .inl rfl, rfl, ?_, rfl, h.mode, trivial⟩
  rw [List.map_cons, hkind]
  exact h.containers

theorem renders_atRoot (h : m.Mirrors ⟨[], .between⟩) {lead : Lead}
    (hb : Lead.ofByte b = lead) :
    m.Renders b (m.leadByte b .rootValue lead)
      (Scanner.atRoot m.depthLimit (Utf8.leading m.rest) ⟨[], .between⟩ b lead) := by
  have hbegin := renders_beginValue h hb
  cases lead with
  | closeObject | closeArray => exact ⟨_, rfl, rfl, h.containers, h.expect, h.mode, trivial⟩
  | _ => exact hbegin

theorem renders_inArray {phase : ArrayPhase} {outer : List Frame}
    (h : m.Mirrors ⟨.array phase :: outer, .between⟩) {lead : Lead} (hb : Lead.ofByte b = lead) :
    m.Renders b (m.leadByte b (.inArray phase) lead)
      (Scanner.inArray m.depthLimit (Utf8.leading m.rest) ⟨.array phase :: outer, .between⟩ b outer
        phase lead) := by
  have hbegin := renders_beginValue h hb
  have hclose : m.Renders b (m.close b) (.consume (.ok .endArray) ⟨Frame.fill outer, .between⟩) :=
    renders_close h rfl
  cases phase with
  | first =>
    cases lead with
    | closeArray => exact hclose
    | _ => exact hbegin
  | item => cases lead <;> exact hbegin
  | separator =>
    cases lead with
    | closeArray => exact hclose
    | comma => exact renders_expect h (.array .item) rfl
    | _ => exact renders_stuck h _

theorem renders_inObject {phase : ObjectPhase} {outer : List Frame}
    (h : m.Mirrors ⟨.object phase :: outer, .between⟩) {lead : Lead} (hb : Lead.ofByte b = lead) :
    m.Renders b (m.leadByte b (.inObject phase) lead)
      (Scanner.inObject m.depthLimit (Utf8.leading m.rest) ⟨.object phase :: outer, .between⟩ b
        outer phase lead) := by
  have hbegin := renders_beginValue h hb
  have hclose : m.Renders b (m.close b) (.consume (.ok .endObject) ⟨Frame.fill outer, .between⟩) :=
    renders_close h rfl
  cases phase with
  | first =>
    cases lead with
    | closeObject => exact hclose
    | quote => exact renders_beginText h
    | _ => exact renders_stuck h _
  | name =>
    cases lead with
    | quote => exact renders_beginText h
    | _ => exact renders_stuck h _
  | colon =>
    cases lead with
    | colon => exact renders_expect h (.object .value) rfl
    | _ => exact renders_stuck h _
  | value => cases lead <;> exact hbegin
  | separator =>
    cases lead with
    | closeObject => exact hclose
    | comma => exact renders_expect h (.object .name) rfl
    | _ => exact renders_stuck h _

theorem renders_betweenByte (h : m.Mirrors ⟨frames, .between⟩) :
    m.Renders b (m.betweenByte b)
      (Scanner.between m.depthLimit (Utf8.leading m.rest) ⟨frames, .between⟩ b) := by
  rw [Scanner.between, betweenByte, h.expect]
  cases hlead : Lead.ofByte b with
  | blank => exact ⟨_, .inl rfl, rfl, h.containers, h.expect, h.mode, trivial⟩
  | _ =>
    rcases frames with _ | ⟨phase | phase, outer⟩
    · exact renders_atRoot h hlead
    · exact renders_inArray h hlead
    · exact renders_inObject h hlead

/-! ## Strings -/

theorem renders_closeText {bytes : Array UInt8} {high : Option Nat}
    (h : m.Mirrors ⟨frames, .text bytes high⟩) :
    m.Renders b (m.closeText b) (Scanner.closeText ⟨frames, .text bytes high⟩ bytes) := by
  obtain ⟨hscratch, -⟩ := h.holds
  rw [Scanner.closeText, closeText, hscratch, h.expect]
  cases String.fromUTF8? ⟨bytes⟩ with
  | none => exact ⟨_, rfl, rfl, h.containers, h.expect, rfl, trivial⟩
  | some text =>
    have hvalue : m.Renders b
        ({ m.advance b with mode := .between, scratch := #[] }.valueDone.emit (.string text))
        (.consume (.ok (.string text)) ⟨Frame.fill frames, .between⟩) :=
      ⟨_, rfl, rfl, mirrors_valueDone h.containers rfl⟩
    -- the places of names are those where the next string is one
    rcases frames with _ | ⟨phase | phase, outer⟩
    · exact hvalue
    · cases phase <;> exact hvalue
    · cases phase with
      | first | name => exact ⟨_, rfl, rfl, h.containers, rfl, rfl, trivial⟩
      | colon | value | separator => exact hvalue

theorem takeRun_of_peek {repeats : UInt8 → Bool} (hb : m.peek = some b)
    (hrepeats : repeats b = true) (hline : b ≠ 0x0A) :
    m.takeRun repeats = ({ m.advance b with scratch := m.scratch.push b }).takeRun repeats := by
  have hrest : ({ m.advance b with scratch := m.scratch.push b } : Machine).rest =
      m.input.drop (m.pos + 1) := rfl
  rw [takeRun, takeRun, hrest, rest_of_peek hb, List.takeWhile_cons, if_pos hrepeats]
  generalize (m.input.drop (m.pos + 1)).takeWhile repeats = run
  have hpos : m.pos + (b :: run).length = m.pos + 1 + run.length := by
    rw [List.length_cons]
    omega
  have hplace : m.location.right (b :: run).length = (m.location.past b).right run.length := by
    rw [Location.past, if_neg hline, List.length_cons, Nat.add_comm]
    exact congrArg (Location.mk _) (Nat.add_assoc ..).symm
  have hscratch : m.scratch ++ b :: run = m.scratch.push b ++ run := by
    apply Array.ext'
    simp
  dsimp only [advance]
  rw [hpos, hplace, hscratch]

theorem renders_textByte {bytes : Array UInt8} {high : Option Nat}
    (h : m.Mirrors ⟨frames, .text bytes high⟩) (hpeek : m.peek = some b) :
    m.Renders b (m.textByte b) (Scanner.inText ⟨frames, .text bytes high⟩ b bytes high) := by
  obtain ⟨hscratch, hhigh⟩ := h.holds
  unfold Scanner.inText textByte
  by_cases hbackslash : b = Ascii.backslash
  · subst hbackslash
    exact ⟨_, .inl rfl, rfl, h.containers, h.expect, rfl, hscratch, hhigh⟩
  · simp only [if_neg hbackslash]
    cases hpending : m.high with
    | some unit =>
      rw [hpending] at hhigh
      subst hhigh
      exact renders_stuck h _
    | none =>
      rw [hpending] at hhigh
      subst hhigh
      dsimp only [Option.map_none]
      by_cases hquote : b = Ascii.quote
      · rw [if_pos hquote, if_pos hquote]
        exact renders_closeText h
      · rw [if_neg hquote, if_neg hquote]
        by_cases hcontrol : Ascii.isControl b = true
        · rw [if_pos hcontrol, if_pos hcontrol]
          exact renders_stuck h _
        · -- the run begins with the byte itself
          have hplain : isPlain b = true := by simp [isPlain, hquote, hbackslash, hcontrol]
          have hline : b ≠ 0x0A := by
            rintro rfl
            exact hcontrol rfl
          rw [if_neg hcontrol, if_neg hcontrol, takeRun_of_peek hpeek hplain hline]
          exact ⟨_, .inr rfl, rfl, h.containers, h.expect, h.mode,
            congrArg (·.push b) hscratch, congrArg (Option.map _) hpending⟩

theorem renders_escapeByte {bytes : Array UInt8} {high : Option Nat}
    (h : m.Mirrors ⟨frames, .escape bytes high⟩) :
    m.Renders b (m.escapeByte b) (Scanner.inEscape ⟨frames, .escape bytes high⟩ b bytes high) := by
  obtain ⟨hscratch, hhigh⟩ := h.holds
  unfold Scanner.inEscape escapeByte
  by_cases hb : b = 0x75
  · rw [if_pos hb, if_pos hb, if_pos hb]
    exact ⟨_, .inl rfl, rfl, h.containers, h.expect, rfl, ⟨hscratch, hhigh⟩, rfl, rfl, by decide,
      by decide⟩
  · rw [if_neg hb, if_neg hb, if_neg hb]
    cases hpending : m.high with
    | some unit =>
      rw [hpending] at hhigh
      subst hhigh
      exact renders_stuck h _
    | none =>
      rw [hpending] at hhigh
      subst hhigh
      dsimp only [Option.map_none]
      cases Scanner.simpleEscape? b with
      | none => exact renders_stuck h _
      | some decoded =>
        exact ⟨_, .inl rfl, rfl, h.containers, h.expect, rfl, congrArg (·.push decoded) hscratch,
          congrArg (Option.map _) hpending⟩

/-! ## Code units -/

/-- A digit is shifted in, as long as the value has room for it. -/
theorem toNat_shifted {value : UInt16} {digit : Nat} (hvalue : value.toNat < 16 ^ 3)
    (hdigit : digit < 16) :
    (value <<< 4 ||| UInt16.ofNat digit).toNat = 16 * value.toNat + digit := by
  have hsmall : digit % 2 ^ 16 = digit := Nat.mod_eq_of_lt (by omega)
  have hroom : value.toNat <<< 4 % 2 ^ 16 = value.toNat <<< 4 := by
    rw [Nat.shiftLeft_eq]
    exact Nat.mod_eq_of_lt (by omega)
  have hfour : (4 : UInt16).toNat % 16 = 4 := by decide
  rw [UInt16.toNat_or, UInt16.toNat_shiftLeft, UInt16.toNat_ofNat', hsmall, hfour, hroom,
    ← Nat.shiftLeft_add_eq_or_of_lt (i := 4) hdigit, Nat.shiftLeft_eq]
  omega

theorem renders_pushCodeUnit {bytes : Array UInt8} {high : Option Nat} {lexeme : Lexeme}
    (hcontainers : m.containers = frames.map Frame.container)
    (hexpect : m.expect = .ofFrames frames) (hmode : m.mode = .text)
    (htext : m.HoldsText bytes high) {before : Machine}
    (hcursor : m.cursor = (before.advance b).cursor) {unit : UInt16} :
    before.Renders b (m.pushCodeUnit unit)
      (Scanner.closeCodeUnit ⟨frames, lexeme⟩ bytes high unit.toNat) := by
  obtain ⟨rfl, rfl⟩ := htext
  rw [cursor] at hcursor
  unfold Scanner.closeCodeUnit pushCodeUnit
  cases hpending : m.high with
  | none =>
    dsimp only [Option.map_none]
    split
    · exact ⟨_, .inl rfl, hcursor, hcontainers, hexpect, hmode, rfl, rfl⟩
    · split
      · exact ⟨_, rfl, hcursor, hcontainers, hexpect, hmode, rfl, rfl⟩
      · exact ⟨_, .inl rfl, hcursor, hcontainers, hexpect, hmode, rfl, rfl⟩
  | some first =>
    dsimp only [Option.map_some]
    split
    · exact ⟨_, .inl rfl, hcursor, hcontainers, hexpect, hmode, rfl, rfl⟩
    · exact ⟨_, rfl, hcursor, hcontainers, hexpect, hmode, rfl, rfl⟩

theorem renders_codeUnitByte {bytes : Array UInt8} {high : Option Nat} {value count : Nat}
    (h : m.Mirrors ⟨frames, .codeUnit bytes high value count⟩) :
    m.Renders b (m.codeUnitByte b)
      (Scanner.inCodeUnit (Utf8.leading m.rest) ⟨frames, .codeUnit bytes high value count⟩ b bytes
        high value count) := by
  obtain ⟨htext, rfl, rfl, hcount, hvalue⟩ := h.holds
  rw [Scanner.inCodeUnit, codeUnitByte, Digits.feed]
  cases hdigit : Ascii.hexValue? b with
  | none => exact renders_stuck h _
  | some digit =>
    have hlt := Ascii.hexValue?_lt hdigit
    have hroom : m.digits.value.toNat < 16 ^ 3 :=
      Nat.lt_of_lt_of_le hvalue (Nat.pow_le_pow_right (by decide) (Nat.le_of_lt_succ hcount))
    have hshifted := toNat_shifted hroom hlt
    dsimp only
    by_cases hmore : m.digits.count < 3
    · rw [if_pos hmore, if_neg (by omega)]
      refine ⟨_, .inl rfl, rfl, h.containers, h.expect, h.mode, htext, hshifted, rfl, by omega, ?_⟩
      rw [Nat.pow_succ]
      omega
    · rw [if_neg hmore, if_pos (by omega), ← hshifted]
      exact renders_pushCodeUnit (m := { m.advance b with digits := {}, mode := .text })
        h.containers h.expect rfl htext rfl

/-! ## Steps -/

/-- The machine takes the steps of the scanner that it stands for. -/
theorem renders_step (h : m.Mirrors s) (hpeek : m.peek = some b) :
    m.Renders b (m.step b) (s.step m.depthLimit (Utf8.leading m.rest) b) := by
  obtain ⟨frames, lexeme⟩ := s
  rw [step, h.mode]
  cases lexeme with
  | between => exact renders_betweenByte h
  | word w missing => exact renders_wordByte h
  | number phase digits => exact renders_numberByte h
  | text bytes high => exact renders_textByte h hpeek
  | escape bytes high => exact renders_escapeByte h
  | codeUnit bytes high value count => exact renders_codeUnitByte h

end

end Machine

end StreamingJson
