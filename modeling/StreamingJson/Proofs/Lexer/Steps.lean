import StreamingJson.Proofs.Lexer.Containers

/-!
# What a byte can do

All that one byte can do to the open containers, whether it completes a token, a fault or nothing,
and all that a fault can leave of a scanner. Most faults leave everything as it was, the byte
included. Three do not: an integer out of range and a string that is no UTF-8 are lost, and the code
unit that is found to have no partner is skipped.

## Main definitions

- `Step.next`, `Step.token?`, `Step.cause?` — the parts of a step
- `Token.closingAfter` — what tokens open and close
- `Frame.Turns` — what a byte does to the open containers
- `Scanner.Faults` — the steps that meet a fault

## Main statements

- `Scanner.turns_step` — what a byte does to the open containers
- `Scanner.faults_step` — what a fault leaves
- `Scanner.placed_step` — what is read in part stands where it may, also after a fault
-/

namespace StreamingJson

namespace Step

/-- The scanner after the step. -/
def next : Step → Scanner
  | .shift next | .consume _ next | .leave _ next => next

/-- The token that the step completes, if any. -/
def token? : Step → Option Token
  | .consume (.ok token) _ | .leave (.ok token) _ => some token
  | _ => none

/-- The cause of the fault that the step meets, if any. -/
def cause? : Step → Option LexicalError
  | .consume (.error cause) _ | .leave (.error cause) _ => some cause
  | _ => none

end Step

/-- The kinds of tokens that close the open containers, innermost first, after one more token. -/
def Token.closingAfter (kinds : List Token.Kind) : Token → List Token.Kind
  | .startObject => .endObject :: kinds
  | .startArray => .endArray :: kinds
  | .endObject | .endArray => kinds.tail
  | .fieldName _ | .string _ | .int _ | .float _ | .bool _ | .null => kinds

namespace Frame

@[simp]
theorem tail_fill (frames : List Frame) : (fill frames).tail = frames.tail := by
  cases frames <;> rfl

@[simp]
theorem length_fill (frames : List Frame) : (fill frames).length = frames.length := by
  cases frames <;> rfl

/-- What a byte does to the open containers, and the token that it completes. -/
inductive Turns (limit : Nat) : List Frame → Option Token → List Frame → Prop where
  /-- What opens and closes nothing changes at most what may come next in the innermost one. -/
  | inside {frames frames' : List Frame} {found : Option Token}
    (quiet : ∀ token ∈ found, ∀ kinds, token.closingAfter kinds = kinds)
    (kinds : frames'.map closing = frames.map closing) (outer : frames'.tail = frames.tail) :
    Turns limit frames found frames'
  | openObject {frames : List Frame} (place : AwaitsValue frames) (room : frames.length < limit) :
    Turns limit frames (some .startObject) (.object .first :: frames)
  | openArray {frames : List Frame} (place : AwaitsValue frames) (room : frames.length < limit) :
    Turns limit frames (some .startArray) (.array .first :: frames)
  | closeObject (phase : ObjectPhase) (outer : List Frame) :
    Turns limit (.object phase :: outer) (some .endObject) (fill outer)
  | closeArray (phase : ArrayPhase) (outer : List Frame) :
    Turns limit (.array phase :: outer) (some .endArray) (fill outer)
  | strayBrace : Turns limit [] (some .endObject) []
  | strayBracket : Turns limit [] (some .endArray) []

variable {limit : Nat} {frames frames' outer : List Frame} {token : Token} {found : Option Token}

theorem Turns.same (frames : List Frame) : Turns limit frames none frames :=
  .inside (fun _ h => nomatch h) rfl rfl

theorem Turns.head {frame frame' : Frame} (h : frame'.closing = frame.closing)
    (hquiet : ∀ token ∈ found, ∀ kinds, token.closingAfter kinds = kinds) :
    Turns limit (frame :: outer) found (frame' :: outer) :=
  .inside hquiet (congrArg (· :: outer.map closing) h) rfl

theorem Turns.scalar (h : token.isScalar = true) (frames : List Frame) :
    Turns limit frames (some token) (fill frames) := by
  refine .inside (fun other hother kinds => ?_) (map_closing_fill frames) (tail_fill frames)
  cases hother
  cases token <;> first | rfl | cases h

/-- The kinds of the open containers follow the tokens. -/
theorem Turns.map_closing (h : Turns limit frames found frames') :
    frames'.map closing =
      found.elim (frames.map closing) (·.closingAfter (frames.map closing)) := by
  cases h with
  | inside quiet kinds outer =>
    cases found with
    | none => exact kinds
    | some token => exact kinds.trans (quiet token rfl _).symm
  | openObject | openArray | strayBrace | strayBracket => rfl
  | closeObject phase outer => exact map_closing_fill outer
  | closeArray phase outer => exact map_closing_fill outer

theorem Turns.length_le (h : Turns limit frames found frames') (hframes : frames.length ≤ limit) :
    frames'.length ≤ limit := by
  cases h with
  | inside quiet kinds outer =>
    have hlength := congrArg List.length kinds
    rw [List.length_map, List.length_map] at hlength
    exact Nat.le_trans (Nat.le_of_eq hlength) hframes
  | openObject place room => exact room
  | openArray place room => exact room
  | closeObject phase outer =>
    rw [length_fill]
    exact Nat.le_of_succ_le hframes
  | closeArray phase outer =>
    rw [length_fill]
    exact Nat.le_of_succ_le hframes
  | strayBrace | strayBracket => exact hframes

end Frame

namespace Scanner

variable {limit : Nat} {shown : List UInt8} {s : Scanner} {b : UInt8} {outer : List Frame}

/-! ## The open containers -/

/-- What the step does to the open containers of the scanner. -/
def TurnsBy (limit : Nat) (s : Scanner) (step : Step) : Prop :=
  Frame.Turns limit s.frames step.token? step.next.frames

theorem turnsBy_beginValue (h : AwaitsValue s.frames) (lead : Lead) :
    s.TurnsBy limit (s.beginValue limit shown b lead) := by
  cases lead with
  | openObject =>
    rw [beginValue, openContainer]
    split
    · exact .same _
    next hroom => exact .openObject h (Nat.not_le.mp hroom)
  | openArray =>
    rw [beginValue, openContainer]
    split
    · exact .same _
    next hroom => exact .openArray h (Nat.not_le.mp hroom)
  | _ => exact .same _

theorem turnsBy_atRoot (h : s.frames = []) (lead : Lead) :
    s.TurnsBy limit (s.atRoot limit shown b lead) := by
  have hbegins : s.TurnsBy limit (s.beginValue limit shown b lead) :=
    turnsBy_beginValue (by rw [h]; exact .root) lead
  cases lead with
  | closeObject =>
    show Frame.Turns limit s.frames (some .endObject) s.frames
    rw [h]
    exact .strayBrace
  | closeArray =>
    show Frame.Turns limit s.frames (some .endArray) s.frames
    rw [h]
    exact .strayBracket
  | _ => exact hbegins

theorem turnsBy_inArray {phase : ArrayPhase} (h : s.frames = .array phase :: outer) (lead : Lead) :
    s.TurnsBy limit (s.inArray limit shown b outer phase lead) := by
  have hclose :
      s.TurnsBy limit (.consume (.ok .endArray) { s with frames := Frame.fill outer }) := by
    rw [TurnsBy, h]
    exact .closeArray phase outer
  cases phase with
  | first =>
    have hbegins : s.TurnsBy limit (s.beginValue limit shown b lead) :=
      turnsBy_beginValue (by rw [h]; exact .first outer) lead
    cases lead with
    | closeArray => exact hclose
    | _ => exact hbegins
  | item => exact turnsBy_beginValue (by rw [h]; exact .item outer) lead
  | separator =>
    cases lead with
    | closeArray => exact hclose
    | comma =>
      rw [TurnsBy, h]
      exact .head rfl (fun _ hfound => nomatch hfound)
    | _ => exact .same _

theorem turnsBy_inObject {phase : ObjectPhase} (h : s.frames = .object phase :: outer)
    (lead : Lead) : s.TurnsBy limit (s.inObject limit shown b outer phase lead) := by
  have hclose :
      s.TurnsBy limit (.consume (.ok .endObject) { s with frames := Frame.fill outer }) := by
    rw [TurnsBy, h]
    exact .closeObject phase outer
  have hnext (next : ObjectPhase) :
      s.TurnsBy limit (.shift { s with frames := .object next :: outer }) := by
    rw [TurnsBy, h]
    exact .head rfl (fun _ hfound => nomatch hfound)
  cases phase with
  | first =>
    cases lead with
    | closeObject => exact hclose
    | _ => exact .same _
  | name => cases lead <;> exact .same _
  | colon =>
    cases lead with
    | colon => exact hnext .value
    | _ => exact .same _
  | value => exact turnsBy_beginValue (by rw [h]; exact .value outer) lead
  | separator =>
    cases lead with
    | comma => exact hnext .name
    | closeObject => exact hclose
    | _ => exact .same _

theorem turnsBy_between : s.TurnsBy limit (s.between limit shown b) := by
  rw [between]
  cases Lead.ofByte b with
  | blank => exact .same _
  | _ =>
    dsimp only
    split
    next h => exact turnsBy_atRoot h _
    next h => exact turnsBy_inArray h _
    next h => exact turnsBy_inObject h _

theorem turnsBy_inWord {w : Word} {missing : List UInt8} :
    s.TurnsBy limit (s.inWord shown b w missing) := by
  have hsingle : w.token.isScalar = true := by cases w <;> rfl
  cases missing with
  | nil => exact .same _
  | cons expected missing =>
    rw [inWord]
    split
    · exact .same _
    · split
      · exact .scalar hsingle _
      · exact .same _

theorem turnsBy_inNumber {phase : NumberPhase} {digits : Array UInt8} :
    s.TurnsBy limit (s.inNumber shown b phase digits) := by
  rw [inNumber]
  split
  · exact .same _
  · split
    · split
      next htoken => exact .scalar (isScalar_of_numeral htoken) _
      next => exact .same _
    · exact .same _

theorem turns_placeText (text : String) (frames : List Frame) :
    Frame.Turns limit frames (some (placeText text frames).1) (placeText text frames).2 := by
  unfold placeText
  split
  · exact .head rfl (by rintro _ ⟨⟩ kinds; rfl)
  · exact .head rfl (by rintro _ ⟨⟩ kinds; rfl)
  · exact .scalar rfl _

theorem turnsBy_inText {bytes : Array UInt8} {high : Option Nat} :
    s.TurnsBy limit (s.inText b bytes high) := by
  unfold inText
  split
  · exact .same _
  · split
    · exact .same _
    · split
      · rw [closeText]
        split
        · exact .same _
        · exact turns_placeText _ _
      · split <;> exact .same _

theorem turnsBy_inEscape {bytes : Array UInt8} {high : Option Nat} :
    s.TurnsBy limit (s.inEscape b bytes high) := by
  unfold inEscape
  split
  · exact .same _
  · split
    · exact .same _
    · split <;> exact .same _

theorem turnsBy_inCodeUnit {bytes : Array UInt8} {high : Option Nat} {value count : Nat} :
    s.TurnsBy limit (s.inCodeUnit shown b bytes high value count) := by
  unfold inCodeUnit
  split
  · exact .same _
  · split
    · exact .same _
    · unfold closeCodeUnit
      split
      · split <;> exact .same _
      · split
        · exact .same _
        · split <;> exact .same _

/-- What a byte does to the open containers. -/
theorem turns_step (limit : Nat) (shown : List UInt8) (s : Scanner) (b : UInt8) :
    s.TurnsBy limit (s.step limit shown b) := by
  rw [step]
  split
  · exact turnsBy_between
  · exact turnsBy_inWord
  · exact turnsBy_inNumber
  · exact turnsBy_inText
  · exact turnsBy_inEscape
  · exact turnsBy_inCodeUnit

end Scanner

/-! ## Faults -/

/-- Whether the error is found in a number or string that is lost with it. -/
def LexicalError.losesLiteral : LexicalError → Bool
  | .integerOutOfRange _ | .invalidUtf8 => true
  | .invalidCharacter _ | .invalidEscape _ | .invalidUnicodeEscape _ | .unpairedSurrogate _
  | .controlCharacter _ | .depthLimitExceeded _ => false

namespace Scanner

/-- The steps of a scanner that meet a fault with a byte. -/
inductive Faults (s : Scanner) (b : UInt8) : LexicalError → Step → Prop where
  /-- Nothing changes, and the byte is left. -/
  | refused {cause : LexicalError} (keeps : cause.losesLiteral = false) :
    Faults s b cause (.leave (.error cause) s)
  /-- An integer is lost, and the byte behind it is left. -/
  | number {phase : NumberPhase} {digits : Array UInt8} (hs : s.lexeme = .number phase digits)
    (ended : phase.after b = none) (complete : phase.isComplete = true)
    {cause : LexicalError} (hcause : Numeral.token phase.isInteger digits.toList = .error cause)
    (loses : cause.losesLiteral = true) :
    Faults s b cause (.leave (.error cause) { s with lexeme := .between })
  /-- A string is lost with its closing quote. -/
  | text {bytes : Array UInt8} (hs : s.lexeme = .text bytes none) (hb : b = Ascii.quote) :
    Faults s b .invalidUtf8 (.consume (.error .invalidUtf8) { s with lexeme := .between })
  /-- An escape is skipped with its last digit. -/
  | unit {bytes : Array UInt8} {high : Option Nat} {value count digit : Nat}
    (hs : s.lexeme = .codeUnit bytes high value count) (hcount : ¬count < 3)
    (hdigit : Ascii.hexValue? b = some digit) :
    Faults s b (.unpairedSurrogate (high.getD (16 * value + digit)))
      (.consume (.error (.unpairedSurrogate (high.getD (16 * value + digit))))
        { s with lexeme := .text bytes none })

variable {limit : Nat} {shown : List UInt8} {s : Scanner} {b : UInt8} {outer : List Frame}

/-- A fault that the step meets, if any, is met in one of these ways. -/
def FaultsBy (s : Scanner) (b : UInt8) (step : Step) : Prop :=
  ∀ cause ∈ step.cause?, s.Faults b cause step

theorem faultsBy_of_none {step : Step} (h : step.cause? = none) : s.FaultsBy b step := by
  intro cause hcause
  rw [h] at hcause
  cases hcause

theorem faultsBy_stuck {cause : LexicalError} (h : cause.losesLiteral = false) :
    s.FaultsBy b (s.stuck cause) := by
  rintro _ ⟨⟩
  exact .refused h

theorem faultsBy_beginValue (lead : Lead) : s.FaultsBy b (s.beginValue limit shown b lead) := by
  cases lead with
  | openObject | openArray =>
    rw [beginValue, openContainer]
    split
    · exact faultsBy_stuck rfl
    · exact faultsBy_of_none rfl
  | quote | word w | number phase => exact faultsBy_of_none rfl
  | _ => exact faultsBy_stuck rfl

theorem faultsBy_between : s.FaultsBy b (s.between limit shown b) := by
  have begins (lead : Lead) : s.FaultsBy b (s.beginValue limit shown b lead) :=
    faultsBy_beginValue lead
  unfold between
  split
  · exact faultsBy_of_none rfl
  · split
    · unfold atRoot
      split <;> first | exact faultsBy_of_none rfl | exact begins _
    · unfold inArray
      split <;> first | exact faultsBy_of_none rfl | exact begins _ | exact faultsBy_stuck rfl
    · unfold inObject
      split <;> first | exact faultsBy_of_none rfl | exact begins _ | exact faultsBy_stuck rfl

theorem faultsBy_inWord {w : Word} {missing : List UInt8} :
    s.FaultsBy b (s.inWord shown b w missing) := by
  unfold inWord
  split
  · exact faultsBy_stuck rfl
  · split
    · exact faultsBy_stuck rfl
    · split <;> exact faultsBy_of_none rfl

theorem losesLiteral_of_numeral {isInteger : Bool} {digits : List UInt8} {cause : LexicalError}
    (h : Numeral.token isInteger digits = .error cause) : cause.losesLiteral = true := by
  unfold Numeral.token at h
  dsimp only at h
  split at h
  · split at h
    · cases h
    · cases h
      rfl
  · cases h

theorem faultsBy_inNumber {phase : NumberPhase} {digits : Array UInt8}
    (hs : s.lexeme = .number phase digits) : s.FaultsBy b (s.inNumber shown b phase digits) := by
  rw [inNumber]
  split
  · exact faultsBy_of_none rfl
  next hended =>
    split
    next hcomplete =>
      split
      · exact faultsBy_of_none rfl
      next htoken =>
        rintro _ ⟨⟩
        exact .number hs hended hcomplete htoken (losesLiteral_of_numeral htoken)
    · exact faultsBy_stuck rfl

theorem faultsBy_inText {bytes : Array UInt8} {high : Option Nat}
    (hs : s.lexeme = .text bytes high) : s.FaultsBy b (s.inText b bytes high) := by
  unfold inText
  split
  · exact faultsBy_of_none rfl
  · split
    · exact faultsBy_stuck rfl
    · split
      next hquote =>
        rw [closeText]
        split
        · rintro _ ⟨⟩
          exact .text hs hquote
        · exact faultsBy_of_none rfl
      · split
        · exact faultsBy_stuck rfl
        · exact faultsBy_of_none rfl

theorem faultsBy_inEscape {bytes : Array UInt8} {high : Option Nat} :
    s.FaultsBy b (s.inEscape b bytes high) := by
  unfold inEscape
  split
  · exact faultsBy_of_none rfl
  · split
    · exact faultsBy_stuck rfl
    · split
      · exact faultsBy_of_none rfl
      · exact faultsBy_stuck rfl

theorem faultsBy_inCodeUnit {bytes : Array UInt8} {high : Option Nat} {value count : Nat}
    (hs : s.lexeme = .codeUnit bytes high value count) :
    s.FaultsBy b (s.inCodeUnit shown b bytes high value count) := by
  rw [inCodeUnit]
  split
  · exact faultsBy_stuck rfl
  next digit hdigit =>
    split
    · exact faultsBy_of_none rfl
    next hcount =>
      unfold closeCodeUnit
      split
      · split
        · exact faultsBy_of_none rfl
        · rintro _ ⟨⟩
          exact .unit hs hcount hdigit
      · split
        · exact faultsBy_of_none rfl
        · split
          · rintro _ ⟨⟩
            exact .unit hs hcount hdigit
          · exact faultsBy_of_none rfl

/-- What a fault leaves of a scanner. -/
theorem faults_step (limit : Nat) (shown : List UInt8) (s : Scanner) (b : UInt8) :
    s.FaultsBy b (s.step limit shown b) := by
  rw [step]
  split
  · exact faultsBy_between
  · exact faultsBy_inWord
  next hs => exact faultsBy_inNumber hs
  next hs => exact faultsBy_inText hs
  · exact faultsBy_inEscape
  next hs => exact faultsBy_inCodeUnit hs

/-! ## What is read in part -/

/-- What is read in part stands where it may, whatever the byte does. -/
theorem placed_step (h : s.Placed) : (s.step limit shown b).next.Placed := by
  have haccounts : s.Accounts (s.step limit shown b) := accounts_step h
  have hsettles := s.settles_step limit shown b
  have hfaults := s.faults_step limit shown b
  have hfault {cause : LexicalError} {step : Step} (hstep : s.Faults b cause step) :
      step.next.Placed := by
    cases hstep with
    | refused => exact h
    | number | text => exact placed_of_between rfl
    | unit hs =>
      rw [Placed, hs] at h
      exact h
  rcases hstep : s.step limit shown b with next | ⟨cause | token, next⟩ | ⟨cause | token, next⟩ <;>
    rw [hstep] at haccounts hsettles hfaults
  · exact haccounts.1
  · exact hfault (hfaults cause rfl)
  · exact placed_of_between hsettles
  · exact hfault (hfaults cause rfl)
  · exact placed_of_between hsettles.1

end Scanner

end StreamingJson
