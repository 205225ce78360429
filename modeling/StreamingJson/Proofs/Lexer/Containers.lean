import StreamingJson.Proofs.Grammar.Between

/-!
# Tokens and open containers

The scanner keeps the open containers with what may come next in each. Commas and colons change what
may come next and nothing else; a token changes the containers in one of a few ways. Here these ways
are given, and every token of a lexer is shown to be one of them.

## Main definitions

- `Frame.closing`, `Frame.isNamed` — which container is open, and whether a name waits in it
- `Frame.Moves` — what a token does to the open containers
- `Scanner.Placed` — the token read in part stands where it may stand

## Main statements

- `Scanner.accounts_step` — what one byte does to the open containers
- `Lexer.accounts_next` — what a call for the next token does to them
-/

namespace StreamingJson

/-- Whether the token is a value by itself. -/
def Token.isScalar : Token → Bool
  | .string _ | .int _ | .float _ | .bool _ | .null => true
  | .startObject | .endObject | .startArray | .endArray | .fieldName _ => false

namespace Frame

/-- The kind of token that ends the container. -/
def closing : Frame → Token.Kind
  | .array _ => .endArray
  | .object _ => .endObject

/-- Whether the innermost container is an object with a name whose value is still to come. -/
def isNamed : List Frame → Bool
  | .object .colon :: _ | .object .value :: _ => true
  | _ => false

@[simp]
theorem map_closing_fill (frames : List Frame) :
    (fill frames).map closing = frames.map closing := by
  cases frames with
  | nil => rfl
  | cons frame outer => cases frame <;> rfl

@[simp]
theorem isNamed_fill (frames : List Frame) : isNamed (fill frames) = false := by
  cases frames with
  | nil => rfl
  | cons frame outer => cases frame <;> rfl

/-- The same containers are open, and a name waits in both cases or in neither. -/
def Alike (frames frames' : List Frame) : Prop :=
  frames'.map closing = frames.map closing ∧ isNamed frames' = isNamed frames

theorem Alike.refl (frames : List Frame) : Alike frames frames :=
  ⟨rfl, rfl⟩

theorem Alike.trans {frames frames' frames'' : List Frame} (h : Alike frames frames')
    (h' : Alike frames' frames'') : Alike frames frames'' :=
  ⟨h'.1.trans h.1, h'.2.trans h.2⟩

/-- What a token does to the open containers. A closing bracket passes where none is open. -/
inductive Moves : List Frame → Token → List Frame → Prop where
  | openObject {frames : List Frame} (place : AwaitsValue frames) :
    Moves frames .startObject (.object .first :: frames)
  | openArray {frames : List Frame} (place : AwaitsValue frames) :
    Moves frames .startArray (.array .first :: frames)
  | closeObject {phase : ObjectPhase} {outer : List Frame}
    (place : isNamed (.object phase :: outer) = false) :
    Moves (.object phase :: outer) .endObject (fill outer)
  | closeArray (phase : ArrayPhase) (outer : List Frame) :
    Moves (.array phase :: outer) .endArray (fill outer)
  | strayBrace : Moves [] .endObject []
  | strayBracket : Moves [] .endArray []
  | name {phase : ObjectPhase} {outer : List Frame}
    (place : isNamed (.object phase :: outer) = false) (text : String) :
    Moves (.object phase :: outer) (.fieldName text) (.object .colon :: outer)
  | scalar {frames : List Frame} {token : Token} (place : AwaitsValue frames)
    (single : token.isScalar = true) : Moves frames token (fill frames)

/-- A token comes after commas and colons. -/
def Takes (frames : List Frame) (token : Token) (frames' : List Frame) : Prop :=
  ∃ mid, Alike frames mid ∧ Moves mid token frames'

end Frame

/-! ## Tokens read in part -/

/-- The open containers in which a string may come next, as a value or as a name. -/
def AwaitsText (frames : List Frame) : Prop :=
  AwaitsValue frames ∨
    ∃ phase outer, frames = .object phase :: outer ∧ (phase = .first ∨ phase = .name)

/-- Where a token that is read in part may stand. -/
def Lexeme.Fits : Lexeme → List Frame → Prop
  | .between, _ => True
  | .word _ _, frames | .number _ _, frames => AwaitsValue frames
  | .text _ _, frames | .escape _ _, frames | .codeUnit _ _ _ _, frames => AwaitsText frames

namespace Scanner

/-- The token read in part stands where it may stand. -/
def Placed (s : Scanner) : Prop :=
  s.lexeme.Fits s.frames

/-- What a step that meets no fault does to the open containers. Afterwards the token read in part,
if any, stands where it may. -/
def Accounts (s : Scanner) : Step → Prop
  | .shift next => next.Placed ∧ Frame.Alike s.frames next.frames
  | .consume (.ok token) next | .leave (.ok token) next => Frame.Moves s.frames token next.frames
  | .consume (.error _) _ | .leave (.error _) _ => True

section

variable {limit : Nat} {shown : List UInt8} {s : Scanner} {b : UInt8} {outer : List Frame}

theorem placed_of_between (h : s.lexeme = .between) : s.Placed := by
  rw [Placed, h]
  trivial

theorem accounts_beginValue (h : AwaitsValue s.frames) (lead : Lead) :
    s.Accounts (s.beginValue limit shown b lead) := by
  cases lead with
  | openObject =>
    rw [beginValue, openContainer]
    split
    · trivial
    · exact .openObject h
  | openArray =>
    rw [beginValue, openContainer]
    split
    · trivial
    · exact .openArray h
  | quote => exact ⟨.inl h, .refl _⟩
  | word w => exact ⟨h, .refl _⟩
  | number phase => exact ⟨h, .refl _⟩
  | blank | closeObject | closeArray | comma | colon | other => trivial

theorem accounts_atRoot (h : s.frames = []) (lead : Lead) :
    s.Accounts (s.atRoot limit shown b lead) := by
  have hbegins : s.Accounts (s.beginValue limit shown b lead) :=
    accounts_beginValue (by rw [h]; exact .root) lead
  cases lead with
  | closeObject =>
    show Frame.Moves s.frames .endObject s.frames
    rw [h]
    exact .strayBrace
  | closeArray =>
    show Frame.Moves s.frames .endArray s.frames
    rw [h]
    exact .strayBracket
  | _ => exact hbegins

theorem accounts_inArray {phase : ArrayPhase} (h : s.frames = .array phase :: outer)
    (hlexeme : s.lexeme = .between) (lead : Lead) :
    s.Accounts (s.inArray limit shown b outer phase lead) := by
  have hclose : s.Accounts (.consume (.ok .endArray) { s with frames := Frame.fill outer }) := by
    show Frame.Moves s.frames .endArray (Frame.fill outer)
    rw [h]
    exact .closeArray phase outer
  cases phase with
  | first =>
    have hbegins : s.Accounts (s.beginValue limit shown b lead) :=
      accounts_beginValue (by rw [h]; exact .first outer) lead
    cases lead with
    | closeArray => exact hclose
    | _ => exact hbegins
  | item => exact accounts_beginValue (by rw [h]; exact .item outer) lead
  | separator =>
    cases lead with
    | closeArray => exact hclose
    | comma =>
      refine ⟨placed_of_between hlexeme, ?_⟩
      rw [h]
      exact ⟨rfl, rfl⟩
    | _ => trivial

theorem accounts_inObject {phase : ObjectPhase} (h : s.frames = .object phase :: outer)
    (hlexeme : s.lexeme = .between) (lead : Lead) :
    s.Accounts (s.inObject limit shown b outer phase lead) := by
  have hquote (hphase : phase = .first ∨ phase = .name) :
      s.Accounts (.shift { s with lexeme := .text #[] none }) :=
    ⟨.inr ⟨phase, outer, h, hphase⟩, .refl _⟩
  have hclose (hphase : Frame.isNamed (.object phase :: outer) = false) :
      s.Accounts (.consume (.ok .endObject) { s with frames := Frame.fill outer }) := by
    show Frame.Moves s.frames .endObject (Frame.fill outer)
    rw [h]
    exact .closeObject hphase
  have hnext (next : ObjectPhase)
      (hnamed : Frame.isNamed (.object next :: outer) = Frame.isNamed (.object phase :: outer)) :
      s.Accounts (.shift { s with frames := .object next :: outer }) := by
    refine ⟨placed_of_between hlexeme, ?_⟩
    rw [h]
    exact ⟨rfl, hnamed⟩
  cases phase with
  | first =>
    cases lead with
    | quote => exact hquote (.inl rfl)
    | closeObject => exact hclose rfl
    | _ => trivial
  | name =>
    cases lead with
    | quote => exact hquote (.inr rfl)
    | _ => trivial
  | colon =>
    cases lead with
    | colon => exact hnext .value rfl
    | _ => trivial
  | value => exact accounts_beginValue (by rw [h]; exact .value outer) lead
  | separator =>
    cases lead with
    | comma => exact hnext .name rfl
    | closeObject => exact hclose rfl
    | _ => trivial

theorem accounts_between (hlexeme : s.lexeme = .between) :
    s.Accounts (s.between limit shown b) := by
  rw [between]
  cases Lead.ofByte b with
  | blank => exact ⟨placed_of_between hlexeme, .refl _⟩
  | _ =>
    dsimp only
    split
    next h => exact accounts_atRoot h _
    next h => exact accounts_inArray h hlexeme _
    next h => exact accounts_inObject h hlexeme _

theorem accounts_inWord {w : Word} {missing : List UInt8} (h : AwaitsValue s.frames) :
    s.Accounts (s.inWord shown b w missing) := by
  have hsingle : w.token.isScalar = true := by cases w <;> rfl
  cases missing with
  | nil => trivial
  | cons expected missing =>
    rw [inWord]
    split
    · trivial
    · split
      · exact .scalar h hsingle
      · exact ⟨h, .refl _⟩

theorem isScalar_of_numeral {isInteger : Bool} {text : List UInt8} {token : Token}
    (h : Numeral.token isInteger text = .ok token) : token.isScalar = true := by
  cases isInteger with
  | false =>
    cases h
    rfl
  | true =>
    simp only [Numeral.token, if_true] at h
    split at h
    · cases h
      rfl
    · cases h

theorem accounts_inNumber {phase : NumberPhase} {text : Array UInt8} (h : AwaitsValue s.frames) :
    s.Accounts (s.inNumber shown b phase text) := by
  rw [inNumber]
  split
  · exact ⟨h, .refl _⟩
  · split
    · split
      next token htoken => exact .scalar h (isScalar_of_numeral htoken)
      next => trivial
    · trivial

theorem accounts_closeText {bytes : Array UInt8} (h : AwaitsText s.frames) :
    s.Accounts (s.closeText bytes) := by
  rw [closeText]
  split
  · trivial
  · next text htext =>
    rcases h with hvalue | ⟨phase, outer, hframes, hphase⟩
    · rw [placeText_of_awaits hvalue]
      exact .scalar hvalue rfl
    · show Frame.Moves s.frames (placeText text s.frames).1 (placeText text s.frames).2
      rw [hframes, placeText_name hphase]
      have hunnamed : Frame.isNamed (.object phase :: outer) = false := by
        rcases hphase with rfl | rfl <;> rfl
      exact .name hunnamed text

theorem accounts_inText {bytes : Array UInt8} {high : Option Nat} (h : AwaitsText s.frames) :
    s.Accounts (s.inText b bytes high) := by
  unfold inText
  split
  · exact ⟨h, .refl _⟩
  · split
    · trivial
    · split
      · exact accounts_closeText h
      · split
        · trivial
        · exact ⟨h, .refl _⟩

theorem accounts_inEscape {bytes : Array UInt8} {high : Option Nat} (h : AwaitsText s.frames) :
    s.Accounts (s.inEscape b bytes high) := by
  unfold inEscape
  split
  · exact ⟨h, .refl _⟩
  · split
    · trivial
    · split
      · exact ⟨h, .refl _⟩
      · trivial

theorem accounts_inCodeUnit {bytes : Array UInt8} {high : Option Nat} {value count : Nat}
    (h : AwaitsText s.frames) : s.Accounts (s.inCodeUnit shown b bytes high value count) := by
  rw [inCodeUnit]
  split
  · trivial
  · next digit hdigit =>
    split
    · exact ⟨h, .refl _⟩
    · rcases closeCodeUnit_cases s bytes high (16 * value + digit) with
        ⟨bytes', high', hclose⟩ | ⟨cause, next, hclose⟩
      · rw [hclose]
        exact ⟨h, .refl _⟩
      · rw [hclose]
        trivial

/-- A byte that completes nothing keeps the open containers, and a token moves them. -/
theorem accounts_step (h : s.Placed) : s.Accounts (s.step limit shown b) := by
  rw [step]
  rw [Placed] at h
  cases hlexeme : s.lexeme with rw [hlexeme] at h
  | between => exact accounts_between hlexeme
  | word w missing => exact accounts_inWord h
  | number phase text => exact accounts_inNumber h
  | text bytes high => exact accounts_inText h
  | escape bytes high => exact accounts_inEscape h
  | codeUnit bytes high value count => exact accounts_inCodeUnit h

end

end Scanner

/-! ## Calls for a token -/

namespace Lexer

/-- What a call for the next token does to the open containers, unless it meets a fault. -/
def Accounts (l : Lexer) : Except LexicalFault (Option Token) × Lexer → Prop
  | (.ok none, l') => l'.scanner.Placed ∧ Frame.Alike l.scanner.frames l'.scanner.frames
  | (.ok (some token), l') =>
    l'.scanner.Placed ∧ Frame.Takes l.scanner.frames token l'.scanner.frames
  | (.error _, _) => True

/-- A byte that completes nothing can be put in front of a call. -/
theorem Accounts.of_alike {l m : Lexer} {result : Except LexicalFault (Option Token) × Lexer}
    (h : Frame.Alike l.scanner.frames m.scanner.frames) (hm : m.Accounts result) :
    l.Accounts result := by
  obtain ⟨fault | _ | token, l'⟩ := result
  · trivial
  · exact ⟨hm.1, h.trans hm.2⟩
  · obtain ⟨hplaced, frames, halike, hmoves⟩ := hm
    exact ⟨hplaced, frames, h.trans halike, hmoves⟩

theorem accounts_scan {l : Lexer} (h : l.scanner.Placed) (bytes : List UInt8) :
    l.Accounts (l.scan bytes) := by
  induction bytes generalizing l with
  | nil =>
    rw [scan]
    exact ⟨h, .refl _⟩
  | cons b rest ih =>
    have hstep : l.scanner.Accounts (l.scanner.step l.depthLimit (Utf8.leading (b :: rest)) b) :=
      Scanner.accounts_step h
    have hsettles := l.scanner.settles_step l.depthLimit (Utf8.leading (b :: rest)) b
    cases hb : l.scanner.step l.depthLimit (Utf8.leading (b :: rest)) b with
        rw [hb] at hstep hsettles
    | shift next =>
      rw [scan_shift hb]
      exact (ih (l := l.past b next) hstep.1).of_alike hstep.2
    | consume result next =>
      rw [scan_consume hb]
      cases result with
      | error cause => trivial
      | ok token => exact ⟨Scanner.placed_of_between hsettles, _, .refl _, hstep⟩
    | leave result next =>
      rw [scan_leave hb]
      cases result with
      | error cause => trivial
      | ok token => exact ⟨Scanner.placed_of_between hsettles.1, _, .refl _, hstep⟩

/-- A call for the next token keeps the open containers if it gives none, and moves them as the
token it gives does. -/
theorem accounts_next {l : Lexer} (h : l.scanner.Placed) : l.Accounts (TokenSource.next l) :=
  accounts_scan h l.unread

end Lexer

end StreamingJson
