import StreamingJson.Proofs.Grammar.Scanning
import StreamingJson.Proofs.Lexer.Places
import StreamingJson.Proofs.Lexer.Steps

/-!
# What the limit on containers changes

The limit is looked at where a bracket opens a container, and nowhere else. A text that is read with
a limit is read alike where there is room for more, unless a bracket is met that opens a container
while as many are open as are allowed: it is left, and is the first that would open one too many.

## Main definitions

- `Token.StaysWithin` — tokens that never open too many containers
- `Token.Rounded` — a token that is no other floating-point number than one nearest to a literal
- `Opening` — the brackets that open containers
- `Scanner.Bounded` — one step with a limit and with room for more
- `Lexer.Bounded` — the readings of a text with a limit and with room for more

## Main statements

- `Scanner.bounded_step` — the limit matters to brackets that open containers only
- `Scanner.Reads.widen` — a text that is read without a fault is read so with more room
- `Lexer.bounded_readBytes` — so it does in a text, up to the first that is refused
- `Lexer.staysWithin_readBytes` — the tokens of a text keep to the limit
-/

namespace StreamingJson

namespace Token

/-- At no time do the tokens leave more than `limit` containers open, where those that `kinds` close
are open before. -/
def StaysWithin (limit : Nat) (kinds : List Kind) : List Token → Prop
  | [] => kinds.length ≤ limit
  | token :: tokens => kinds.length ≤ limit ∧ StaysWithin limit (token.closingAfter kinds) tokens

theorem StaysWithin.length_le {limit : Nat} {kinds : List Kind} {tokens : List Token}
    (h : StaysWithin limit kinds tokens) : kinds.length ≤ limit := by
  cases tokens with
  | nil => exact h
  | cons token tokens => exact h.1

theorem StaysWithin.of_append {limit : Nat} {kinds : List Kind} {tokens more : List Token}
    (h : StaysWithin limit kinds (tokens ++ more)) :
    (tokens.foldl closingAfter kinds).length ≤ limit := by
  induction tokens generalizing kinds with
  | nil => exact h.length_le
  | cons token tokens ih => exact ih h.2

/-- The token, if it is a floating-point number, is one that is nearest to a literal. -/
def Rounded (token : Token) : Prop :=
  ∀ x, token = .float x → ∃ n : Numeral, x = n.toBinary64

theorem rounded_of_kind {token : Token} (h : token.kind ≠ .float) : token.Rounded := by
  rintro x rfl
  exact absurd rfl h

end Token

/-- The brackets that open containers, and the tokens that they are. -/
inductive Opening : UInt8 → Token → Prop where
  | object : Opening Ascii.openBrace .startObject
  | array : Opening Ascii.openBracket .startArray

theorem Opening.length_closingAfter {b : UInt8} {token : Token} (h : Opening b token)
    (kinds : List Token.Kind) : (token.closingAfter kinds).length = kinds.length + 1 := by
  cases h <;> rfl

/-- Whether the error is that a container would be one too many. -/
def LexicalError.isDepth : LexicalError → Bool
  | .depthLimitExceeded _ => true
  | _ => false

namespace Scanner

variable {limit room : Nat} {shown : List UInt8} {s : Scanner} {b : UInt8}

/-! ## One byte -/

/-- The step opens no container beyond the limit, and gives no floating-point number but one that is
nearest to a literal. -/
def Plain (step : Step) : Prop :=
  (∀ token ∈ step.token?, token.Rounded) ∧ ∀ cause ∈ step.cause?, cause.isDepth = false

theorem plain_of_token {step : Step} (hcause : step.cause? = none)
    (htoken : ∀ token ∈ step.token?, token.Rounded) : Plain step := by
  refine ⟨htoken, fun cause hfound => ?_⟩
  rw [hcause] at hfound
  cases hfound

theorem plain_of_cause {step : Step} (htoken : step.token? = none)
    (hcause : ∀ cause ∈ step.cause?, cause.isDepth = false) : Plain step := by
  refine ⟨fun token hfound => ?_, hcause⟩
  rw [htoken] at hfound
  cases hfound

theorem plain_shift (next : Scanner) : Plain (.shift next) := by
  refine plain_of_cause rfl ?_
  rintro _ ⟨⟩

theorem plain_stuck (s : Scanner) {cause : LexicalError} (h : cause.isDepth = false) :
    Plain (s.stuck cause) := by
  refine plain_of_cause rfl ?_
  rintro _ ⟨⟩
  exact h

theorem plain_ok {token : Token} (h : token.kind ≠ .float) (next : Scanner) :
    Plain (.consume (.ok token) next) := by
  refine plain_of_token rfl ?_
  rintro _ ⟨⟩
  exact Token.rounded_of_kind h

theorem plain_error {cause : LexicalError} (h : cause.isDepth = false) (next : Scanner) :
    Plain (.consume (.error cause) next) := by
  refine plain_of_cause rfl ?_
  rintro _ ⟨⟩
  exact h

theorem plain_inWord (w : Word) (missing : List UInt8) : Plain (s.inWord shown b w missing) := by
  cases missing with
  | nil => exact plain_stuck s rfl
  | cons expected missing =>
    rw [inWord]
    split
    · exact plain_stuck s rfl
    · split
      · refine plain_ok ?_ _
        cases w <;> decide
      · exact plain_shift _

theorem plain_inNumber (phase : NumberPhase) (text : Array UInt8) :
    Plain (s.inNumber shown b phase text) := by
  rw [inNumber]
  split
  · exact plain_shift _
  · split
    · split
      next token htoken =>
        refine plain_of_token rfl ?_
        rintro _ ⟨⟩ x rfl
        rw [Numeral.token] at htoken
        split at htoken
        · split at htoken <;> cases htoken
        · cases htoken
          exact ⟨_, rfl⟩
      next cause hcause =>
        refine plain_of_cause rfl ?_
        rintro _ ⟨⟩
        have hloses := losesLiteral_of_numeral hcause
        cases cause <;> first | rfl | cases hloses
    · exact plain_stuck s rfl

theorem plain_inText (bytes : Array UInt8) (high : Option Nat) :
    Plain (s.inText b bytes high) := by
  unfold inText
  split
  · exact plain_shift _
  · split
    · exact plain_stuck s rfl
    · split
      · rw [closeText]
        split
        · exact plain_error rfl _
        · refine plain_ok ?_ _
          split <;> rintro ⟨⟩
      · split
        · exact plain_stuck s rfl
        · exact plain_shift _

theorem plain_inEscape (bytes : Array UInt8) (high : Option Nat) :
    Plain (s.inEscape b bytes high) := by
  unfold inEscape
  split
  · exact plain_shift _
  · split
    · exact plain_stuck s rfl
    · split
      · exact plain_shift _
      · exact plain_stuck s rfl

theorem plain_inCodeUnit (bytes : Array UInt8) (high : Option Nat) (value count : Nat) :
    Plain (s.inCodeUnit shown b bytes high value count) := by
  unfold inCodeUnit
  split
  · exact plain_stuck s rfl
  · split
    · exact plain_shift _
    · unfold closeCodeUnit
      split
      · split
        · exact plain_shift _
        · exact plain_error rfl _
      · split
        · exact plain_shift _
        · split
          · exact plain_error rfl _
          · exact plain_shift _

/-- One step with a limit and with room for more: the same, or that of a bracket that opens a
container. -/
inductive Bounded (limit room : Nat) (s : Scanner) (b : UInt8) : Step → Step → Prop where
  | plain {step : Step} (h : Plain step) : Bounded limit room s b step step
  | opens {token : Token} (opening : Opening b token) (frame : Frame) :
    Bounded limit room s b (s.openContainer limit token frame) (s.openContainer room token frame)

theorem bounded_beginValue {lead : Lead} (hb : Lead.ofByte b = lead) :
    Bounded limit room s b (s.beginValue limit shown b lead) (s.beginValue room shown b lead) := by
  cases lead with
  | openObject =>
    obtain rfl : b = Ascii.openBrace := Lead.eq_of_byte? hb rfl
    exact .opens .object _
  | openArray =>
    obtain rfl : b = Ascii.openBracket := Lead.eq_of_byte? hb rfl
    exact .opens .array _
  | quote | word w | number phase => exact .plain (plain_shift _)
  | _ => exact .plain (plain_stuck s rfl)

theorem bounded_atRoot {lead : Lead} (hb : Lead.ofByte b = lead) :
    Bounded limit room s b (s.atRoot limit shown b lead) (s.atRoot room shown b lead) := by
  have hbegins : Bounded limit room s b (s.beginValue limit shown b lead)
      (s.beginValue room shown b lead) := bounded_beginValue hb
  cases lead with
  | closeObject | closeArray => exact .plain (plain_ok (by decide) s)
  | _ => exact hbegins

theorem bounded_inArray (outer : List Frame) (phase : ArrayPhase) {lead : Lead}
    (hb : Lead.ofByte b = lead) :
    Bounded limit room s b (s.inArray limit shown b outer phase lead)
      (s.inArray room shown b outer phase lead) := by
  have hbegins : Bounded limit room s b (s.beginValue limit shown b lead)
      (s.beginValue room shown b lead) := bounded_beginValue hb
  cases phase with
  | first =>
    cases lead with
    | closeArray => exact .plain (plain_ok (by decide) _)
    | _ => exact hbegins
  | item => exact hbegins
  | separator =>
    cases lead with
    | closeArray => exact .plain (plain_ok (by decide) _)
    | comma => exact .plain (plain_shift _)
    | _ => exact .plain (plain_stuck s rfl)

theorem bounded_inObject (outer : List Frame) (phase : ObjectPhase) {lead : Lead}
    (hb : Lead.ofByte b = lead) :
    Bounded limit room s b (s.inObject limit shown b outer phase lead)
      (s.inObject room shown b outer phase lead) := by
  cases phase with
  | value => exact bounded_beginValue hb
  | first =>
    cases lead with
    | quote => exact .plain (plain_shift _)
    | closeObject => exact .plain (plain_ok (by decide) _)
    | _ => exact .plain (plain_stuck s rfl)
  | name =>
    cases lead with
    | quote => exact .plain (plain_shift _)
    | _ => exact .plain (plain_stuck s rfl)
  | colon =>
    cases lead with
    | colon => exact .plain (plain_shift _)
    | _ => exact .plain (plain_stuck s rfl)
  | separator =>
    cases lead with
    | comma => exact .plain (plain_shift _)
    | closeObject => exact .plain (plain_ok (by decide) _)
    | _ => exact .plain (plain_stuck s rfl)

theorem bounded_between :
    Bounded limit room s b (s.between limit shown b) (s.between room shown b) := by
  rw [between, between]
  cases hb : Lead.ofByte b with
  | blank => exact .plain (plain_shift s)
  | _ =>
    dsimp only
    cases s.frames with
    | nil => exact bounded_atRoot hb
    | cons frame outer =>
      cases frame with
      | array phase => exact bounded_inArray outer phase hb
      | object phase => exact bounded_inObject outer phase hb

/-- The limit matters to brackets that open containers only. -/
theorem bounded_step (limit room : Nat) (shown : List UInt8) (s : Scanner) (b : UInt8) :
    Bounded limit room s b (s.step limit shown b) (s.step room shown b) := by
  rw [step, step]
  cases s.lexeme with
  | between => exact bounded_between
  | word w missing => exact .plain (plain_inWord w missing)
  | number phase text => exact .plain (plain_inNumber phase text)
  | text bytes high => exact .plain (plain_inText bytes high)
  | escape bytes high => exact .plain (plain_inEscape bytes high)
  | codeUnit bytes high value count => exact .plain (plain_inCodeUnit bytes high value count)

/-- A floating-point number that a byte completes is the one nearest to a literal. -/
theorem rounded_of_step {token : Token} (h : (s.step limit shown b).token? = some token) :
    token.Rounded := by
  have hbounded := bounded_step limit limit shown s b
  generalize s.step limit shown b = step at hbounded h
  cases hbounded with
  | plain hplain => exact hplain.1 token h
  | opens opening frame =>
    rw [openContainer] at h
    split at h
    · cases h
    · cases h
      apply Token.rounded_of_kind
      cases opening <;> decide

/-- With more room a step is the same, unless it refuses to open a container. -/
theorem step_room (hroom : limit < room) :
    (s.step room shown b = s.step limit shown b ∧
      ∀ cause ∈ (s.step limit shown b).cause?, cause.isDepth = false) ∨
    ∃ token next, Opening b token ∧ limit ≤ s.frames.length ∧
      s.step limit shown b = s.stuck (.depthLimitExceeded limit) ∧
      (s.frames.length < room → s.step room shown b = .consume (.ok token) next) := by
  have hbounded := bounded_step limit room shown s b
  generalize s.step limit shown b = step at hbounded
  generalize s.step room shown b = step' at hbounded
  cases hbounded with
  | plain hplain => exact .inl ⟨rfl, hplain.2⟩
  | @opens token opening frame =>
    by_cases hfull : limit ≤ s.frames.length
    · refine .inr ⟨token, { s with frames := frame :: s.frames }, opening, hfull, ?_, ?_⟩
      · exact if_pos hfull
      · exact fun hfits => if_neg (Nat.not_le.mpr hfits)
    · have hfits : ¬room ≤ s.frames.length := by omega
      refine .inl ⟨?_, ?_⟩
      · rw [openContainer, openContainer, if_neg hfull, if_neg hfits]
      · rw [openContainer, if_neg hfull]
        rintro _ ⟨⟩

/-- With more room a step without a fault is the same. -/
theorem step_room_of_eq (hroom : limit < room) {step : Step} (h : s.step limit shown b = step)
    (hcause : step.cause? = none) : s.step room shown b = step := by
  rcases step_room hroom with ⟨hsame, -⟩ | ⟨token, next, -, -, hstuck, -⟩
  · exact hsame.trans h
  · rw [← h, hstuck] at hcause
    cases hcause

/-! ## Containers -/

section

variable {next : Scanner} {token : Token}

theorem turnsBy_of_step {step : Step} (h : s.step limit shown b = step) : s.TurnsBy limit step :=
  h ▸ turns_step limit shown s b

theorem map_closing_of_shift (h : s.step limit shown b = .shift next) :
    next.frames.map Frame.closing = s.frames.map Frame.closing :=
  (turnsBy_of_step h).map_closing

theorem map_closing_of_consume (h : s.step limit shown b = .consume (.ok token) next) :
    next.frames.map Frame.closing = token.closingAfter (s.frames.map Frame.closing) :=
  (turnsBy_of_step h).map_closing

theorem map_closing_of_leave (h : s.step limit shown b = .leave (.ok token) next) :
    next.frames.map Frame.closing = token.closingAfter (s.frames.map Frame.closing) :=
  (turnsBy_of_step h).map_closing

/-- No step leaves more containers open than are allowed. -/
theorem length_frames_le_of_step {step : Step} (h : s.step limit shown b = step)
    (hs : s.frames.length ≤ limit) : step.next.frames.length ≤ limit :=
  (turnsBy_of_step h).length_le hs

end

/-! ## Texts without a fault -/

section

variable {last : Scanner} {bytes : List UInt8} {tokens : List Token}

/-- A text that is read without a fault is read so with more room. -/
theorem Reads.widen (h : Reads limit s bytes tokens last) (hroom : limit < room) :
    Reads room s bytes tokens last := by
  induction h with
  | done s => exact .done s
  | shift hstep _ ih => exact .shift (step_room_of_eq hroom hstep rfl) ih
  | consume hstep _ ih => exact .consume (step_room_of_eq hroom hstep rfl) ih
  | leave hstep _ ih => exact .leave (step_room_of_eq hroom hstep rfl) ih

/-- The open containers are those that the tokens have opened and not closed. -/
theorem Reads.map_closing (h : Reads limit s bytes tokens last) :
    last.frames.map Frame.closing =
      tokens.foldl Token.closingAfter (s.frames.map Frame.closing) := by
  induction h with
  | done s => rfl
  | shift hstep _ ih => rw [ih, map_closing_of_shift hstep]
  | consume hstep _ ih => rw [ih, map_closing_of_consume hstep, List.foldl_cons]
  | leave hstep _ ih => rw [ih, map_closing_of_leave hstep, List.foldl_cons]

theorem Reads.length_frames_le (h : Reads limit s bytes tokens last)
    (hs : s.frames.length ≤ limit) : last.frames.length ≤ limit := by
  induction h with
  | done s => exact hs
  | shift hstep _ ih => exact ih (length_frames_le_of_step hstep hs)
  | consume hstep _ ih => exact ih (length_frames_le_of_step hstep hs)
  | leave hstep _ ih => exact ih (length_frames_le_of_step hstep hs)

end

end Scanner

namespace Lexer

variable {l : Lexer} {room : Nat}

/-! ## A text -/

/-- The lexer with another limit. -/
def allowing (l : Lexer) (room : Nat) : Lexer :=
  { l with depthLimit := room }

/-- The readings of a text with a limit, `r`, and with room for more, `r'`: the same, or the first
stops at the bracket that opens a container beyond the limit. -/
inductive Bounded (room : Nat) (l : Lexer) (bytes : List UInt8) :
    Reading Lexer → Reading Lexer → Prop where
  | within {r : Reading Lexer}
    (faults : ∀ fault, r.rest = .error fault → fault.cause.isDepth = false) :
    Bounded room l bytes r ⟨r.tokens, r.rest.map (·.allowing room)⟩
  | exceeded {ts : List PlacedToken} {r' : Reading Lexer} {read after : List UInt8}
    {bracket : UInt8} {token : Token} {last : Scanner}
    (text : bytes = read ++ bracket :: after) (opening : Opening bracket token)
    (settled : ∃ us mid, Scanner.Reads l.depthLimit l.scanner read us mid)
    (reads : Scanner.Reads room l.scanner (read ++ [bracket])
      (ts.map PlacedToken.token ++ [token]) last)
    (full : l.depthLimit ≤ ((ts.map PlacedToken.token).foldl Token.closingAfter
      (l.scanner.frames.map Frame.closing)).length)
    (before : ts <+: r'.tokens) :
    Bounded room l bytes
      ⟨ts, .error ⟨.depthLimitExceeded l.depthLimit, l.location.pastAll read⟩⟩ r'

section

variable {b : UInt8} {rest : List UInt8} {next : Scanner} {token : Token} {r r' : Reading Lexer}

theorem Bounded.shift (hstep : l.scanner.step l.depthLimit [] b = .shift next)
    (hstep' : l.scanner.step room [] b = .shift next) (h : Bounded room (l.past b next) rest r r') :
    Bounded room l (b :: rest) r r' := by
  have hsame := Scanner.map_closing_of_shift hstep
  cases h with
  | within faults => exact .within faults
  | exceeded text opening settled reads full before =>
    obtain ⟨us, mid, hsettled⟩ := settled
    refine .exceeded (congrArg (b :: ·) text) opening ⟨us, mid, .shift hstep hsettled⟩
      (.shift hstep' reads) ?_ before
    rw [← hsame]
    exact full

/-- A token in front, with the byte that it takes. -/
theorem Bounded.consume (hstep : l.scanner.step l.depthLimit [] b = .consume (.ok token) next)
    (hstep' : l.scanner.step room [] b = .consume (.ok token) next) (place : Location)
    (h : Bounded room (l.past b next) rest r r') :
    Bounded room l (b :: rest) (r.prepend [⟨token, place⟩]) (r'.prepend [⟨token, place⟩]) := by
  have hmoved := Scanner.map_closing_of_consume hstep
  cases h with
  | within faults => exact .within (r := r.prepend _) faults
  | exceeded text opening settled reads full before =>
    obtain ⟨us, mid, hsettled⟩ := settled
    refine .exceeded (congrArg (b :: ·) text) opening ⟨token :: us, mid, .consume hstep hsettled⟩
      (.consume hstep' reads) ?_ (List.prefix_append_right_inj [_] |>.mpr before)
    show _ ≤ (List.foldl _ (token.closingAfter _) _).length
    rw [← hmoved]
    exact full

/-- A token in front, before the byte that ends it. -/
theorem Bounded.leave (hstep : l.scanner.step l.depthLimit [] b = .leave (.ok token) next)
    (hstep' : l.scanner.step room [] b = .leave (.ok token) next) (place : Location)
    (h : Bounded room (l.withScanner next) (b :: rest) r r') :
    Bounded room l (b :: rest) (r.prepend [⟨token, place⟩]) (r'.prepend [⟨token, place⟩]) := by
  have hmoved := Scanner.map_closing_of_leave hstep
  cases h with
  | within faults => exact .within (r := r.prepend _) faults
  | @exceeded ts _ read after bracket opens last text opening settled reads full before =>
    obtain ⟨us, mid, hsettled⟩ := settled
    have hfull : l.depthLimit ≤ ((token :: ts.map PlacedToken.token).foldl Token.closingAfter
        (l.scanner.frames.map Frame.closing)).length := by
      rw [List.foldl_cons, ← hmoved]
      exact full
    have hbefore : ⟨token, place⟩ :: ts <+: (r'.prepend [⟨token, place⟩]).tokens :=
      List.prefix_append_right_inj [_] |>.mpr before
    cases read with
    | nil =>
      obtain ⟨rfl, rfl⟩ := List.cons.inj text
      exact .exceeded text opening ⟨[], l.scanner, .done _⟩ (.leave hstep' reads) hfull hbefore
    | cons first read =>
      obtain ⟨rfl, rfl⟩ := List.cons.inj text
      exact .exceeded text opening ⟨token :: us, mid, .leave hstep hsettled⟩ (.leave hstep' reads)
        hfull hbefore

end

/-- A text is read alike with more room, up to the first bracket that opens a container beyond the
limit. -/
theorem bounded_readBytes (l : Lexer) (bytes : List UInt8)
    (hwithin : l.scanner.frames.length ≤ l.depthLimit) (hroom : l.depthLimit < room) :
    Bounded room l bytes (l.readBytes bytes) ((l.allowing room).readBytes bytes) := by
  fun_induction readBytes l bytes with
  | case1 l =>
    rw [readBytes_nil]
    refine .within fun fault hfault => ?_
    cases hfault
  | case2 l b rest next hstep ih =>
    have hstep' := Scanner.step_room_of_eq hroom hstep rfl
    rw [readBytes_shift (l := l.allowing room) hstep']
    have hrest := ih (Scanner.length_frames_le_of_step hstep hwithin) hroom
    exact hrest.shift ((Scanner.step_shift_iff ..).mp hstep) ((Scanner.step_shift_iff ..).mp hstep')
  | case3 l b rest token next hstep ih =>
    have hstep' := Scanner.step_room_of_eq hroom hstep rfl
    rw [readBytes_consume_token (l := l.allowing room) hstep']
    have hrest := ih (Scanner.length_frames_le_of_step hstep hwithin) hroom
    exact hrest.consume ((Scanner.step_consume_iff ..).mp hstep)
      ((Scanner.step_consume_iff ..).mp hstep') _
  | case5 l b rest token next hstep ih =>
    have hstep' := Scanner.step_room_of_eq hroom hstep rfl
    rw [readBytes_leave_token (l := l.allowing room) hstep']
    have hrest := ih (Scanner.length_frames_le_of_step hstep hwithin) hroom
    exact hrest.leave ((Scanner.step_leave_iff ..).mp hstep)
      ((Scanner.step_leave_iff ..).mp hstep') _
  | case4 l b rest cause next hstep =>
    rcases Scanner.step_room hroom with ⟨hsame, hplain⟩ | ⟨token, opened, -, -, hstuck, -⟩
    · rw [hstep] at hsame hplain
      rw [readBytes_consume_fault (l := l.allowing room) hsame]
      refine .within fun fault hfault => ?_
      cases hfault
      exact hplain cause rfl
    · cases hstep.symm.trans hstuck
  | case6 l b rest cause next hstep =>
    rcases Scanner.step_room hroom with
      ⟨hsame, hplain⟩ | ⟨token, opened, opening, hfull, hstuck, hopens⟩
    · rw [hstep] at hsame hplain
      rw [readBytes_leave_fault (l := l.allowing room) hsame]
      refine .within fun fault hfault => ?_
      cases hfault
      exact hplain cause rfl
    · cases hstep.symm.trans hstuck
      have hstep' := hopens (Nat.lt_of_le_of_lt hwithin hroom)
      have hnothing : b :: rest = [] ++ b :: rest := rfl
      refine .exceeded hnothing opening ⟨[], l.scanner, .done _⟩
        (.consume ((Scanner.step_consume_iff ..).mp hstep') (.done _)) ?_ (List.nil_prefix)
      rw [List.map_nil, List.foldl_nil, List.length_map]
      exact hfull

/-- The tokens of a text never leave more containers open than are allowed. -/
theorem staysWithin_readBytes (l : Lexer) (h : l.scanner.frames.length ≤ l.depthLimit)
    (bytes : List UInt8) :
    Token.StaysWithin l.depthLimit (l.scanner.frames.map Frame.closing)
      ((l.readBytes bytes).tokens.map PlacedToken.token) := by
  have hkinds {frames : List Frame} (hframes : frames.length ≤ l.depthLimit) :
      (frames.map Frame.closing).length ≤ l.depthLimit := by
    rwa [List.length_map]
  fun_induction readBytes l bytes with
  | case1 l => exact hkinds h
  | case2 l b rest next hstep ih =>
    rw [← Scanner.map_closing_of_shift hstep]
    exact ih (Scanner.length_frames_le_of_step hstep h) hkinds
  | case3 l b rest token next hstep ih =>
    refine ⟨hkinds h, ?_⟩
    rw [← Scanner.map_closing_of_consume hstep]
    exact ih (Scanner.length_frames_le_of_step hstep h) hkinds
  | case5 l b rest token next hstep ih =>
    refine ⟨hkinds h, ?_⟩
    rw [← Scanner.map_closing_of_leave hstep]
    exact ih (Scanner.length_frames_le_of_step hstep h) hkinds
  | case4 l b rest cause next hstep | case6 l b rest cause next hstep => exact hkinds h

/-- The floating-point numbers of a text are those nearest to literals. -/
theorem rounded_of_mem_readBytes (l : Lexer) (bytes : List UInt8) :
    ∀ t ∈ (l.readBytes bytes).tokens, t.token.Rounded := by
  fun_induction readBytes l bytes with
  | case1 l => exact fun t ht => (List.not_mem_nil ht).elim
  | case2 l b rest next hstep ih => exact ih
  | case3 l b rest token next hstep ih | case5 l b rest token next hstep ih =>
    intro t ht
    rcases List.mem_cons.mp ht with rfl | ht
    · have hfound : (l.scanner.step l.depthLimit (Utf8.leading (b :: rest)) b).token? =
          some token := by
        rw [hstep]
        rfl
      exact Scanner.rounded_of_step hfound
    · exact ih t ht
  | case4 l b rest cause next hstep | case6 l b rest cause next hstep =>
    exact fun t ht => (List.not_mem_nil ht).elim

end Lexer

end StreamingJson
