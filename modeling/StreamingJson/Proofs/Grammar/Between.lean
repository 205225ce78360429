import StreamingJson.Proofs.Grammar.Numbers
import StreamingJson.Proofs.Grammar.Strings
import StreamingJson.Value.Tokens

/-!
# Reading between tokens

What the scanner does between tokens: it passes blanks, begins a value where one may stand, and
elsewhere takes only the bytes that separate or close.

## Main definitions

- `Lead.opens` — whether a byte can begin a value
- `AwaitsValue` — the places where a value may stand

## Main statements

- `Scanner.reads_blank_iff` — blanks change nothing
- `Scanner.step_of_opens` — a byte that can begin a value begins one where one may stand
- `Scanner.start_of_reads` — what is read where a value may stand
- `Scanner.comma_or_close_of_reads_array`, `Scanner.comma_or_close_of_reads_object` — what is read
  after a value in a container
-/

namespace StreamingJson

/-! ## Bytes between tokens -/

namespace Lead

/-- Whether the byte can begin a value. -/
def opens : Lead → Bool
  | .openObject | .openArray | .quote | .word _ | .number _ => true
  | _ => false

/-- The byte that has a role, for a role that only one byte has. -/
def byte? : Lead → Option UInt8
  | .openObject => some Ascii.openBrace
  | .closeObject => some Ascii.closeBrace
  | .openArray => some Ascii.openBracket
  | .closeArray => some Ascii.closeBracket
  | .comma => some Ascii.comma
  | .colon => some Ascii.colon
  | .quote => some Ascii.quote
  | .word .true => some 0x74
  | .word .false => some 0x66
  | .word .null => some 0x6E
  | .blank | .number _ | .other => none

/-- A byte is a blank, or the only one with its role, or opens a number, or has no role. -/
theorem ofByte_cases (b : UInt8) :
    (Ascii.isBlank b = true ∧ ofByte b = .blank) ∨ (ofByte b).byte? = some b ∨
      (∃ phase, NumberPhase.opening b = some phase ∧ ofByte b = .number phase) ∨
      ofByte b = .other := by
  fun_cases ofByte b
  case case1 hblank => exact .inl ⟨hblank, rfl⟩
  case case12 phase hopening => exact .inr (.inr (.inl ⟨phase, hopening, rfl⟩))
  case case13 => exact .inr (.inr (.inr rfl))
  all_goals
    subst_vars
    exact .inr (.inl rfl)

theorem eq_of_byte? {b c : UInt8} {lead : Lead} (h : ofByte b = lead) (hc : lead.byte? = some c) :
    b = c := by
  subst h
  rcases ofByte_cases b with ⟨-, hlead⟩ | hbyte | ⟨phase, -, hlead⟩ | hlead
  · rw [hlead] at hc
    cases hc
  · exact Option.some.inj (hbyte.symm.trans hc)
  · rw [hlead] at hc
    cases hc
  · rw [hlead] at hc
    cases hc

theorem isBlank_of_ofByte {b : UInt8} (h : ofByte b = .blank) : Ascii.isBlank b = true := by
  rcases ofByte_cases b with ⟨hblank, -⟩ | hbyte | ⟨phase, -, hlead⟩ | hlead
  · exact hblank
  · rw [h] at hbyte
    cases hbyte
  · cases h.symm.trans hlead
  · cases h.symm.trans hlead

theorem opening_of_ofByte {b : UInt8} {phase : NumberPhase} (h : ofByte b = .number phase) :
    NumberPhase.opening b = some phase := by
  rcases ofByte_cases b with ⟨-, hlead⟩ | hbyte | ⟨first, hopening, hlead⟩ | hlead
  · cases h.symm.trans hlead
  · rw [h] at hbyte
    cases hbyte
  · cases h.symm.trans hlead
    exact hopening
  · cases h.symm.trans hlead

theorem ofByte_of_opening {b : UInt8} {phase : NumberPhase}
    (h : NumberPhase.opening b = some phase) : ofByte b = .number phase := by
  have hall : ∀ n : Fin 256, ∀ phase ∈ NumberPhase.opening (UInt8.ofNat n.val),
      ofByte (UInt8.ofNat n.val) = .number phase := by decide +kernel
  have hb := hall ⟨b.toNat, b.toNat_lt⟩ phase
  rw [UInt8.ofNat_toNat] at hb
  exact hb h

theorem ofByte_of_isBlank {b : UInt8} (h : Ascii.isBlank b = true) : ofByte b = .blank := by
  rw [ofByte, if_pos h]

/-- Whether a byte that is no blank may come next where the given containers are open. -/
def fits : List Frame → Lead → Bool
  | [], lead => lead.opens || lead == .closeArray || lead == .closeObject
  | .array .first :: _, lead => lead.opens || lead == .closeArray
  | .array .item :: _, lead => lead.opens
  | .array .separator :: _, lead => lead == .comma || lead == .closeArray
  | .object .first :: _, lead => lead == .quote || lead == .closeObject
  | .object .name :: _, lead => lead == .quote
  | .object .colon :: _, lead => lead == .colon
  | .object .value :: _, lead => lead.opens
  | .object .separator :: _, lead => lead == .comma || lead == .closeObject

end Lead

/-! ## Where a value may stand -/

/-- The open containers in which a value may come next. -/
inductive AwaitsValue : List Frame → Prop where
  | root : AwaitsValue []
  | first (outer : List Frame) : AwaitsValue (.array .first :: outer)
  | item (outer : List Frame) : AwaitsValue (.array .item :: outer)
  | value (outer : List Frame) : AwaitsValue (.object .value :: outer)

theorem AwaitsValue.array {phase : ArrayPhase} (h : phase = .first ∨ phase = .item)
    (outer : List Frame) : AwaitsValue (.array phase :: outer) := by
  rcases h with rfl | rfl
  · exact .first outer
  · exact .item outer

namespace Scanner

variable {limit : Nat} {frames outer : List Frame} {b : UInt8} {bytes rest : List UInt8}
  {token : Token} {tokens : List Token} {s last : Scanner}

theorem placeText_of_awaits (h : AwaitsValue frames) (text : String) :
    placeText text frames = (.string text, Frame.fill frames) := by
  cases h <;> rfl

theorem placeText_name {phase : ObjectPhase} (h : phase = .first ∨ phase = .name) (text : String) :
    placeText text (.object phase :: outer) = (.fieldName text, .object .colon :: outer) := by
  rcases h with rfl | rfl <;> rfl

/-! ### Blanks -/

theorem step_blank (h : Ascii.isBlank b = true) :
    step limit [] ⟨frames, .between⟩ b = .shift ⟨frames, .between⟩ := by
  simp [step, between, Lead.ofByte_of_isBlank h]

/-- Blanks change nothing. -/
theorem reads_blank_iff {blank : List UInt8} (h : Blank blank) :
    Reads limit ⟨frames, .between⟩ (blank ++ rest) tokens s ↔
      Reads limit ⟨frames, .between⟩ rest tokens s := by
  induction blank with
  | nil => exact Iff.rfl
  | cons b blank ih =>
    rw [List.cons_append, reads_shift_iff (step_blank (h b List.mem_cons_self))]
    exact ih fun c hc => h c (List.mem_cons_of_mem b hc)

/-- What is read between tokens begins with blanks and a byte that is none. -/
theorem lead_of_reads (h : Reads limit ⟨frames, .between⟩ bytes (token :: tokens) s) :
    ∃ blank b rest, bytes = blank ++ b :: rest ∧ Blank blank ∧ Ascii.isBlank b = false ∧
      Reads limit ⟨frames, .between⟩ (b :: rest) (token :: tokens) s := by
  induction bytes with
  | nil => cases (reads_nil_iff.mp h).1
  | cons b bytes ih =>
    by_cases hb : Ascii.isBlank b = true
    · rw [reads_shift_iff (step_blank hb)] at h
      obtain ⟨blank, c, rest, rfl, hblank, hc, hrest⟩ := ih h
      refine ⟨b :: blank, c, rest, rfl, ?_, hc, hrest⟩
      intro d hd
      rcases List.mem_cons.mp hd with rfl | hd
      · exact hb
      · exact hblank d hd
    · exact ⟨[], b, bytes, rfl, List.forall_mem_nil _, Bool.eq_false_iff.mpr hb, h⟩

/-! ### Words -/

theorem step_word {w : Word} {missing : List UInt8} (hmissing : missing ≠ []) :
    step limit [] ⟨frames, .word w (b :: missing)⟩ b = .shift ⟨frames, .word w missing⟩ := by
  simp [step, inWord, hmissing]

theorem step_word_end {w : Word} :
    step limit [] ⟨frames, .word w [b]⟩ b =
      .consume (.ok w.token) ⟨Frame.fill frames, .between⟩ := by
  simp [step, inWord]

theorem reads_word {w : Word} {missing : List UInt8} (hmissing : missing ≠ [])
    (h : Reads limit ⟨Frame.fill frames, .between⟩ rest tokens s) :
    Reads limit ⟨frames, .word w missing⟩ (missing ++ rest) (w.token :: tokens) s := by
  induction missing with
  | nil => exact absurd rfl hmissing
  | cons b missing ih =>
    cases missing with
    | nil => exact .consume step_word_end h
    | cons c missing =>
      exact .shift (step_word (List.cons_ne_nil c missing)) (ih (List.cons_ne_nil _ _))

/-- What is read from within a word begins with the rest of the word. -/
theorem word_of_reads {w : Word} {missing : List UInt8}
    (h : Reads limit ⟨frames, .word w missing⟩ bytes (token :: tokens) s) :
    ∃ rest, bytes = missing ++ rest ∧ token = w.token ∧
      Reads limit ⟨Frame.fill frames, .between⟩ rest tokens s := by
  induction missing generalizing bytes with
  | nil =>
    cases bytes with
    | nil => cases (reads_nil_iff.mp h).1
    | cons b bytes =>
      have hstep : step limit [] ⟨frames, .word w []⟩ b =
          stuck ⟨frames, .word w []⟩ (.invalidCharacter []) := rfl
      exact absurd h (not_reads_leave_fault hstep)
  | cons expected missing ih =>
    cases bytes with
    | nil => cases (reads_nil_iff.mp h).1
    | cons b bytes =>
      by_cases hb : b = expected
      · subst hb
        cases missing with
        | nil =>
          rw [reads_consume_iff step_word_end] at h
          obtain ⟨rfl, hrest⟩ := h
          exact ⟨bytes, rfl, rfl, hrest⟩
        | cons c missing =>
          rw [reads_shift_iff (step_word (List.cons_ne_nil c missing))] at h
          obtain ⟨rest, rfl, htoken, hrest⟩ := ih h
          exact ⟨rest, rfl, htoken, hrest⟩
      · have hstep : step limit [] ⟨frames, .word w (expected :: missing)⟩ b =
            stuck ⟨frames, .word w (expected :: missing)⟩ (.invalidCharacter []) := by
          simp [step, inWord, hb]
        exact absurd h (not_reads_leave_fault hstep)

/-! ### Other bytes -/

theorem step_of_not_fits (hb : Ascii.isBlank b = false)
    (hfits : Lead.fits frames (Lead.ofByte b) = false) :
    step limit [] ⟨frames, .between⟩ b = stuck ⟨frames, .between⟩ (.invalidCharacter []) := by
  have hblank : Lead.ofByte b ≠ .blank := by
    intro hlead
    rw [Lead.isBlank_of_ofByte hlead] at hb
    cases hb
  -- only the role of the byte matters
  unfold step between
  generalize Lead.ofByte b = lead at hblank hfits
  cases frames with
  | nil => cases lead <;> simp_all [Lead.fits, Lead.opens, atRoot, beginValue]
  | cons frame outer =>
    cases frame with
    | array phase =>
      cases phase <;> cases lead <;> simp_all [Lead.fits, Lead.opens, inArray, beginValue]
    | object phase =>
      cases phase <;> cases lead <;> simp_all [Lead.fits, Lead.opens, inObject, beginValue]

/-- What is read between tokens begins with blanks and a byte that fits. -/
theorem fitting_of_reads (h : Reads limit ⟨frames, .between⟩ bytes (token :: tokens) s) :
    ∃ blank b rest, bytes = blank ++ b :: rest ∧ Blank blank ∧
      Lead.fits frames (Lead.ofByte b) = true ∧
      Reads limit ⟨frames, .between⟩ (b :: rest) (token :: tokens) s := by
  obtain ⟨blank, b, rest, hbytes, hblank, hb, hrest⟩ := lead_of_reads h
  refine ⟨blank, b, rest, hbytes, hblank, ?_, hrest⟩
  cases hfits : Lead.fits frames (Lead.ofByte b) with
  | true => rfl
  | false => exact absurd hrest (not_reads_leave_fault (step_of_not_fits hb hfits))

theorem step_closeArray
    (h : frames = .array .first :: outer ∨ frames = .array .separator :: outer) :
    step limit [] ⟨frames, .between⟩ Ascii.closeBracket =
      .consume (.ok .endArray) ⟨Frame.fill outer, .between⟩ := by
  rcases h with rfl | rfl <;> rfl

theorem step_closeObject
    (h : frames = .object .first :: outer ∨ frames = .object .separator :: outer) :
    step limit [] ⟨frames, .between⟩ Ascii.closeBrace =
      .consume (.ok .endObject) ⟨Frame.fill outer, .between⟩ := by
  rcases h with rfl | rfl <;> rfl

theorem step_comma_array :
    step limit [] ⟨.array .separator :: outer, .between⟩ Ascii.comma =
      .shift ⟨.array .item :: outer, .between⟩ := rfl

theorem step_comma_object :
    step limit [] ⟨.object .separator :: outer, .between⟩ Ascii.comma =
      .shift ⟨.object .name :: outer, .between⟩ := rfl

theorem step_colon :
    step limit [] ⟨.object .colon :: outer, .between⟩ Ascii.colon =
      .shift ⟨.object .value :: outer, .between⟩ := rfl

theorem step_quote_name {phase : ObjectPhase} (h : phase = .first ∨ phase = .name) :
    step limit [] ⟨.object phase :: outer, .between⟩ Ascii.quote =
      .shift ⟨.object phase :: outer, .text #[] none⟩ := by
  rcases h with rfl | rfl <;> rfl

/-- What is read where only a comma or one closing bracket may come. -/
theorem separator_of_reads {frame next : Frame} {closing : UInt8} {role : Lead} {ending : Token}
    (hrole : role.byte? = some closing)
    (hfits : ∀ lead, Lead.fits (frame :: outer) lead = (lead == .comma || lead == role))
    (hcomma : step limit [] ⟨frame :: outer, .between⟩ Ascii.comma =
      .shift ⟨next :: outer, .between⟩)
    (hclose : step limit [] ⟨frame :: outer, .between⟩ closing =
      .consume (.ok ending) ⟨Frame.fill outer, .between⟩)
    (h : Reads limit ⟨frame :: outer, .between⟩ bytes (token :: tokens) s) :
    ∃ blank rest, Blank blank ∧
      ((bytes = blank ++ Ascii.comma :: rest ∧
          Reads limit ⟨next :: outer, .between⟩ rest (token :: tokens) s) ∨
        bytes = blank ++ closing :: rest ∧ token = ending ∧
          Reads limit ⟨Frame.fill outer, .between⟩ rest tokens s) := by
  obtain ⟨blank, b, rest, rfl, hblank, hb, hrest⟩ := fitting_of_reads h
  refine ⟨blank, rest, hblank, ?_⟩
  rw [hfits, Bool.or_eq_true, beq_iff_eq, beq_iff_eq] at hb
  rcases hb with hlead | hlead
  · obtain rfl := Lead.eq_of_byte? hlead rfl
    rw [reads_shift_iff hcomma] at hrest
    exact .inl ⟨rfl, hrest⟩
  · obtain rfl := Lead.eq_of_byte? hlead hrole
    rw [reads_consume_iff hclose] at hrest
    exact .inr ⟨rfl, hrest⟩

theorem after_item_of_reads
    (h : Reads limit ⟨.array .separator :: outer, .between⟩ bytes (token :: tokens) s) :
    ∃ blank rest, Blank blank ∧
      ((bytes = blank ++ Ascii.comma :: rest ∧
          Reads limit ⟨.array .item :: outer, .between⟩ rest (token :: tokens) s) ∨
        bytes = blank ++ Ascii.closeBracket :: rest ∧ token = .endArray ∧
          Reads limit ⟨Frame.fill outer, .between⟩ rest tokens s) := by
  have hrole : Lead.closeArray.byte? = some Ascii.closeBracket := rfl
  exact separator_of_reads hrole (fun _ => rfl) step_comma_array (step_closeArray (.inr rfl)) h

theorem after_member_of_reads
    (h : Reads limit ⟨.object .separator :: outer, .between⟩ bytes (token :: tokens) s) :
    ∃ blank rest, Blank blank ∧
      ((bytes = blank ++ Ascii.comma :: rest ∧
          Reads limit ⟨.object .name :: outer, .between⟩ rest (token :: tokens) s) ∨
        bytes = blank ++ Ascii.closeBrace :: rest ∧ token = .endObject ∧
          Reads limit ⟨Frame.fill outer, .between⟩ rest tokens s) := by
  have hrole : Lead.closeObject.byte? = some Ascii.closeBrace := rfl
  exact separator_of_reads hrole (fun _ => rfl) step_comma_object (step_closeObject (.inr rfl)) h

theorem colon_of_reads
    (h : Reads limit ⟨.object .colon :: outer, .between⟩ bytes (token :: tokens) s) :
    ∃ blank rest, bytes = blank ++ Ascii.colon :: rest ∧ Blank blank ∧
      Reads limit ⟨.object .value :: outer, .between⟩ rest (token :: tokens) s := by
  obtain ⟨blank, b, rest, rfl, hblank, hfits, hrest⟩ := fitting_of_reads h
  simp only [Lead.fits, beq_iff_eq] at hfits
  obtain rfl := Lead.eq_of_byte? hfits rfl
  rw [reads_shift_iff step_colon] at hrest
  exact ⟨blank, rest, rfl, hblank, hrest⟩

/-! ### Values -/

/-- A byte that can begin a value begins one where one may stand. -/
theorem step_of_opens (h : AwaitsValue frames) {lead : Lead} (hlead : Lead.ofByte b = lead)
    (hopens : lead.opens = true) :
    step limit [] ⟨frames, .between⟩ b = beginValue limit [] ⟨frames, .between⟩ b lead := by
  subst hlead
  unfold step between
  generalize Lead.ofByte b = lead at hopens
  cases h <;> cases lead <;> first | rfl | cases hopens

theorem step_openArray (h : AwaitsValue frames) :
    step limit [] ⟨frames, .between⟩ Ascii.openBracket =
      openContainer limit ⟨frames, .between⟩ .startArray (.array .first) := by
  have hlead : Lead.ofByte Ascii.openBracket = .openArray := rfl
  exact step_of_opens h hlead rfl

theorem step_openObject (h : AwaitsValue frames) :
    step limit [] ⟨frames, .between⟩ Ascii.openBrace =
      openContainer limit ⟨frames, .between⟩ .startObject (.object .first) := by
  have hlead : Lead.ofByte Ascii.openBrace = .openObject := rfl
  exact step_of_opens h hlead rfl

theorem step_quote (h : AwaitsValue frames) :
    step limit [] ⟨frames, .between⟩ Ascii.quote = .shift ⟨frames, .text #[] none⟩ := by
  have hlead : Lead.ofByte Ascii.quote = .quote := rfl
  exact step_of_opens h hlead rfl

theorem step_word_first (h : AwaitsValue frames) {w : Word} (hlead : Lead.ofByte b = .word w) :
    step limit [] ⟨frames, .between⟩ b = .shift ⟨frames, .word w w.tail⟩ :=
  step_of_opens h hlead rfl

theorem step_number_first (h : AwaitsValue frames) {phase : NumberPhase}
    (hlead : Lead.ofByte b = .number phase) :
    step limit [] ⟨frames, .between⟩ b = .shift ⟨frames, .number phase #[b]⟩ :=
  step_of_opens h hlead rfl

theorem reads_open {opening : Token} {frame : Frame} (hroom : frames.length < limit)
    (hstep : step limit [] ⟨frames, .between⟩ b =
      openContainer limit ⟨frames, .between⟩ opening frame)
    (h : Reads limit ⟨frame :: frames, .between⟩ rest tokens s) :
    Reads limit ⟨frames, .between⟩ (b :: rest) (opening :: tokens) s := by
  rw [openContainer, if_neg (Nat.not_le.mpr hroom)] at hstep
  exact .consume hstep h

/-- An opening bracket is read only where there is room for a container. -/
theorem open_of_reads {opening : Token} {frame : Frame}
    (hstep : step limit [] ⟨frames, .between⟩ b =
      openContainer limit ⟨frames, .between⟩ opening frame)
    (h : Reads limit ⟨frames, .between⟩ (b :: rest) (token :: tokens) s) :
    token = opening ∧ frames.length < limit ∧
      Reads limit ⟨frame :: frames, .between⟩ rest tokens s := by
  rw [openContainer] at hstep
  by_cases hfull : limit ≤ frames.length
  · rw [if_pos hfull] at hstep
    exact absurd h (not_reads_leave_fault hstep)
  · rw [if_neg hfull] at hstep
    obtain ⟨htoken, hlater⟩ := (reads_consume_iff hstep).mp h
    exact ⟨htoken, Nat.not_le.mp hfull, hlater⟩

theorem value_of_number {n : Numeral} {isInteger : Bool} {text : List UInt8}
    (h : NumberText n isInteger text) (htoken : Numeral.token isInteger text = .ok token) :
    ∃ v, v.tokens = [token] ∧ ValueText v text := by
  rw [Numeral.token_of_numberText h] at htoken
  cases isInteger with
  | true =>
    rw [if_pos rfl] at htoken
    split at htoken
    next hrange =>
      cases htoken
      exact ⟨.int (Int64.ofInt n.toInt), rfl, .int h hrange⟩
    next => cases htoken
  | false =>
    cases htoken
    exact ⟨.float n.toBinary64, rfl, .float h⟩

/-- What is read where a value may stand, from a byte that can begin one: an opening bracket, or a
value without parts. -/
theorem start_of_reads (h : AwaitsValue frames) (hopens : (Lead.ofByte b).opens = true)
    (hreads : Reads limit ⟨frames, .between⟩ (b :: rest) (token :: tokens) s) :
    (b = Ascii.openBracket ∧ token = .startArray ∧ frames.length < limit ∧
        Reads limit ⟨.array .first :: frames, .between⟩ rest tokens s) ∨
      (b = Ascii.openBrace ∧ token = .startObject ∧ frames.length < limit ∧
        Reads limit ⟨.object .first :: frames, .between⟩ rest tokens s) ∨
      ∃ v text later, b :: rest = text ++ later ∧ v.tokens = [token] ∧ ValueText v text ∧
        Reads limit ⟨Frame.fill frames, .between⟩ later tokens s := by
  cases hlead : Lead.ofByte b with
  | openArray =>
    obtain rfl := Lead.eq_of_byte? hlead rfl
    obtain ⟨htoken, hroom, hlater⟩ := open_of_reads (step_openArray h) hreads
    exact .inl ⟨rfl, htoken, hroom, hlater⟩
  | openObject =>
    obtain rfl := Lead.eq_of_byte? hlead rfl
    obtain ⟨htoken, hroom, hlater⟩ := open_of_reads (step_openObject h) hreads
    exact .inr (.inl ⟨rfl, htoken, hroom, hlater⟩)
  | quote =>
    obtain rfl := Lead.eq_of_byte? hlead rfl
    rw [reads_shift_iff (step_quote h)] at hreads
    obtain ⟨chars, body, later, rfl, hstring, htoken, hlater⟩ := string_of_reads hreads
    rw [placeText_of_awaits h] at htoken hlater
    subst htoken
    exact .inr (.inr
      ⟨.string (String.ofList chars), _, later, by simp, rfl, .string hstring, hlater⟩)
  | word w =>
    rw [reads_shift_iff (step_word_first h hlead)] at hreads
    obtain ⟨later, rfl, rfl, hlater⟩ := word_of_reads hreads
    cases w with
    | true =>
      obtain rfl := Lead.eq_of_byte? hlead rfl
      exact .inr (.inr ⟨_, _, later, rfl, rfl, .true, hlater⟩)
    | false =>
      obtain rfl := Lead.eq_of_byte? hlead rfl
      exact .inr (.inr ⟨_, _, later, rfl, rfl, .false, hlater⟩)
    | null =>
      obtain rfl := Lead.eq_of_byte? hlead rfl
      exact .inr (.inr ⟨_, _, later, rfl, rfl, .null, hlater⟩)
  | number phase =>
    rw [reads_shift_iff (step_number_first h hlead)] at hreads
    obtain ⟨more, later, last, rfl, hrun, hcomplete, htoken, hlater⟩ := number_of_reads hreads
    obtain ⟨n, hnumber⟩ :=
      NumberPhase.numberText_of_reach (Lead.opening_of_ofByte hlead) hrun hcomplete
    obtain ⟨v, hv, htext⟩ := value_of_number hnumber htoken
    exact .inr (.inr ⟨v, _, later, rfl, hv, htext, hlater⟩)
  | _ =>
    rw [hlead] at hopens
    cases hopens

/-- Where a value may stand and a token is read that closes nothing, a value begins. -/
theorem value_start_of_reads (h : AwaitsValue frames) (harray : token ≠ .endArray)
    (hobject : token ≠ .endObject)
    (hreads : Reads limit ⟨frames, .between⟩ bytes (token :: tokens) s) :
    ∃ blank b rest, bytes = blank ++ b :: rest ∧ Blank blank ∧ (Lead.ofByte b).opens = true ∧
      Reads limit ⟨frames, .between⟩ (b :: rest) (token :: tokens) s := by
  obtain ⟨blank, b, rest, hbytes, hblank, hfits, hrest⟩ := fitting_of_reads hreads
  refine ⟨blank, b, rest, hbytes, hblank, ?_, hrest⟩
  -- outside containers and in an empty array brackets may close as well
  have hclosing {closing : Token} {next : Scanner}
      (hstep : step limit [] ⟨frames, .between⟩ b = .consume (.ok closing) next) :
      token = closing :=
    ((reads_consume_iff hstep).mp hrest).1
  cases h with
  | root =>
    simp only [Lead.fits, Bool.or_eq_true, beq_iff_eq] at hfits
    rcases hfits with (hopens | hlead) | hlead
    · exact hopens
    · obtain rfl := Lead.eq_of_byte? hlead rfl
      exact absurd (hclosing rfl) harray
    · obtain rfl := Lead.eq_of_byte? hlead rfl
      exact absurd (hclosing rfl) hobject
  | first outer =>
    simp only [Lead.fits, Bool.or_eq_true, beq_iff_eq] at hfits
    rcases hfits with hopens | hlead
    · exact hopens
    · obtain rfl := Lead.eq_of_byte? hlead rfl
      exact absurd (hclosing rfl) harray
  | item outer => exact hfits
  | value outer => exact hfits

/-- Where an item may stand, only an empty array is closed. -/
theorem endArray_of_reads {phase : ArrayPhase} (hphase : phase = .first ∨ phase = .item)
    (h : Reads limit ⟨.array phase :: outer, .between⟩ bytes (.endArray :: tokens) s) :
    ∃ blank rest, bytes = blank ++ Ascii.closeBracket :: rest ∧ Blank blank ∧ phase = .first ∧
      Reads limit ⟨Frame.fill outer, .between⟩ rest tokens s := by
  obtain ⟨blank, b, rest, rfl, hblank, hfits, hrest⟩ := fitting_of_reads h
  -- what begins a value is read to another token
  have hcloses : ¬(Lead.ofByte b).opens = true := by
    intro hopens
    rcases start_of_reads (.array hphase outer) hopens hrest with
      ⟨-, htoken, -⟩ | ⟨-, htoken, -⟩ | ⟨v, -, -, -, htoken, -⟩
    · cases htoken
    · cases htoken
    · cases v <;> simp [Value.tokens] at htoken
  rcases hphase with rfl | rfl
  · simp only [Lead.fits, Bool.or_eq_true, beq_iff_eq] at hfits
    obtain rfl := Lead.eq_of_byte? (hfits.resolve_left hcloses) rfl
    obtain ⟨-, hlater⟩ := (reads_consume_iff (step_closeArray (.inl rfl))).mp hrest
    exact ⟨blank, rest, rfl, hblank, rfl, hlater⟩
  · exact absurd hfits hcloses

/-- Where a name may stand, a name is read or an empty object is closed. -/
theorem name_or_end_of_reads {phase : ObjectPhase} (hphase : phase = .first ∨ phase = .name)
    (h : Reads limit ⟨.object phase :: outer, .between⟩ bytes (token :: tokens) s) :
    ∃ blank rest, Blank blank ∧
      ((∃ chars body, bytes = blank ++ Ascii.quote :: (body ++ Ascii.quote :: rest) ∧
          StringText chars body ∧ token = .fieldName (String.ofList chars) ∧
          Reads limit ⟨.object .colon :: outer, .between⟩ rest tokens s) ∨
        bytes = blank ++ Ascii.closeBrace :: rest ∧ token = .endObject ∧ phase = .first ∧
          Reads limit ⟨Frame.fill outer, .between⟩ rest tokens s) := by
  obtain ⟨blank, b, rest, rfl, hblank, hfits, hrest⟩ := fitting_of_reads h
  have hcases : Lead.ofByte b = .quote ∨ (Lead.ofByte b = .closeObject ∧ phase = .first) := by
    rcases hphase with rfl | rfl
    · simpa [Lead.fits] using hfits
    · exact .inl (by simpa [Lead.fits] using hfits)
  rcases hcases with hlead | ⟨hlead, rfl⟩
  · obtain rfl := Lead.eq_of_byte? hlead rfl
    rw [reads_shift_iff (step_quote_name hphase)] at hrest
    obtain ⟨chars, body, later, rfl, hstring, htoken, hlater⟩ := string_of_reads hrest
    rw [placeText_name hphase] at htoken hlater
    exact ⟨blank, later, hblank, .inl ⟨chars, body, rfl, hstring, htoken, hlater⟩⟩
  · obtain rfl := Lead.eq_of_byte? hlead rfl
    rw [reads_consume_iff (step_closeObject (.inl rfl))] at hrest
    obtain ⟨rfl, hlater⟩ := hrest
    exact ⟨blank, rest, hblank, .inr ⟨rfl, rfl, rfl, hlater⟩⟩

/-! ### No token -/

/-- A token that is begun stays begun as long as no token is complete. -/
theorem lexeme_of_shift {next : Scanner} (h : s.lexeme ≠ .between)
    (hstep : s.step limit [] b = .shift next) : next.lexeme ≠ .between := by
  obtain ⟨frames, lexeme⟩ := s
  cases lexeme with
  | between => exact absurd rfl h
  | word w missing =>
    cases missing with
    | nil => cases hstep
    | cons expected missing =>
      simp only [step, inWord] at hstep
      split at hstep
      · cases hstep
      · split at hstep <;> cases hstep
        exact Lexeme.noConfusion
  | number phase text =>
    simp only [step, inNumber] at hstep
    split at hstep
    · cases hstep
      exact Lexeme.noConfusion
    · split at hstep
      · split at hstep <;> cases hstep
      · cases hstep
  | text acc high =>
    simp only [step, inText] at hstep
    split at hstep
    · cases hstep
      exact Lexeme.noConfusion
    · cases high with
      | some unit => cases hstep
      | none =>
        simp only [closeText] at hstep
        split at hstep
        · split at hstep <;> cases hstep
        · split at hstep <;> cases hstep
          exact Lexeme.noConfusion
  | escape acc high =>
    simp only [step, inEscape] at hstep
    split at hstep
    · cases hstep
      exact Lexeme.noConfusion
    · cases high with
      | some unit => cases hstep
      | none =>
        simp only at hstep
        split at hstep <;> cases hstep
        exact Lexeme.noConfusion
  | codeUnit acc high value count =>
    simp only [step, inCodeUnit] at hstep
    split at hstep
    · cases hstep
    · split at hstep
      · cases hstep
        exact Lexeme.noConfusion
      · rcases closeCodeUnit_cases ⟨frames, .codeUnit acc high value count⟩ acc high _ with
          ⟨acc', high', hclose⟩ | ⟨cause, next', hclose⟩
        · cases hclose.symm.trans hstep
          exact Lexeme.noConfusion
        · cases hclose.symm.trans hstep

theorem lexeme_of_reads (h : Reads limit s bytes [] last) (hs : s.lexeme ≠ .between) :
    last.lexeme ≠ .between := by
  induction bytes generalizing s with
  | nil =>
    obtain ⟨-, rfl⟩ := reads_nil_iff.mp h
    exact hs
  | cons b bytes ih =>
    cases h with
    | shift hstep hrest => exact ih hrest (lexeme_of_shift hs hstep)

/-- Outside containers a byte that completes no token begins one, unless it is a blank. -/
theorem begun_of_shift {next : Scanner} (hb : Ascii.isBlank b = false)
    (hstep : step limit [] ⟨[], .between⟩ b = .shift next) : next.lexeme ≠ .between := by
  cases hfits : Lead.fits [] (Lead.ofByte b) with
  | false => cases (step_of_not_fits hb hfits).symm.trans hstep
  | true =>
    simp only [Lead.fits, Bool.or_eq_true, beq_iff_eq] at hfits
    rcases hfits with (hopens | hlead) | hlead
    · -- brackets complete a token at once
      rw [step_of_opens .root rfl hopens] at hstep
      cases hlead : Lead.ofByte b with rw [hlead] at hstep hopens
      | openObject | openArray =>
        simp only [beginValue, openContainer] at hstep
        split at hstep <;> cases hstep
      | quote | word | number =>
        cases hstep
        exact Lexeme.noConfusion
      | _ => cases hopens
    · obtain rfl := Lead.eq_of_byte? hlead rfl
      cases hstep
    · obtain rfl := Lead.eq_of_byte? hlead rfl
      cases hstep

/-- Outside containers only blanks are read to nothing at all. -/
theorem blank_of_reads (h : Reads limit ⟨[], .between⟩ bytes [] ⟨[], .between⟩) : Blank bytes := by
  induction bytes with
  | nil => exact List.forall_mem_nil _
  | cons b bytes ih =>
    by_cases hb : Ascii.isBlank b = true
    · rw [reads_shift_iff (step_blank hb)] at h
      exact List.forall_mem_cons.mpr ⟨hb, ih h⟩
    · cases h with
      | shift hstep hrest =>
        have hbegun := begun_of_shift (Bool.eq_false_iff.mpr hb) hstep
        exact absurd rfl (lexeme_of_reads hrest hbegun)

end Scanner

end StreamingJson
