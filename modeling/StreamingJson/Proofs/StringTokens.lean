import StreamingJson.Proofs.Grammar.Between
import StreamingJson.Proofs.Grammar.Spelling
import StreamingJson.Proofs.Lexer.Seeking

/-!
# Which string is read

Behind an opening quote the lexer takes a spelling up to a closing quote, and answers with what it
spells if all its runs are UTF-8. Anything else it answers with the first violation, and what is
neither closed nor violated leaves it waiting for more.

## Main definitions

- `TextPlace` — where a string may stand, and which token it is there
- `Scanner.Refuses` — the bytes that a scanner takes up to a fault
- `Lexer.Sought.IsString` — what a lexer should answer to a text behind an opening quote

## Main statements

- `Scanner.refuses_of_violation` — a violation is found where it shows
- `Scanner.spelling_cases` — a text is closed, violated or unfinished
- `Lexer.seek_string` — what is read behind an opening quote, in whatever chunks
-/

namespace StreamingJson

/-- The open containers in which a string may come next, and the token that it is there. -/
inductive TextPlace : List Frame → (String → Token) → Prop where
  | value {frames : List Frame} (h : AwaitsValue frames) : TextPlace frames .string
  | firstName (outer : List Frame) : TextPlace (.object .first :: outer) .fieldName
  | name (outer : List Frame) : TextPlace (.object .name :: outer) .fieldName

theorem TextPlace.placeText_fst {frames : List Frame} {place : String → Token}
    (h : TextPlace frames place) (content : String) :
    (Scanner.placeText content frames).1 = place content := by
  cases h with
  | value h => rw [Scanner.placeText_of_awaits h]
  | firstName outer => rfl
  | name outer => rfl

namespace Scanner

variable {limit : Nat} {frames : List Frame} {s mid : Scanner}

/-! ### Faults -/

/-- A scanner takes bytes up to a fault, which the last of them shows or else the byte refused. -/
inductive Refuses (limit : Nat) (s : Scanner) : List UInt8 → List UInt8 → LexicalError → Prop where
  | leave {taken : List UInt8} {b : UInt8} {cause : LexicalError} {last next : Scanner}
    (h : Reads limit s taken [] last) (hstep : last.step limit [] b = .leave (.error cause) next) :
    Refuses limit s taken [b] cause
  | consume {taken : List UInt8} {b : UInt8} {cause : LexicalError} {last next : Scanner}
    (h : Reads limit s taken [] last) (hstep : last.step limit [] b = .consume (.error cause) next)
    (plain : ∀ shown, cause.quoting shown = cause) : Refuses limit s (taken ++ [b]) [] cause

theorem Refuses.of_reads {xs taken refused : List UInt8} {cause : LexicalError}
    (h : Reads limit s xs [] mid) (hmid : Refuses limit mid taken refused cause) :
    Refuses limit s (xs ++ taken) refused cause := by
  cases hmid with
  | leave h' hstep => exact .leave (h.append h') hstep
  | consume h' hstep plain =>
    rw [← List.append_assoc]
    exact .consume (h.append h') hstep plain

section

variable {acc : Array UInt8} {high : Option Nat} {value count : Nat}

/-! ### Code units -/

/-- Fewer than four digits wait for more. -/
theorem reads_digits {digits : List UInt8} (h : ∀ d ∈ digits, Ascii.hexValue? d ≠ none)
    (hcount : count + digits.length < 4) :
    ∃ value', Reads limit ⟨frames, .codeUnit acc high value count⟩ digits []
      ⟨frames, .codeUnit acc high value' (count + digits.length)⟩ := by
  induction digits generalizing value count with
  | nil => exact ⟨value, .done _⟩
  | cons d digits ih =>
    obtain ⟨hd, hdigits⟩ := List.forall_mem_cons.mp h
    obtain ⟨digit, hdigit⟩ := Option.ne_none_iff_exists'.mp hd
    rw [List.length_cons] at hcount ⊢
    obtain ⟨value', hreads⟩ := @ih (16 * value + digit) (count + 1) hdigits (by omega)
    rw [Nat.add_right_comm, Nat.add_assoc] at hreads
    exact ⟨value', .shift (step_codeUnit_digit hdigit (by omega)) hreads⟩

theorem reads_unitStart :
    Reads limit ⟨frames, .text acc high⟩ [Ascii.backslash, 0x75] []
      ⟨frames, .codeUnit acc high 0 0⟩ :=
  .shift step_text_backslash (.shift step_escape_unit (.done _))

/-- Digits of a code unit that may go on take a string no further. -/
theorem reads_someDigits {digits : List UInt8} (h : SomeDigits digits) :
    ∃ value, Reads limit ⟨frames, .text acc high⟩ (Ascii.backslash :: 0x75 :: digits) []
      ⟨frames, .codeUnit acc high value digits.length⟩ := by
  obtain ⟨hlength, hall⟩ := h
  have hcount : 0 + digits.length < 4 := by omega
  obtain ⟨value, hreads⟩ := @reads_digits limit frames acc high 0 0 digits hall hcount
  rw [Nat.zero_add] at hreads
  exact ⟨value, reads_unitStart.append hreads⟩

/-- A code unit that closes to a fault is refused with its last digit. -/
theorem refuses_unit {unit : Nat} {text : List UInt8} {cause : LexicalError} {next : Scanner}
    (h : UnitText unit text)
    (hclose : closeCodeUnit ⟨frames, .between⟩ acc high unit = .consume (.error cause) next)
    (plain : ∀ shown, cause.quoting shown = cause) :
    Refuses limit ⟨frames, .text acc high⟩ text [] cause := by
  obtain ⟨digits, hdigits, rfl⟩ := h
  obtain ⟨init, d, last, rfl, hinit, hstep⟩ := reads_unit_last hdigits
  exact .of_reads reads_unitStart (.consume hinit (hstep.trans hclose) plain)

/-- Among the digits of a code unit any other byte is refused. -/
theorem refuses_digit {digits : List UInt8} {b : UInt8} (hdigits : SomeDigits digits)
    (hb : Ascii.hexValue? b = none) :
    Refuses limit ⟨frames, .text acc high⟩ (Ascii.backslash :: 0x75 :: digits) [b]
      (.invalidUnicodeEscape []) := by
  obtain ⟨value, hreads⟩ := reads_someDigits hdigits
  have hstep : step limit [] ⟨frames, .codeUnit acc high value digits.length⟩ b =
      stuck ⟨frames, .codeUnit acc high value digits.length⟩ (.invalidUnicodeEscape []) := by
    simp [step, inCodeUnit, hb]
  exact .leave hreads hstep

/-- A high surrogate waits for its other half. -/
theorem reads_high {unit : Nat} {text : List UInt8} (h : UnitText unit text)
    (hhigh : CodeUnit.isHigh unit = true) :
    Reads limit ⟨frames, .text acc none⟩ text [] ⟨frames, .text acc (some unit)⟩ := by
  obtain ⟨digits, hdigits, rfl⟩ := h
  have hclose : closeCodeUnit ⟨frames, .between⟩ acc none unit =
      .shift ⟨frames, .text acc (some unit)⟩ := by
    simp [closeCodeUnit, hhigh]
  exact reads_unitStart.append (reads_unit hdigits hclose)

/-! ### Violations -/

/-- A violation is found where it shows. -/
theorem refuses_of_violation {taken refused : List UInt8} {cause : LexicalError}
    (h : Violation taken refused cause) :
    Refuses limit ⟨frames, .text acc none⟩ taken refused cause := by
  cases h with
  | @control b h =>
    have hquote : b ≠ Ascii.quote := by
      rintro rfl
      exact absurd h (by decide)
    have hbackslash : b ≠ Ascii.backslash := by
      rintro rfl
      exact absurd h (by decide)
    have hstep : step limit [] ⟨frames, .text acc none⟩ b =
        stuck ⟨frames, .text acc none⟩ (.controlCharacter b) := by
      simp [step, inText, hbackslash, hquote, h]
    exact .leave (.done _) hstep
  | @letter e notUnit h =>
    have hletter : simpleEscape? e = none := by
      cases hd : simpleEscape? e with
      | none => rfl
      | some d =>
        obtain ⟨c, hc, -⟩ := letter_of_simpleEscape? hd
        exact absurd hc (h c)
    have hstep : step limit [] ⟨frames, .escape acc none⟩ e =
        stuck ⟨frames, .escape acc none⟩ (.invalidEscape (Char.ofNat e.toNat)) := by
      simp [step, inEscape, notUnit, hletter]
    exact .leave (.shift step_text_backslash (.done _)) hstep
  | digit some h => exact refuses_digit some h
  | @low unit _ h isLow =>
    have notHigh : CodeUnit.isHigh unit = false := by
      simp only [CodeUnit.isLow, CodeUnit.isHigh, Bool.and_eq_true, Bool.and_eq_false_iff,
        decide_eq_true_eq, decide_eq_false_iff_not] at isLow ⊢
      omega
    have hclose : closeCodeUnit ⟨frames, .between⟩ acc none unit =
        .consume (.error (.unpairedSurrogate unit)) ⟨frames, .text acc none⟩ := by
      simp [closeCodeUnit, notHigh, isLow]
    exact refuses_unit h hclose fun _ => rfl
  | @highByte high _ b h isHigh hb =>
    have hstep : step limit [] ⟨frames, .text acc (some high)⟩ b =
        stuck ⟨frames, .text acc (some high)⟩ (.unpairedSurrogate high) := by
      simp [step, inText, hb]
    exact .leave (reads_high h isHigh) hstep
  | @highLetter high _ e h isHigh he =>
    have hstep : step limit [] ⟨frames, .escape acc (some high)⟩ e =
        stuck ⟨frames, .escape acc (some high)⟩ (.unpairedSurrogate high) := by
      simp [step, inEscape, he]
    exact .leave ((reads_high h isHigh).append (.shift step_text_backslash (.done _))) hstep
  | highDigit h isHigh some hb => exact .of_reads (reads_high h isHigh) (refuses_digit some hb)
  | @highUnit high unit _ _ h isHigh h' notLow =>
    have hclose : closeCodeUnit ⟨frames, .between⟩ acc (some high) unit =
        .consume (.error (.unpairedSurrogate high)) ⟨frames, .text acc none⟩ := by
      simp [closeCodeUnit, notLow]
    exact .of_reads (reads_high h isHigh) (refuses_unit h' hclose fun _ => rfl)

end

/-! ### What a text begins with -/

/-- A text begins with as many digits as are wanted, or with fewer and another byte, or ends. -/
theorem digits_cases (wanted : Nat) (text : List UInt8) :
    (∃ digits rest, text = digits ++ rest ∧ digits.length = wanted ∧
        ∀ d ∈ digits, Ascii.hexValue? d ≠ none) ∨
      (∃ digits b rest, text = digits ++ b :: rest ∧ Ascii.hexValue? b = none ∧
        digits.length < wanted ∧ ∀ d ∈ digits, Ascii.hexValue? d ≠ none) ∨
      text.length < wanted ∧ ∀ d ∈ text, Ascii.hexValue? d ≠ none := by
  induction wanted generalizing text with
  | zero => exact .inl ⟨[], text, rfl, rfl, List.forall_mem_nil _⟩
  | succ wanted ih =>
    cases text with
    | nil => exact .inr (.inr ⟨Nat.zero_lt_succ _, List.forall_mem_nil _⟩)
    | cons b text =>
      by_cases hb : Ascii.hexValue? b = none
      · exact .inr (.inl ⟨[], b, text, rfl, hb, Nat.zero_lt_succ _, List.forall_mem_nil _⟩)
      · rcases ih text with ⟨digits, rest, rfl, hlength, hall⟩ |
          ⟨digits, c, rest, rfl, hc, hlength, hall⟩ | ⟨hlength, hall⟩
        · exact .inl ⟨b :: digits, rest, rfl, congrArg (· + 1) hlength,
            List.forall_mem_cons.mpr ⟨hb, hall⟩⟩
        · exact .inr (.inl ⟨b :: digits, c, rest, rfl, hc, Nat.succ_lt_succ hlength,
            List.forall_mem_cons.mpr ⟨hb, hall⟩⟩)
        · exact .inr (.inr ⟨Nat.succ_lt_succ hlength, List.forall_mem_cons.mpr ⟨hb, hall⟩⟩)

theorem unitDigits_of_length {digits : List UInt8} (hlength : digits.length = 4)
    (hall : ∀ d ∈ digits, Ascii.hexValue? d ≠ none) : ∃ unit, UnitDigits unit digits := by
  match digits, hlength with
  | [a, b, c, d], _ =>
    simp only [List.forall_mem_cons, Option.ne_none_iff_exists'] at hall
    obtain ⟨⟨u, ha⟩, ⟨v, hb⟩, ⟨w, hc⟩, ⟨x, hd⟩, -⟩ := hall
    exact ⟨_, a, b, c, d, u, v, w, x, rfl, ha, hb, hc, hd, rfl⟩

/-- Whether the scanner takes all of a text inside a string. -/
def Unfinished (limit : Nat) (frames : List Frame) (text : List UInt8) : Prop :=
  ∀ acc, ∃ last, Reads limit ⟨frames, .text acc none⟩ text [] last

/-- Behind the letter of code units there is one, or another byte, or the text ends. -/
theorem unit_cases (text : List UInt8) :
    (∃ unit etext rest, Ascii.backslash :: 0x75 :: text = etext ++ rest ∧ UnitText unit etext) ∨
      (∃ digits b rest, text = digits ++ b :: rest ∧ SomeDigits digits ∧
        Ascii.hexValue? b = none) ∨
      SomeDigits text := by
  rcases digits_cases 4 text with ⟨digits, rest, rfl, hlength, hall⟩ |
    ⟨digits, b, rest, rfl, hb, hlength, hall⟩ | hfew
  · obtain ⟨unit, hunit⟩ := unitDigits_of_length hlength hall
    exact .inl ⟨unit, _, rest, rfl, digits, hunit, rfl⟩
  · exact .inr (.inl ⟨digits, b, rest, rfl, ⟨hlength, hall⟩, hb⟩)
  · exact .inr (.inr hfew)

/-- A high surrogate goes on with its other half, or with a violation, or the text ends. -/
theorem high_cases {high : Nat} {htext : List UInt8} (h : UnitText high htext)
    (isHigh : CodeUnit.isHigh high = true) (text : List UInt8) :
    (∃ c etext rest, htext ++ text = etext ++ rest ∧ EscapeText c etext) ∨
      Violated (htext ++ text) ∨ Unfinished limit frames (htext ++ text) := by
  have hwait {acc : Array UInt8} {last : Scanner} {more : List UInt8}
      (hmore : Reads limit ⟨frames, .text acc (some high)⟩ more [] last) :
      Reads limit ⟨frames, .text acc none⟩ (htext ++ more) [] last :=
    (reads_high h isHigh).append hmore
  cases text with
  | nil => exact .inr (.inr fun acc => ⟨_, hwait (.done _)⟩)
  | cons b text =>
    by_cases hb : b = Ascii.backslash
    · subst hb
      cases text with
      | nil => exact .inr (.inr fun acc => ⟨_, hwait (.shift step_text_backslash (.done _))⟩)
      | cons e text =>
        by_cases he : e = 0x75
        · subst he
          rcases unit_cases text with ⟨unit, etext, rest, hetext, hunit⟩ |
            ⟨digits, b, rest, rfl, hsome, hb⟩ | hfew
          · rw [hetext]
            cases hlow : CodeUnit.isLow unit with
            | true =>
              refine .inl ⟨_, htext ++ etext, rest, ?_, .pair h isHigh hunit hlow⟩
              rw [List.append_assoc]
            | false =>
              refine .inr (.inl ⟨_, [], _, rest, ?_, .highUnit h isHigh hunit hlow⟩)
              rw [List.nil_append, List.append_assoc]
          · refine .inr (.inl ⟨_, _, _, rest, ?_, .highDigit h isHigh hsome hb⟩)
            simp
          · refine .inr (.inr fun acc => ?_)
            obtain ⟨value, hlast⟩ := reads_someDigits hfew
            exact ⟨_, hwait hlast⟩
        · refine .inr (.inl ⟨_, _, _, text, ?_, .highLetter h isHigh he⟩)
          simp
    · exact .inr (.inl ⟨_, _, _, text, rfl, .highByte h isHigh hb⟩)

/-- Behind a backslash there is an escape, or a violation, or the text ends. -/
theorem escape_cases (text : List UInt8) :
    (∃ c etext rest, Ascii.backslash :: text = etext ++ rest ∧ EscapeText c etext) ∨
      Violated (Ascii.backslash :: text) ∨ Unfinished limit frames (Ascii.backslash :: text) := by
  cases text with
  | nil => exact .inr (.inr fun acc => ⟨_, .shift step_text_backslash (.done _)⟩)
  | cons e text =>
    by_cases he : e = 0x75
    · subst he
      rcases unit_cases text with ⟨unit, etext, rest, hetext, hunit⟩ |
        ⟨digits, b, rest, rfl, hsome, hb⟩ | hfew
      · rw [hetext]
        cases hhigh : CodeUnit.isHigh unit with
        | true => exact high_cases hunit hhigh rest
        | false =>
          cases hlow : CodeUnit.isLow unit with
          | true => exact .inr (.inl ⟨_, [], _, rest, rfl, .low hunit hlow⟩)
          | false => exact .inl ⟨_, etext, rest, rfl, .unit hunit hhigh hlow⟩
      · exact .inr (.inl ⟨_, _, _, rest, rfl, .digit hsome hb⟩)
      · refine .inr (.inr fun acc => ?_)
        obtain ⟨value, hlast⟩ := reads_someDigits hfew
        exact ⟨_, hlast⟩
    · cases hletter : simpleEscape? e with
      | some d =>
        obtain ⟨c, hc, -⟩ := letter_of_simpleEscape? hletter
        exact .inl ⟨c, _, text, rfl, .letter hc⟩
      | none =>
        refine .inr (.inl ⟨_, _, _, text, rfl, .letter he fun c hc => ?_⟩)
        obtain ⟨d, hd, -⟩ := simpleEscape?_of_letter hc
        cases hletter.symm.trans hd

/-- A text behind an opening quote is closed behind a spelling, or has a violation there, or is
unfinished. -/
theorem spelling_cases (limit : Nat) (frames : List Frame) (text : List UInt8) :
    ∃ spelling body rest, text = body ++ rest ∧ Spells spelling body ∧
      ((∃ left, rest = Ascii.quote :: left) ∨ Violated rest ∨ Unfinished limit frames rest) := by
  -- by length, since an escape takes several bytes
  induction hlength : text.length using Nat.strongRecOn generalizing text with
  | _ n ih =>
    subst hlength
    cases text with
    | nil => exact ⟨_, [], [], rfl, .nil, .inr (.inr fun acc => ⟨_, .done _⟩)⟩
    | cons b text =>
      by_cases hbackslash : b = Ascii.backslash
      · subst hbackslash
        rcases escape_cases text with ⟨c, etext, rest, hetext, hescape⟩ | hviolation
        · -- what follows the escape is shorter
          have hless : rest.length < (Ascii.backslash :: text).length := by
            have hpos := hescape.length_pos
            rw [hetext, List.length_append]
            omega
          obtain ⟨spelling, body, rest, rfl, hspells, hcases⟩ := ih _ hless rest rfl
          refine ⟨_, etext ++ body, rest, ?_, hspells.cons_escape hescape, hcases⟩
          rw [hetext, List.append_assoc]
        · exact ⟨_, [], _, rfl, .nil, .inr hviolation⟩
      · by_cases hquote : b = Ascii.quote
        · exact ⟨_, [], _, rfl, .nil, .inl ⟨text, by rw [hquote]⟩⟩
        · by_cases hcontrol : Ascii.isControl b = true
          · exact ⟨_, [], _, rfl, .nil, .inr (.inl ⟨_, _, _, text, rfl, .control hcontrol⟩)⟩
          · have hplain : PlainByte b := ⟨hquote, hbackslash, Bool.eq_false_iff.mpr hcontrol⟩
            obtain ⟨spelling, body, rest, rfl, hspells, hcases⟩ :=
              ih _ (Nat.lt_succ_self _) text rfl
            exact ⟨_, b :: body, rest, rfl, hspells.cons hplain, hcases⟩

/-- A spelling behind an opening quote is collected. -/
theorem reads_spelling {place : String → Token} (hbetween : s.lexeme = .between)
    (hplace : TextPlace s.frames place) {spelling : Spelling} {body : List UInt8}
    (h : Spells spelling body) :
    Reads limit s (Ascii.quote :: body) [] ⟨s.frames, .text spelling.bytes.toArray none⟩ := by
  obtain ⟨frames, lexeme⟩ := s
  obtain rfl : lexeme = .between := hbetween
  have hopening : step limit [] ⟨frames, .between⟩ Ascii.quote =
      .shift ⟨frames, .text #[] none⟩ := by
    cases hplace with
    | value h => exact step_quote h
    | firstName outer => exact step_quote_name (.inl rfl)
    | name outer => exact step_quote_name (.inr rfl)
  have hbytes : (#[] : Array UInt8) ++ spelling.bytes = spelling.bytes.toArray :=
    Array.ext' (by simp)
  refine .shift hopening ?_
  rw [← hbytes]
  exact reads_pieces (pieces_of_spells h) #[]

end Scanner

/-! ## The answer -/

namespace Lexer

variable {l : Lexer} {chunks : List (List UInt8)} {place : String → Token}

/-- The answer to a text behind an opening quote at `origin`. -/
structure Sought.IsString (found : Sought) (origin : Location) (place : String → Token)
    (text : List UInt8) : Prop where
  token_iff : ∀ token, found.answer = .ok (some token) ↔
    ∃ spelling body left content, text = body ++ Ascii.quote :: left ∧ Spells spelling body ∧
      (∀ run ∈ spelling.runs, IsUtf8 run) ∧
      content.toList.flatMap String.utf8EncodeChar = spelling.bytes ∧ token = place content
  closed : ∀ spelling body left, text = body ++ Ascii.quote :: left → Spells spelling body →
    found.lexer.location = origin.pastAll (Ascii.quote :: body ++ [Ascii.quote]) ∧
      left = found.lexer.unread ++ found.rest.flatten ∧
      ((∃ run ∈ spelling.runs, ¬IsUtf8 run) →
        found.answer = .error ⟨.invalidUtf8, found.lexer.location⟩)
  violated : ∀ spelling body taken refused cause left,
    text = body ++ (taken ++ (refused ++ left)) → Spells spelling body →
    Violation taken refused cause →
    found.answer =
        .error ⟨cause.quoting (Utf8.leading found.lexer.unread), found.lexer.location⟩ ∧
      found.lexer.location = origin.pastAll (Ascii.quote :: body ++ taken) ∧
      ∃ seen, found.lexer.unread = refused ++ seen ∧ left = seen ++ found.rest.flatten
  unfinished : (∀ spelling body rest, text = body ++ rest → Spells spelling body →
      (∀ left, rest ≠ Ascii.quote :: left) ∧ ¬Violated rest) →
    found.answer = .ok none ∧ found.lexer.isMidValue = true

/-- A fault is answered with its cause, where it shows. -/
theorem seek_of_refuses {taken refused left : List UInt8} {cause : LexicalError}
    (h : Scanner.Refuses l.depthLimit l.scanner taken refused cause)
    (htext : l.unread ++ chunks.flatten = taken ++ (refused ++ left)) :
    let found := l.seek chunks
    found.answer =
        .error ⟨cause.quoting (Utf8.leading found.lexer.unread), found.lexer.location⟩ ∧
      found.lexer.location = l.location.pastAll taken ∧
      ∃ seen, found.lexer.unread = refused ++ seen ∧ left = seen ++ found.rest.flatten := by
  intro found
  cases h with
  | leave h hstep =>
    obtain ⟨seen, rest, hleft, hseek⟩ := seek_of_leave h hstep htext
    rw [show found = _ from hseek]
    exact ⟨rfl, rfl, seen, rfl, hleft⟩
  | consume h hstep plain =>
    rw [List.nil_append, List.append_assoc] at htext
    obtain ⟨seen, rest, hleft, hseek⟩ := seek_of_consume h hstep htext
    rw [show found = _ from hseek]
    refine ⟨?_, rfl, seen, rfl, hleft⟩
    simp only [handBack, Except.mapError, plain]

/-- A closing quote completes a token if what is spelled are the bytes of a text. -/
theorem seek_of_spells {spelling : Spelling} {body left : List UInt8} {content : String}
    (hbetween : l.scanner.lexeme = .between) (hplace : TextPlace l.scanner.frames place)
    (hspells : Spells spelling body)
    (hcontent : content.toList.flatMap String.utf8EncodeChar = spelling.bytes)
    (htext : l.unread ++ chunks.flatten = Ascii.quote :: (body ++ Ascii.quote :: left)) :
    let found := l.seek chunks
    found.answer = .ok (some (place content)) ∧
      found.lexer.location = l.location.pastAll (Ascii.quote :: body ++ [Ascii.quote]) ∧
      left = found.lexer.unread ++ found.rest.flatten := by
  intro found
  have hutf8 : String.fromUTF8? ⟨spelling.bytes.toArray⟩ = some content :=
    Utf8.fromUTF8?_eq_some_iff.mpr ⟨content.toList, String.ofList_toList.symm, hcontent.symm⟩
  obtain ⟨seen, rest, hleft, hseek⟩ := seek_of_consume
    (Scanner.reads_spelling hbetween hplace hspells) (Scanner.step_text_end hutf8) htext
  rw [show found = _ from hseek, ← hplace.placeText_fst]
  exact ⟨rfl, rfl, hleft⟩

theorem exists_content {spelling : Spelling} (h : ∀ run ∈ spelling.runs, IsUtf8 run) :
    ∃ content : String, content.toList.flatMap String.utf8EncodeChar = spelling.bytes := by
  obtain ⟨chars, hchars⟩ := spelling.isUtf8_bytes_iff.mpr h
  refine ⟨String.ofList chars, ?_⟩
  rw [String.toList_ofList, hchars]

/-- A closing quote behind runs of which one is no UTF-8 is a fault. -/
theorem refuses_garbled {spelling : Spelling} {body : List UInt8}
    (hbetween : l.scanner.lexeme = .between) (hplace : TextPlace l.scanner.frames place)
    (hspells : Spells spelling body) (hgarbled : ∃ run ∈ spelling.runs, ¬IsUtf8 run) :
    Scanner.Refuses l.depthLimit l.scanner (Ascii.quote :: body ++ [Ascii.quote]) []
      .invalidUtf8 := by
  have hnone : String.fromUTF8? ⟨spelling.bytes.toArray⟩ = none := by
    cases hcontent : String.fromUTF8? ⟨spelling.bytes.toArray⟩ with
    | none => rfl
    | some content =>
      obtain ⟨chars, -, hchars⟩ := Utf8.fromUTF8?_eq_some_iff.mp hcontent
      obtain ⟨run, hrun, hnot⟩ := hgarbled
      exact absurd (spelling.isUtf8_bytes_iff.mp ⟨chars, hchars⟩ run hrun) hnot
  have hstep : Scanner.step l.depthLimit []
      ⟨l.scanner.frames, .text spelling.bytes.toArray none⟩ Ascii.quote =
        .consume (.error .invalidUtf8) ⟨l.scanner.frames, .between⟩ := by
    rw [Scanner.step_text_quote, Scanner.closeText]
    simp only [hnone]
  exact .consume (Scanner.reads_spelling hbetween hplace hspells) hstep fun _ => rfl

/-- A closing quote behind runs of which one is no UTF-8 is taken, and the answer is a fault. -/
theorem seek_of_garbled {spelling : Spelling} {body left : List UInt8}
    (hbetween : l.scanner.lexeme = .between) (hplace : TextPlace l.scanner.frames place)
    (hspells : Spells spelling body) (hgarbled : ∃ run ∈ spelling.runs, ¬IsUtf8 run)
    (htext : l.unread ++ chunks.flatten = Ascii.quote :: (body ++ Ascii.quote :: left)) :
    (l.seek chunks).answer = .error ⟨.invalidUtf8, (l.seek chunks).lexer.location⟩ ∧
      (l.seek chunks).lexer.location = l.location.pastAll (Ascii.quote :: body ++ [Ascii.quote]) ∧
      left = (l.seek chunks).lexer.unread ++ (l.seek chunks).rest.flatten := by
  have htaken : l.unread ++ chunks.flatten =
      Ascii.quote :: body ++ [Ascii.quote] ++ ([] ++ left) := by
    rw [htext]
    simp
  obtain ⟨hanswer, hlocation, seen, hunread, hleft⟩ :=
    seek_of_refuses (refuses_garbled hbetween hplace hspells hgarbled) htaken
  exact ⟨hanswer, hlocation, hunread ▸ hleft⟩

/-- A violation behind a spelling is found where it shows. -/
theorem seek_of_violation {spelling : Spelling} {body taken refused left : List UInt8}
    {cause : LexicalError} (hbetween : l.scanner.lexeme = .between)
    (hplace : TextPlace l.scanner.frames place) (hspells : Spells spelling body)
    (hviolation : Violation taken refused cause)
    (htext : l.unread ++ chunks.flatten =
      Ascii.quote :: (body ++ (taken ++ (refused ++ left)))) :
    let found := l.seek chunks
    found.answer =
        .error ⟨cause.quoting (Utf8.leading found.lexer.unread), found.lexer.location⟩ ∧
      found.lexer.location = l.location.pastAll (Ascii.quote :: body ++ taken) ∧
      ∃ seen, found.lexer.unread = refused ++ seen ∧ left = seen ++ found.rest.flatten := by
  have htaken : l.unread ++ chunks.flatten =
      Ascii.quote :: body ++ taken ++ (refused ++ left) := by
    rw [htext]
    simp
  exact seek_of_refuses (.of_reads (Scanner.reads_spelling hbetween hplace hspells)
    (Scanner.refuses_of_violation hviolation)) htaken

/-- What is neither closed nor violated leaves a lexer inside a value. -/
theorem seek_of_unfinished {spelling : Spelling} {body rest : List UInt8}
    (hbetween : l.scanner.lexeme = .between) (hplace : TextPlace l.scanner.frames place)
    (hspells : Spells spelling body)
    (hrest : Scanner.Unfinished l.depthLimit l.scanner.frames rest)
    (htext : l.unread ++ chunks.flatten = Ascii.quote :: (body ++ rest)) :
    (l.seek chunks).answer = .ok none ∧ (l.seek chunks).lexer.isMidValue = true := by
  obtain ⟨last, hlast⟩ := hrest spelling.bytes.toArray
  have hreads : Scanner.Reads l.depthLimit l.scanner (l.unread ++ chunks.flatten) [] last := by
    rw [htext]
    exact (Scanner.reads_spelling hbetween hplace hspells).append hlast
  have hlexeme : last.lexeme ≠ .between := Scanner.lexeme_of_reads hlast Lexeme.noConfusion
  rw [seek_of_reads hreads]
  refine ⟨rfl, ?_⟩
  show (!last.frames.isEmpty || last.lexeme != .between) = true
  rw [bne_iff_ne.mpr hlexeme, Bool.or_true]

/-- Behind an opening quote, in whatever chunks, a token is read if and only if the text is closed
behind a spelling whose runs are all UTF-8; it is what is spelled, in the place where the string
stands. A spelling of which a run is no UTF-8 is found at the closing quote. A violation behind a
spelling is found where it shows, and the byte refused stays unread. What is neither closed nor
violated is waited with. -/
theorem seek_string {text : List UInt8} (hbetween : l.scanner.lexeme = .between)
    (hplace : TextPlace l.scanner.frames place)
    (htext : l.unread ++ chunks.flatten = Ascii.quote :: text) :
    (l.seek chunks).IsString l.location place text := by
  have hclosed {spelling : Spelling} {body left : List UInt8} {content : String}
      (hbody : text = body ++ Ascii.quote :: left) (hspells : Spells spelling body)
      (hcontent : content.toList.flatMap String.utf8EncodeChar = spelling.bytes) :=
    seek_of_spells hbetween hplace hspells hcontent (hbody ▸ htext)
  have hgarbled {spelling : Spelling} {body left : List UInt8}
      (hbody : text = body ++ Ascii.quote :: left) (hspells : Spells spelling body)
      (hruns : ∃ run ∈ spelling.runs, ¬IsUtf8 run) :=
    seek_of_garbled hbetween hplace hspells hruns (hbody ▸ htext)
  have hviolated {spelling : Spelling} {body taken refused left : List UInt8}
      {cause : LexicalError} (hbody : text = body ++ (taken ++ (refused ++ left)))
      (hspells : Spells spelling body) (hviolation : Violation taken refused cause) :=
    seek_of_violation hbetween hplace hspells hviolation (hbody ▸ htext)
  have hunfinished {spelling : Spelling} {body rest : List UInt8} (hbody : text = body ++ rest)
      (hspells : Spells spelling body)
      (hrest : Scanner.Unfinished l.depthLimit l.scanner.frames rest) :=
    seek_of_unfinished hbetween hplace hspells hrest (hbody ▸ htext)
  obtain ⟨spelling, body, rest, hbody, hspells, hcases⟩ :=
    Scanner.spelling_cases l.depthLimit l.scanner.frames text
  constructor
  · intro token
    constructor
    · intro hanswer
      rcases hcases with ⟨left, rfl⟩ | ⟨taken, refused, cause, left, rfl, hviolation⟩ | hrest
      · by_cases hruns : ∀ run ∈ spelling.runs, IsUtf8 run
        · obtain ⟨content, hcontent⟩ := exists_content hruns
          have htoken := hanswer.symm.trans (hclosed hbody hspells hcontent).1
          exact ⟨spelling, body, left, content, hbody, hspells, hruns, hcontent,
            Option.some.inj (Except.ok.inj htoken)⟩
        · simp only [not_forall] at hruns
          obtain ⟨run, hrun, hnot⟩ := hruns
          cases hanswer.symm.trans (hgarbled hbody hspells ⟨run, hrun, hnot⟩).1
      · cases hanswer.symm.trans (hviolated hbody hspells hviolation).1
      · cases hanswer.symm.trans (hunfinished hbody hspells hrest).1
    · rintro ⟨spelling, body, left, content, hbody, hspells, -, hcontent, rfl⟩
      exact (hclosed hbody hspells hcontent).1
  · intro spelling body left hbody hspells
    by_cases hruns : ∀ run ∈ spelling.runs, IsUtf8 run
    · obtain ⟨content, hcontent⟩ := exists_content hruns
      obtain ⟨-, hlocation, hleft⟩ := hclosed hbody hspells hcontent
      exact ⟨hlocation, hleft, fun ⟨run, hrun, hnot⟩ => absurd (hruns run hrun) hnot⟩
    · simp only [not_forall] at hruns
      obtain ⟨run, hrun, hnot⟩ := hruns
      obtain ⟨hanswer, hlocation, hleft⟩ := hgarbled hbody hspells ⟨run, hrun, hnot⟩
      exact ⟨hlocation, hleft, fun _ => hanswer⟩
  · intro spelling body taken refused cause left hbody hspells hviolation
    exact hviolated hbody hspells hviolation
  · intro hopen
    obtain ⟨hquote, hviolation⟩ := hopen spelling body rest hbody hspells
    rcases hcases with ⟨left, hleft⟩ | hviolated | hrest
    · exact absurd hleft (hquote left)
    · exact absurd hviolated hviolation
    · exact hunfinished hbody hspells hrest

/-- The name `\u00e9` in quotes, of which the first two bytes are fed, cut within its digits. -/
theorem seek_string_inside_code_unit :
    let l : Lexer :=
      { depthLimit := 8, scanner := ⟨[.object .first], .between⟩, unread := [0x22, 0x5C] }
    let chunks : List (List UInt8) := [[0x75, 0x30], [0x30, 0x65], [0x39, 0x22]]
    l.scanner.lexeme = .between ∧ TextPlace l.scanner.frames .fieldName ∧
      l.unread ++ chunks.flatten =
        Ascii.quote :: [0x5C, 0x75, 0x30, 0x30, 0x65, 0x39, 0x22] ∧
      (l.seek chunks).IsString l.location .fieldName
        [0x5C, 0x75, 0x30, 0x30, 0x65, 0x39, 0x22] :=
  ⟨rfl, .firstName [], rfl, seek_string rfl (.firstName []) rfl⟩

end Lexer

end StreamingJson
