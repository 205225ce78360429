import StreamingJson.Proofs.Grammar.Scanning
import StreamingJson.Proofs.Grammar.Text

/-!
# Reading strings

Between two quotes the scanner collects bytes, and looks only at the closing quote at whether they
are UTF-8. The grammar speaks of characters instead. That both accept the same texts rests on UTF-8
being self-synchronizing: the bytes of one character cannot come partly from an escape.

## Main definitions

- `Pieces` — what may stand between two quotes, byte by byte, and the bytes it stands for

## Main statements

- `Scanner.reads_pieces`, `Scanner.pieces_of_reads` — the scanner collects the bytes of pieces
- `pieces_of_stringText`, `stringText_of_pieces` — pieces that make up UTF-8 are the strings of the
  grammar
- `Scanner.reads_string`, `Scanner.string_of_reads` — how a scanner reads a string
-/

namespace StreamingJson

/-! ## UTF-8 -/

namespace Utf8

/-- Bytes are UTF-8 if they are the forms of characters in a row. -/
theorem fromUTF8?_eq_some_iff {bytes : Array UInt8} {text : String} :
    String.fromUTF8? ⟨bytes⟩ = some text ↔
      ∃ chars, text = String.ofList chars ∧ bytes.toList = chars.flatMap String.utf8EncodeChar := by
  unfold String.fromUTF8?
  constructor
  · intro h
    split at h
    next hvalid =>
      cases h
      obtain ⟨chars, hchars⟩ := hvalid
      refine ⟨chars, ?_, ?_⟩
      · apply String.toByteArray_inj.mp
        rw [String.toByteArray_ofList, ← hchars]
        rfl
      · have hdata := congrArg ByteArray.data hchars
        rw [List.utf8Encode, List.data_toByteArray] at hdata
        show bytes.toList = _
        rw [show bytes = _ from hdata]
    next => cases h
  · rintro ⟨chars, rfl, hbytes⟩
    have hencode : (⟨bytes⟩ : ByteArray) = chars.utf8Encode := by
      apply ByteArray.ext
      rw [List.utf8Encode, List.data_toByteArray, ← hbytes]
    have hvalid : ByteArray.IsValidUTF8 ⟨bytes⟩ := ⟨chars, hencode⟩
    rw [dif_pos hvalid]
    apply congrArg some
    apply String.toByteArray_inj.mp
    rw [String.toByteArray_ofList, ← hencode]
    rfl

/-- A character begins with a byte that no other place in a character has. -/
theorem exists_encode_eq_cons (c : Char) :
    ∃ first more, String.utf8EncodeChar c = first :: more ∧ first.IsUTF8FirstByte ∧
      ∀ b ∈ more, ¬b.IsUTF8FirstByte := by
  have hfirst (i : Nat) (hi : i < (String.utf8EncodeChar c).length) :
      (String.utf8EncodeChar c)[i].IsUTF8FirstByte ↔ i = 0 :=
    UInt8.isUTF8FirstByte_getElem_utf8EncodeChar
  cases h : String.utf8EncodeChar c with
  | nil => exact absurd h String.utf8EncodeChar_ne_nil
  | cons first more =>
    simp only [h] at hfirst
    refine ⟨first, more, rfl, (hfirst 0 (Nat.zero_lt_succ _)).mpr rfl, fun b hb => ?_⟩
    obtain ⟨i, hi, rfl⟩ := List.getElem_of_mem hb
    have hlater := hfirst (i + 1) (Nat.succ_lt_succ hi)
    rw [List.getElem_cons_succ] at hlater
    exact fun hcontra => absurd (hlater.mp hcontra) (Nat.succ_ne_zero i)

/-- The first character of a text is determined by its bytes. -/
theorem encode_append_inj {c d : Char} {xs ys : List UInt8}
    (h : String.utf8EncodeChar c ++ xs = String.utf8EncodeChar d ++ ys) : c = d ∧ xs = ys := by
  have hdecode (e : Char) (zs : List UInt8) :
      ByteArray.utf8DecodeChar? (String.utf8EncodeChar e ++ zs).toByteArray 0 = some e := by
    rw [List.toByteArray_append]
    exact ByteArray.utf8DecodeChar?_utf8EncodeChar_append
  have hsame : c = d := by
    have hc := hdecode c xs
    rw [h, hdecode d ys] at hc
    exact (Option.some.inj hc).symm
  subst hsame
  exact ⟨rfl, List.append_cancel_left h⟩

theorem encode_ascii {c : Char} (h : c.toNat < 0x80) :
    String.utf8EncodeChar c = [UInt8.ofNat c.toNat] := by
  have hle : c.val.toNat ≤ 0x7F := Nat.le_of_lt_succ h
  unfold String.utf8EncodeChar
  simp only [hle, if_true]
  rfl

/-- All bytes of any other character are beyond ASCII. -/
theorem le_of_mem_encode {c : Char} (h : 0x80 ≤ c.toNat) {b : UInt8}
    (hb : b ∈ String.utf8EncodeChar c) : 0x80 ≤ b := by
  have hgt : ¬c.val.toNat ≤ 0x7F := Nat.not_le.mpr h
  unfold String.utf8EncodeChar at hb
  simp only [hgt, if_false] at hb
  show 128 ≤ b.toNat
  split at hb
  · simp only [List.mem_cons, List.not_mem_nil, or_false] at hb
    rcases hb with rfl | rfl <;> (rw [UInt8.toNat_ofNat']; omega)
  · split at hb
    · simp only [List.mem_cons, List.not_mem_nil, or_false] at hb
      rcases hb with rfl | rfl | rfl <;> (rw [UInt8.toNat_ofNat']; omega)
    · simp only [List.mem_cons, List.not_mem_nil, or_false] at hb
      rcases hb with rfl | rfl | rfl | rfl <;> (rw [UInt8.toNat_ofNat']; omega)

end Utf8

/-! ## Pieces -/

/-- The bytes that stand for themselves in a string. -/
def PlainByte (b : UInt8) : Prop :=
  b ≠ Ascii.quote ∧ b ≠ Ascii.backslash ∧ Ascii.isControl b = false

theorem plainByte_of_le {b : UInt8} (h : 0x80 ≤ b) : PlainByte b := by
  refine ⟨?_, ?_, ?_⟩
  · rintro rfl
    exact absurd h (by decide)
  · rintro rfl
    exact absurd h (by decide)
  · have hle : 128 ≤ b.toNat := h
    have hcontrol : ¬b < 0x20 := fun hlt => by
      have hlt : b.toNat < 32 := hlt
      omega
    exact decide_eq_false hcontrol

/-- What may stand between two quotes, byte by byte, and the bytes it stands for. The bytes need not
be UTF-8. -/
inductive Pieces : List UInt8 → List UInt8 → Prop where
  | nil : Pieces [] []
  | plain {b : UInt8} {bytes body : List UInt8} (h : PlainByte b) (rest : Pieces bytes body) :
    Pieces (b :: bytes) (b :: body)
  | letter {c : Char} {e : UInt8} {bytes body : List UInt8} (h : EscapeLetter e c)
    (rest : Pieces bytes body) :
    Pieces (String.utf8EncodeChar c ++ bytes) (Ascii.backslash :: e :: body)
  | unit {unit : Nat} {digits bytes body : List UInt8} (h : UnitDigits unit digits)
    (notHigh : CodeUnit.isHigh unit = false) (notLow : CodeUnit.isLow unit = false)
    (rest : Pieces bytes body) :
    Pieces (CodeUnit.encode unit ++ bytes) (Ascii.backslash :: 0x75 :: (digits ++ body))
  | pair {high low : Nat} {digits digits' bytes body : List UInt8} (h : UnitDigits high digits)
    (isHigh : CodeUnit.isHigh high = true) (h' : UnitDigits low digits')
    (isLow : CodeUnit.isLow low = true) (rest : Pieces bytes body) :
    Pieces (CodeUnit.encode (CodeUnit.pair high low) ++ bytes)
      (Ascii.backslash :: 0x75 :: (digits ++ Ascii.backslash :: 0x75 :: (digits' ++ body)))

namespace Pieces

theorem plain_append {more bytes body : List UInt8} (h : ∀ b ∈ more, PlainByte b)
    (rest : Pieces bytes body) : Pieces (more ++ bytes) (more ++ body) := by
  induction more with
  | nil => exact rest
  | cons b more ih =>
    exact .plain (h b List.mem_cons_self) (ih fun c hc => h c (List.mem_cons_of_mem b hc))

/-- Pieces that stand for bytes inside a character are these bytes. -/
theorem of_continuation {more rest bytes body : List UInt8} (h : Pieces bytes body)
    (hbytes : bytes = more ++ rest) (hmore : ∀ b ∈ more, ¬b.IsUTF8FirstByte) :
    ∃ body', body = more ++ body' ∧ Pieces rest body' := by
  induction more generalizing bytes body with
  | nil =>
    subst hbytes
    exact ⟨body, rfl, h⟩
  | cons m more ih =>
    -- an escape stands for characters, and these begin with another byte
    have hescape {c : Char} {later : List UInt8}
        (heq : String.utf8EncodeChar c ++ later = m :: (more ++ rest)) : False := by
      obtain ⟨first, tail, hencode, hfirst, -⟩ := Utf8.exists_encode_eq_cons c
      rw [hencode] at heq
      have hm : first = m := (List.cons.inj heq).1
      exact hmore m List.mem_cons_self (hm ▸ hfirst)
    cases h with
    | nil => cases hbytes
    | plain hplain hrest =>
      obtain ⟨rfl, hlater⟩ := List.cons.inj hbytes
      obtain ⟨body', rfl, hbody'⟩ := ih hrest hlater fun c hc => hmore c (List.mem_cons_of_mem _ hc)
      exact ⟨body', rfl, hbody'⟩
    | letter => exact (hescape hbytes).elim
    | unit => exact (hescape hbytes).elim
    | pair => exact (hescape hbytes).elim

end Pieces

/-! ## Pieces and characters -/

theorem plainByte_of_mem_encode {c : Char} (hquote : c ≠ '"') (hbackslash : c ≠ '\\')
    (hcontrol : 0x20 ≤ c.toNat) {b : UInt8} (hb : b ∈ String.utf8EncodeChar c) : PlainByte b := by
  by_cases hascii : c.toNat < 0x80
  · rw [Utf8.encode_ascii hascii, List.mem_singleton] at hb
    have hnat : b.toNat = c.toNat := by
      rw [hb, UInt8.toNat_ofNat']
      exact Nat.mod_eq_of_lt (by omega)
    have hchar (d : Char) (hd : c ≠ d) : b.toNat ≠ d.toNat := by
      intro heq
      apply hd
      rw [← Char.ofNat_toNat c, ← hnat, heq, Char.ofNat_toNat]
    refine ⟨?_, ?_, ?_⟩
    · rintro rfl
      exact hchar _ hquote rfl
    · rintro rfl
      exact hchar _ hbackslash rfl
    · have hge : ¬b < 0x20 := fun hlt => by
        have hlt : b.toNat < 32 := hlt
        omega
      exact decide_eq_false hge
  · exact plainByte_of_le (Utf8.le_of_mem_encode (Nat.le_of_not_lt hascii) hb)

theorem pieces_of_stringText {chars : List Char} {body : List UInt8} (h : StringText chars body) :
    Pieces (chars.flatMap String.utf8EncodeChar) body := by
  induction h with
  | nil => exact .nil
  | plain notQuote notBackslash notControl rest ih =>
    rw [List.flatMap_cons]
    exact .plain_append (fun b => plainByte_of_mem_encode notQuote notBackslash notControl) ih
  | letter h rest ih =>
    rw [List.flatMap_cons]
    exact .letter h ih
  | unit h notHigh notLow rest ih =>
    rw [List.flatMap_cons]
    exact .unit h notHigh notLow ih
  | pair h isHigh h' isLow rest ih =>
    rw [List.flatMap_cons]
    exact .pair h isHigh h' isLow ih

/-- Pieces that make up UTF-8 are a text of the grammar. -/
theorem stringText_of_pieces {chars : List Char} {bytes body : List UInt8} (h : Pieces bytes body)
    (hbytes : bytes = chars.flatMap String.utf8EncodeChar) : StringText chars body := by
  induction chars generalizing bytes body with
  | nil =>
    have hencode {c : Char} {later : List UInt8} : String.utf8EncodeChar c ++ later ≠ [] :=
      List.append_ne_nil_of_left_ne_nil String.utf8EncodeChar_ne_nil later
    cases h with
    | nil => exact .nil
    | plain => cases hbytes
    | letter => exact absurd hbytes hencode
    | unit => exact absurd hbytes hencode
    | pair => exact absurd hbytes hencode
  | cons c chars ih =>
    rw [List.flatMap_cons] at hbytes
    cases h with
    | nil =>
      exact absurd hbytes.symm (List.append_ne_nil_of_left_ne_nil String.utf8EncodeChar_ne_nil _)
    | @plain b later body hplain hrest =>
      -- the byte begins the character, and the rest of the character comes from plain bytes too
      obtain ⟨first, more, hencode, -, hmore⟩ := Utf8.exists_encode_eq_cons c
      rw [hencode, List.cons_append] at hbytes
      obtain ⟨rfl, hlater⟩ := List.cons.inj hbytes
      obtain ⟨body', rfl, hbody'⟩ := hrest.of_continuation hlater hmore
      have hb : b ∈ String.utf8EncodeChar c := by
        rw [hencode]
        exact List.mem_cons_self
      have hcontrol : 0x20 ≤ c.toNat := by
        apply Nat.le_of_not_lt
        intro hlt
        rw [Utf8.encode_ascii (by omega), List.mem_singleton] at hb
        have hnat : b.toNat = c.toNat := by
          rw [hb, UInt8.toNat_ofNat']
          exact Nat.mod_eq_of_lt (by omega)
        have hless : b < 0x20 := by
          show b.toNat < 32
          omega
        exact absurd hplain.2.2 (by simp [Ascii.isControl, hless])
      have hstring : StringText (c :: chars) (String.utf8EncodeChar c ++ body') := by
        refine .plain ?_ ?_ hcontrol (ih hbody' rfl)
        · rintro rfl
          rw [Utf8.encode_ascii (by decide), List.mem_singleton] at hb
          exact hplain.1 hb
        · rintro rfl
          rw [Utf8.encode_ascii (by decide), List.mem_singleton] at hb
          exact hplain.2.1 hb
      rwa [hencode] at hstring
    | letter h hrest =>
      obtain ⟨rfl, hlater⟩ := Utf8.encode_append_inj hbytes
      exact .letter h (ih hrest hlater)
    | unit h notHigh notLow hrest =>
      obtain ⟨rfl, hlater⟩ := Utf8.encode_append_inj hbytes
      exact .unit h notHigh notLow (ih hrest hlater)
    | pair h isHigh h' isLow hrest =>
      obtain ⟨rfl, hlater⟩ := Utf8.encode_append_inj hbytes
      exact .pair h isHigh h' isLow (ih hrest hlater)

/-! ## Scanning a string -/

/-- The letters of the grammar are those that the scanner knows, with the same meaning. -/
theorem simpleEscape?_of_letter {e : UInt8} {c : Char} (h : EscapeLetter e c) :
    ∃ d, Scanner.simpleEscape? e = some d ∧ String.utf8EncodeChar c = [d] ∧ e ≠ 0x75 := by
  cases h <;> exact ⟨_, rfl, rfl, by decide⟩

theorem letter_of_simpleEscape? {e d : UInt8} (h : Scanner.simpleEscape? e = some d) :
    ∃ c, EscapeLetter e c ∧ String.utf8EncodeChar c = [d] := by
  unfold Scanner.simpleEscape? at h
  split at h
  next hself =>
    cases h
    simp only [Bool.or_eq_true, decide_eq_true_eq] at hself
    rcases hself with (rfl | rfl) | rfl
    · exact ⟨_, .quote, rfl⟩
    · exact ⟨_, .backslash, rfl⟩
    · exact ⟨_, .slash, rfl⟩
  split at h
  next hb =>
    cases h
    subst hb
    exact ⟨_, .backspace, rfl⟩
  split at h
  next hf =>
    cases h
    subst hf
    exact ⟨_, .formFeed, rfl⟩
  split at h
  next hn =>
    cases h
    subst hn
    exact ⟨_, .lineFeed, rfl⟩
  split at h
  next hr =>
    cases h
    subst hr
    exact ⟨_, .carriageReturn, rfl⟩
  split at h
  next ht =>
    cases h
    subst ht
    exact ⟨_, .tab, rfl⟩
  next => cases h

namespace Scanner

variable {limit : Nat} {frames : List Frame}

theorem step_text_plain {acc : Array UInt8} {b : UInt8} (h : PlainByte b) :
    step limit [] ⟨frames, .text acc none⟩ b = .shift ⟨frames, .text (acc.push b) none⟩ := by
  obtain ⟨hquote, hbackslash, hcontrol⟩ := h
  simp [step, inText, hquote, hbackslash, hcontrol]

theorem step_text_backslash {acc : Array UInt8} {high : Option Nat} :
    step limit [] ⟨frames, .text acc high⟩ Ascii.backslash = .shift ⟨frames, .escape acc high⟩ := by
  simp [step, inText]

theorem step_escape_unit {acc : Array UInt8} {high : Option Nat} :
    step limit [] ⟨frames, .escape acc high⟩ 0x75 = .shift ⟨frames, .codeUnit acc high 0 0⟩ := by
  simp [step, inEscape]

theorem step_codeUnit_digit {acc : Array UInt8} {high : Option Nat} {value count digit : Nat}
    {b : UInt8} (hdigit : Ascii.hexValue? b = some digit) (hcount : count < 3) :
    step limit [] ⟨frames, .codeUnit acc high value count⟩ b =
      .shift ⟨frames, .codeUnit acc high (16 * value + digit) (count + 1)⟩ := by
  simp [step, inCodeUnit, hdigit, hcount]

theorem step_codeUnit_last {acc : Array UInt8} {high : Option Nat} {value digit : Nat} {b : UInt8}
    (hdigit : Ascii.hexValue? b = some digit) :
    step limit [] ⟨frames, .codeUnit acc high value 3⟩ b =
      closeCodeUnit ⟨frames, .between⟩ acc high (16 * value + digit) := by
  simp [step, inCodeUnit, hdigit, closeCodeUnit]

theorem step_text_quote (acc : Array UInt8) :
    step limit [] ⟨frames, .text acc none⟩ Ascii.quote =
      closeText ⟨frames, .text acc none⟩ acc := by
  have hne : Ascii.quote ≠ Ascii.backslash := by decide
  simp [step, inText, hne]

theorem step_text_end {acc : Array UInt8} {text : String}
    (h : String.fromUTF8? ⟨acc⟩ = some text) :
    step limit [] ⟨frames, .text acc none⟩ Ascii.quote =
      .consume (.ok (placeText text frames).1) ⟨(placeText text frames).2, .between⟩ := by
  rw [step_text_quote, closeText]
  simp only [h]

/-- The last digit of a code unit closes it. -/
theorem reads_unit_last {acc : Array UInt8} {high : Option Nat} {unit : Nat}
    {digits : List UInt8} (h : UnitDigits unit digits) :
    ∃ init d last, digits = init ++ [d] ∧
      Reads limit ⟨frames, .codeUnit acc high 0 0⟩ init [] last ∧
      last.step limit [] d = closeCodeUnit ⟨frames, .between⟩ acc high unit := by
  obtain ⟨a, b, c, d, u, v, w, x, rfl, ha, hb, hc, hd, rfl⟩ := h
  refine ⟨[a, b, c], d, _, rfl, .shift (step_codeUnit_digit ha (by decide))
    (.shift (step_codeUnit_digit hb (by decide))
      (.shift (step_codeUnit_digit hc (by decide)) (.done _))), ?_⟩
  rw [step_codeUnit_last hd, Nat.mul_zero, Nat.zero_add]

theorem reads_unit {acc : Array UInt8} {high : Option Nat} {unit : Nat} {digits : List UInt8}
    {next : Scanner} (h : UnitDigits unit digits)
    (hnext : closeCodeUnit ⟨frames, .between⟩ acc high unit = .shift next) :
    Reads limit ⟨frames, .codeUnit acc high 0 0⟩ digits [] next := by
  obtain ⟨init, d, last, rfl, hinit, hstep⟩ := reads_unit_last h
  exact hinit.append (.shift (hstep.trans hnext) (.done next))

/-- Pieces are collected as the bytes they stand for. -/
theorem reads_pieces {bytes body : List UInt8} (h : Pieces bytes body) (acc : Array UInt8) :
    Reads limit ⟨frames, .text acc none⟩ body [] ⟨frames, .text (acc ++ bytes) none⟩ := by
  induction h generalizing acc with
  | nil =>
    have hacc : acc ++ ([] : List UInt8) = acc := Array.ext' (by simp)
    rw [hacc]
    exact .done _
  | @plain b bytes body hplain _ ih =>
    have hacc : acc ++ (b :: bytes) = acc.push b ++ bytes := Array.ext' (by simp)
    rw [hacc]
    exact .shift (step_text_plain hplain) (ih _)
  | @letter c e bytes body hletter _ ih =>
    obtain ⟨d, hd, hencode, hunit⟩ := simpleEscape?_of_letter hletter
    have hstep : step limit [] ⟨frames, .escape acc none⟩ e =
        .shift ⟨frames, .text (acc.push d) none⟩ := by
      simp [step, inEscape, hd, hunit]
    have hacc : acc ++ (String.utf8EncodeChar c ++ bytes) = acc.push d ++ bytes :=
      Array.ext' (by simp [hencode])
    rw [hacc]
    exact .shift step_text_backslash (.shift hstep (ih _))
  | @unit unit digits bytes body hdigits notHigh notLow _ ih =>
    have hclose : closeCodeUnit ⟨frames, .between⟩ acc none unit =
        .shift ⟨frames, .text (acc ++ CodeUnit.encode unit) none⟩ := by
      simp [closeCodeUnit, notHigh, notLow]
    have hacc : acc ++ (CodeUnit.encode unit ++ bytes) = acc ++ CodeUnit.encode unit ++ bytes :=
      Array.ext' (by simp)
    rw [hacc]
    exact .shift step_text_backslash (.shift step_escape_unit
      ((reads_unit hdigits hclose).append (ih _)))
  | @pair high low digits digits' bytes body hdigits isHigh hdigits' isLow _ ih =>
    have hfirst : closeCodeUnit ⟨frames, .between⟩ acc none high =
        .shift ⟨frames, .text acc (some high)⟩ := by
      simp [closeCodeUnit, isHigh]
    have hsecond : closeCodeUnit ⟨frames, .between⟩ acc (some high) low =
        .shift ⟨frames, .text (acc ++ CodeUnit.encode (CodeUnit.pair high low)) none⟩ := by
      simp [closeCodeUnit, isLow]
    have hacc : acc ++ (CodeUnit.encode (CodeUnit.pair high low) ++ bytes) =
        acc ++ CodeUnit.encode (CodeUnit.pair high low) ++ bytes := Array.ext' (by simp)
    rw [hacc]
    exact .shift step_text_backslash (.shift step_escape_unit ((reads_unit hdigits hfirst).append
      (.shift step_text_backslash (.shift step_escape_unit
        ((reads_unit hdigits' hsecond).append (ih _))))))

theorem reads_string {chars : List Char} {body rest : List UInt8} {token : Token}
    {next : List Frame} {tokens : List Token} {s : Scanner} (h : StringText chars body)
    (hplaced : placeText (String.ofList chars) frames = (token, next))
    (hrest : Reads limit ⟨next, .between⟩ rest tokens s) :
    Reads limit ⟨frames, .text #[] none⟩ (body ++ Ascii.quote :: rest) (token :: tokens) s := by
  have hpieces : Reads limit ⟨frames, .text #[] none⟩ body []
      ⟨frames, .text (chars.flatMap String.utf8EncodeChar).toArray none⟩ := by
    simpa using reads_pieces (pieces_of_stringText h) #[]
  have hutf8 : String.fromUTF8? ⟨(chars.flatMap String.utf8EncodeChar).toArray⟩ =
      some (String.ofList chars) := Utf8.fromUTF8?_eq_some_iff.mpr ⟨chars, rfl, rfl⟩
  have hend : step limit [] ⟨frames, .text (chars.flatMap String.utf8EncodeChar).toArray none⟩
      Ascii.quote = .consume (.ok token) ⟨next, .between⟩ := by
    rw [step_text_end hutf8, hplaced]
  exact hpieces.append (.consume hend hrest)

/-! ### Taking a string apart -/

section

variable {acc : Array UInt8} {high : Option Nat} {bytes : List UInt8} {token : Token}
  {tokens : List Token} {s : Scanner}

theorem digit_of_reads {value count : Nat} (hcount : count < 3)
    (h : Reads limit ⟨frames, .codeUnit acc high value count⟩ bytes (token :: tokens) s) :
    ∃ b digit rest, bytes = b :: rest ∧ Ascii.hexValue? b = some digit ∧
      Reads limit ⟨frames, .codeUnit acc high (16 * value + digit) (count + 1)⟩ rest
        (token :: tokens) s := by
  cases bytes with
  | nil => cases (reads_nil_iff.mp h).1
  | cons b rest =>
    cases hdigit : Ascii.hexValue? b with
    | some digit =>
      rw [reads_shift_iff (step_codeUnit_digit hdigit hcount)] at h
      exact ⟨b, digit, rest, rfl, hdigit, h⟩
    | none =>
      have hstep : step limit [] ⟨frames, .codeUnit acc high value count⟩ b =
          stuck ⟨frames, .codeUnit acc high value count⟩ (.invalidUnicodeEscape []) := by
        simp [step, inCodeUnit, hdigit]
      exact absurd h (not_reads_leave_fault hstep)

theorem closeCodeUnit_cases (s : Scanner) (acc : Array UInt8) (high : Option Nat) (unit : Nat) :
    (∃ acc' high', s.closeCodeUnit acc high unit =
        .shift { s with lexeme := .text acc' high' }) ∨
      ∃ cause next, s.closeCodeUnit acc high unit = .consume (.error cause) next := by
  unfold closeCodeUnit
  split
  · split
    · exact .inl ⟨_, _, rfl⟩
    · exact .inr ⟨_, _, rfl⟩
  · split
    · exact .inl ⟨_, _, rfl⟩
    · split
      · exact .inr ⟨_, _, rfl⟩
      · exact .inl ⟨_, _, rfl⟩

/-- What is read behind the letter of a code unit begins with its digits. -/
theorem unit_of_reads
    (h : Reads limit ⟨frames, .codeUnit acc high 0 0⟩ bytes (token :: tokens) s) :
    ∃ digits unit rest next, bytes = digits ++ rest ∧ UnitDigits unit digits ∧
      closeCodeUnit ⟨frames, .between⟩ acc high unit = .shift next ∧
      Reads limit next rest (token :: tokens) s := by
  obtain ⟨a, u, bytes, rfl, ha, h⟩ := digit_of_reads (by decide) h
  obtain ⟨b, v, bytes, rfl, hb, h⟩ := digit_of_reads (by decide) h
  obtain ⟨c, w, bytes, rfl, hc, h⟩ := digit_of_reads (by decide) h
  rw [Nat.mul_zero, Nat.zero_add] at h
  cases bytes with
  | nil => cases (reads_nil_iff.mp h).1
  | cons d rest =>
    cases hd : Ascii.hexValue? d with
    | none =>
      have hstep : step limit [] ⟨frames, .codeUnit acc high (16 * (16 * u + v) + w) 3⟩ d =
          stuck ⟨frames, .codeUnit acc high (16 * (16 * u + v) + w) 3⟩
            (.invalidUnicodeEscape []) := by
        simp [step, inCodeUnit, hd]
      exact absurd h (not_reads_leave_fault hstep)
    | some x =>
      have hlast : step limit [] ⟨frames, .codeUnit acc high (16 * (16 * u + v) + w) 3⟩ d = _ :=
        step_codeUnit_last hd
      rcases closeCodeUnit_cases ⟨frames, .between⟩ acc high (16 * (16 * (16 * u + v) + w) + x)
        with ⟨acc', high', hclose⟩ | ⟨cause, next, hclose⟩
      · rw [hclose] at hlast
        rw [reads_shift_iff hlast] at h
        exact ⟨[a, b, c, d], _, rest, _, rfl, ⟨a, b, c, d, u, v, w, x, rfl, ha, hb, hc, hd, rfl⟩,
          hclose, h⟩
      · rw [hclose] at hlast
        exact absurd h (not_reads_consume_fault hlast)

/-- After a high surrogate another escaped code unit is read. -/
theorem escape_of_reads_high {first : Nat}
    (h : Reads limit ⟨frames, .text acc (some first)⟩ bytes (token :: tokens) s) :
    ∃ rest, bytes = Ascii.backslash :: 0x75 :: rest ∧
      Reads limit ⟨frames, .codeUnit acc (some first) 0 0⟩ rest (token :: tokens) s := by
  cases bytes with
  | nil => cases (reads_nil_iff.mp h).1
  | cons b bytes =>
    by_cases hb : b = Ascii.backslash
    · subst hb
      rw [reads_shift_iff step_text_backslash] at h
      cases bytes with
      | nil => cases (reads_nil_iff.mp h).1
      | cons e rest =>
        by_cases he : e = 0x75
        · subst he
          rw [reads_shift_iff step_escape_unit] at h
          exact ⟨rest, rfl, h⟩
        · have hstep : step limit [] ⟨frames, .escape acc (some first)⟩ e =
              stuck ⟨frames, .escape acc (some first)⟩ (.unpairedSurrogate first) := by
            simp [step, inEscape, he]
          exact absurd h (not_reads_leave_fault hstep)
    · have hstep : step limit [] ⟨frames, .text acc (some first)⟩ b =
          stuck ⟨frames, .text acc (some first)⟩ (.unpairedSurrogate first) := by
        simp [step, inText, hb]
      exact absurd h (not_reads_leave_fault hstep)

/-- What is read behind the letter of a code unit is one character, with the other half of its pair
if it begins with a high surrogate. -/
theorem codeUnit_of_reads
    (h : Reads limit ⟨frames, .codeUnit acc none 0 0⟩ bytes (token :: tokens) s) :
    ∃ collected more rest, bytes = more ++ rest ∧
      (∀ later body', Pieces later body' →
        Pieces (collected ++ later) (Ascii.backslash :: 0x75 :: more ++ body')) ∧
      Reads limit ⟨frames, .text (acc ++ collected) none⟩ rest (token :: tokens) s := by
  obtain ⟨digits, unit, rest, next, rfl, hdigits, hclose, hrest⟩ := unit_of_reads h
  by_cases hhigh : CodeUnit.isHigh unit = true
  · -- a high surrogate, behind which its other half has to come
    have hnext : closeCodeUnit ⟨frames, .between⟩ acc none unit =
        .shift ⟨frames, .text acc (some unit)⟩ := by
      simp [closeCodeUnit, hhigh]
    cases hclose.symm.trans hnext
    obtain ⟨rest, rfl, hlast⟩ := escape_of_reads_high hrest
    obtain ⟨digits', low, rest, next, rfl, hdigits', hclose', hrest'⟩ := unit_of_reads hlast
    by_cases hlow : CodeUnit.isLow low = true
    · have hnext' : closeCodeUnit ⟨frames, .between⟩ acc (some unit) low =
          .shift ⟨frames, .text (acc ++ CodeUnit.encode (CodeUnit.pair unit low)) none⟩ := by
        simp [closeCodeUnit, hlow]
      cases hclose'.symm.trans hnext'
      refine ⟨CodeUnit.encode (CodeUnit.pair unit low),
        digits ++ Ascii.backslash :: 0x75 :: digits', rest, by simp, ?_, hrest'⟩
      intro later body' hlater
      have hpair := Pieces.pair hdigits hhigh hdigits' hlow hlater
      simpa using hpair
    · simp [closeCodeUnit, hlow] at hclose'
  · by_cases hlow : CodeUnit.isLow unit = true
    · simp [closeCodeUnit, hhigh, hlow] at hclose
    · have hnext : closeCodeUnit ⟨frames, .between⟩ acc none unit =
          .shift ⟨frames, .text (acc ++ CodeUnit.encode unit) none⟩ := by
        simp [closeCodeUnit, hhigh, hlow]
      cases hclose.symm.trans hnext
      refine ⟨CodeUnit.encode unit, digits, rest, rfl, ?_, hrest⟩
      intro later body' hlater
      exact .unit hdigits (Bool.eq_false_iff.mpr hhigh) (Bool.eq_false_iff.mpr hlow) hlater

/-- What the scanner finds when it has read a string up to its closing quote. -/
def ReadsPieces (limit : Nat) (frames : List Frame) (acc : Array UInt8) (bytes : List UInt8)
    (token : Token) (tokens : List Token) (s : Scanner) : Prop :=
  ∃ (collected body rest : List UInt8) (text : String),
    bytes = body ++ Ascii.quote :: rest ∧ Pieces collected body ∧
    String.fromUTF8? ⟨acc ++ collected⟩ = some text ∧ token = (placeText text frames).1 ∧
    Reads limit ⟨(placeText text frames).2, .between⟩ rest tokens s

theorem ReadsPieces.cons {collected body : List UInt8}
    (h : ReadsPieces limit frames (acc ++ collected) bytes token tokens s)
    (piece : ∀ later body', Pieces later body' → Pieces (collected ++ later) (body ++ body')) :
    ReadsPieces limit frames acc (body ++ bytes) token tokens s := by
  obtain ⟨later, body', rest, text, rfl, hpieces, hutf8, htoken, hrest⟩ := h
  refine ⟨collected ++ later, body ++ body', rest, text, ?_, piece later body' hpieces, ?_, htoken,
    hrest⟩
  · rw [List.append_assoc]
  · have hacc : acc ++ (collected ++ later) = acc ++ collected ++ later := Array.ext' (by simp)
    rwa [hacc]

/-- What is read from within a string consists of pieces up to a closing quote. -/
theorem pieces_of_reads
    (h : Reads limit ⟨frames, .text acc none⟩ bytes (token :: tokens) s) :
    ReadsPieces limit frames acc bytes token tokens s := by
  -- by length, since an escape takes several bytes
  induction hlength : bytes.length using Nat.strongRecOn generalizing bytes acc with
  | _ n ih =>
    subst hlength
    cases bytes with
    | nil => cases (reads_nil_iff.mp h).1
    | cons b bytes =>
      by_cases hbackslash : b = Ascii.backslash
      · subst hbackslash
        rw [reads_shift_iff step_text_backslash] at h
        cases bytes with
        | nil => cases (reads_nil_iff.mp h).1
        | cons e bytes =>
          by_cases he : e = 0x75
          · -- an escaped code unit, and for a high surrogate the other half of its pair
            subst he
            rw [reads_shift_iff step_escape_unit] at h
            obtain ⟨collected, more, rest, rfl, hpiece, hrest⟩ := codeUnit_of_reads h
            have hless : rest.length < (Ascii.backslash :: 0x75 :: (more ++ rest)).length := by
              simp only [List.length_cons, List.length_append]
              omega
            exact (ih _ hless hrest rfl).cons hpiece
          · cases hletter : simpleEscape? e with
            | some d =>
              have hstep : step limit [] ⟨frames, .escape acc none⟩ e =
                  .shift ⟨frames, .text (acc.push d) none⟩ := by
                simp [step, inEscape, he, hletter]
              rw [reads_shift_iff hstep] at h
              obtain ⟨c, hc, hencode⟩ := letter_of_simpleEscape? hletter
              have hacc : acc.push d = acc ++ String.utf8EncodeChar c := by
                rw [hencode]
                exact Array.ext' (by simp)
              rw [hacc] at h
              have hpiece (later body' : List UInt8) (hlater : Pieces later body') :
                  Pieces (String.utf8EncodeChar c ++ later) ([Ascii.backslash, e] ++ body') :=
                .letter hc hlater
              have hless : bytes.length < (Ascii.backslash :: e :: bytes).length := by
                simp only [List.length_cons]
                omega
              exact (ih _ hless h rfl).cons hpiece
            | none =>
              have hstep : step limit [] ⟨frames, .escape acc none⟩ e =
                  stuck ⟨frames, .escape acc none⟩ (.invalidEscape (Char.ofNat e.toNat)) := by
                simp [step, inEscape, he, hletter]
              exact absurd h (not_reads_leave_fault hstep)
      · by_cases hquote : b = Ascii.quote
        · subst hquote
          cases hutf8 : String.fromUTF8? ⟨acc⟩ with
          | some text =>
            rw [reads_consume_iff (step_text_end hutf8)] at h
            obtain ⟨rfl, hrest⟩ := h
            have hacc : acc ++ ([] : List UInt8) = acc := Array.ext' (by simp)
            exact ⟨[], [], bytes, text, rfl, .nil, by rwa [hacc], rfl, hrest⟩
          | none =>
            have hstep : step limit [] ⟨frames, .text acc none⟩ Ascii.quote =
                .consume (.error .invalidUtf8) ⟨frames, .between⟩ := by
              rw [step_text_quote, closeText]
              simp only [hutf8]
            exact absurd h (not_reads_consume_fault hstep)
        · by_cases hcontrol : Ascii.isControl b = true
          · have hstep : step limit [] ⟨frames, .text acc none⟩ b =
                stuck ⟨frames, .text acc none⟩ (.controlCharacter b) := by
              simp [step, inText, hbackslash, hquote, hcontrol]
            exact absurd h (not_reads_leave_fault hstep)
          · have hplain : PlainByte b := ⟨hquote, hbackslash, Bool.eq_false_iff.mpr hcontrol⟩
            rw [reads_shift_iff (step_text_plain hplain)] at h
            have hacc : acc.push b = acc ++ [b] := Array.ext' (by simp)
            rw [hacc] at h
            have hpiece (later body' : List UInt8) (hlater : Pieces later body') :
                Pieces ([b] ++ later) ([b] ++ body') := .plain hplain hlater
            exact (ih _ (Nat.lt_succ_self _) h rfl).cons hpiece

/-- What is read behind an opening quote begins with a string of the grammar. -/
theorem string_of_reads (h : Reads limit ⟨frames, .text #[] none⟩ bytes (token :: tokens) s) :
    ∃ chars body rest, bytes = body ++ Ascii.quote :: rest ∧ StringText chars body ∧
      token = (placeText (String.ofList chars) frames).1 ∧
      Reads limit ⟨(placeText (String.ofList chars) frames).2, .between⟩ rest tokens s := by
  obtain ⟨collected, body, rest, text, hbytes, hpieces, hutf8, htoken, hrest⟩ := pieces_of_reads h
  obtain ⟨chars, rfl, hchars⟩ := Utf8.fromUTF8?_eq_some_iff.mp hutf8
  rw [Array.toList_appendList, List.nil_append] at hchars
  exact ⟨chars, body, rest, hbytes, stringText_of_pieces hpieces hchars, htoken, hrest⟩

end

end Scanner

end StreamingJson
