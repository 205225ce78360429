import StreamingJson.Proofs.Grammar.Between
import StreamingJson.Proofs.Grammar.Spelling
import StreamingJson.Proofs.Lexer.History

/-!
# Tokens read in part

What a scanner keeps of a token that it has read in part is determined by the text since the token
began: the text itself for a number, what is missing of a word, and the bytes that the text stands
for in a string. There an escape that has no partner is skipped after the fault, and a high
surrogate is kept aside until the next escape is complete. This is so at every point of every
history, also after faults.

## Main definitions

- `Gathered` — the bytes that the text of a string stands for up to some point
- `Lexeme.Keeps` — what a token read in part keeps of its text
- `Scanner.PartOf` — the part that is read of a token, in the text that it is read from

## Main statements

- `NumberPhase.isInteger_eq_false_iff` — which numbers are read as having a fraction or an exponent
- `Scanner.keeps_step` — what a byte adds to a token read in part
- `Scanner.exists_part` — a token read in part keeps the text since the scanner was between tokens
-/

namespace StreamingJson

/-! ## Numbers -/

namespace NumberPhase

theorem not_mark_of_isDigit {b : UInt8} (h : Ascii.isDigit b = true ∨ b = Ascii.minus) :
    ¬(b = Ascii.point ∨ Ascii.isExponentMark b = true) := by
  rintro (rfl | hmark)
  · revert h
    decide
  · rcases h with hdigit | rfl
    · rw [Ascii.not_isDigit_of_isExponentMark hmark] at hdigit
      cases hdigit
    · revert hmark
      decide

theorem sign_or_digit {negative : Bool} {sign digits : List UInt8} (hsign : SignText negative sign)
    (hdigits : ∀ b ∈ digits, Ascii.isDigit b = true) :
    ∀ b ∈ sign ++ digits, Ascii.isDigit b = true ∨ b = Ascii.minus := by
  intro b hb
  rcases List.mem_append.mp hb with hb | hb
  · cases hsign with
    | absent => cases hb
    | minus => exact .inr (List.mem_singleton.mp hb)
  · exact .inl (hdigits b hb)

/-- A number has a fraction or an exponent if it has a point or the letter of an exponent. -/
theorem isInteger_eq_false_iff {phase : NumberPhase} {text : List UInt8} (h : Reached phase text) :
    phase.isInteger = false ↔ ∃ b ∈ text, b = Ascii.point ∨ Ascii.isExponentMark b = true := by
  have hinteger {phase : NumberPhase} {text : List UInt8} (hphase : phase.isInteger = true)
      (htext : ∀ b ∈ text, Ascii.isDigit b = true ∨ b = Ascii.minus) :
      phase.isInteger = false ↔ ∃ b ∈ text, b = Ascii.point ∨ Ascii.isExponentMark b = true := by
    rw [hphase]
    refine ⟨fun hfalse => (nomatch hfalse), fun ⟨b, hb, hmark⟩ => ?_⟩
    exact absurd hmark (not_mark_of_isDigit (htext b hb))
  have hfloat {phase : NumberPhase} {text : List UInt8} {b : UInt8}
      (hphase : phase.isInteger = false) (hb : b ∈ text)
      (hmark : b = Ascii.point ∨ Ascii.isExponentMark b = true) :
      phase.isInteger = false ↔ ∃ b ∈ text, b = Ascii.point ∨ Ascii.isExponentMark b = true :=
    ⟨fun _ => ⟨b, hb, hmark⟩, fun _ => hphase⟩
  cases h with
  | sign => exact hinteger rfl fun b hb => .inr (List.mem_singleton.mp hb)
  | zero hsign => exact hinteger rfl (sign_or_digit hsign whole_zero.1.2)
  | whole hsign hdigits hfirst => exact hinteger rfl (sign_or_digit hsign hdigits.2)
  | point hsign hwhole => exact hfloat rfl (List.mem_append_right _ List.mem_cons_self) (.inl rfl)
  | fraction hsign hwhole hdigits =>
    exact hfloat rfl (List.mem_append_right _ List.mem_cons_self) (.inl rfl)
  | exponentMark hsign hwhole hfraction hmark =>
    exact hfloat rfl (List.mem_append_right _ List.mem_cons_self) (.inr hmark)
  | exponentSign hsign hwhole hfraction hmark hplusMinus =>
    exact hfloat rfl (List.mem_append_right _ List.mem_cons_self) (.inr hmark)
  | exponent hsign hwhole hfraction htail hne =>
    cases htail with
    | absent => exact absurd rfl hne
    | unsigned letter | plus letter | minus letter =>
      exact hfloat rfl (List.mem_append_right _ List.mem_cons_self) (.inr letter)

end NumberPhase

/-! ## Words and strings -/

/-- The bytes of a word. -/
def Word.text : Word → List UInt8
  | .true => [0x74, 0x72, 0x75, 0x65]
  | .false => [0x66, 0x61, 0x6C, 0x73, 0x65]
  | .null => [0x6E, 0x75, 0x6C, 0x6C]

/-- The first digits of a code unit, and their value. -/
inductive UnitBegins : Nat → List UInt8 → Prop where
  | nil : UnitBegins 0 []
  | digit {value digit : Nat} {digits : List UInt8} {b : UInt8} (h : UnitBegins value digits)
    (hb : Ascii.hexValue? b = some digit) : UnitBegins (16 * value + digit) (digits ++ [b])

theorem UnitBegins.exists_concat {value n : Nat} {digits : List UInt8} (h : UnitBegins value digits)
    (hlength : digits.length = n + 1) :
    ∃ v x init b, value = 16 * v + x ∧ digits = init ++ [b] ∧ Ascii.hexValue? b = some x ∧
      UnitBegins v init ∧ init.length = n := by
  cases h with
  | nil => cases hlength
  | digit h hb =>
    rw [List.length_append] at hlength
    exact ⟨_, _, _, _, rfl, rfl, hb, h, Nat.succ.inj hlength⟩

/-- Four digits are a code unit. -/
theorem UnitBegins.unitDigits {unit : Nat} {digits : List UInt8} (h : UnitBegins unit digits)
    (hlength : digits.length = 4) : UnitDigits unit digits := by
  obtain ⟨_, x, _, d, rfl, rfl, hd, h, hlength⟩ := h.exists_concat hlength
  obtain ⟨_, w, _, c, rfl, rfl, hc, h, hlength⟩ := h.exists_concat hlength
  obtain ⟨_, v, _, b, rfl, rfl, hb, h, hlength⟩ := h.exists_concat hlength
  obtain ⟨_, u, _, a, rfl, rfl, ha, h, hlength⟩ := h.exists_concat hlength
  obtain rfl := List.eq_nil_of_length_eq_zero hlength
  generalize hnil : ([] : List UInt8) = none at h
  cases h with
  | nil => exact ⟨a, b, c, d, u, v, w, x, rfl, ha, hb, hc, hd, by rw [Nat.mul_zero, Nat.zero_add]⟩
  | digit => exact absurd hnil.symm (List.append_ne_nil_of_right_ne_nil _ (List.cons_ne_nil _ _))

/-- The text of a string up to some point between escapes: the bytes that it stands for and the high
surrogate that ends it, if one does. Escapes that were found to have no partner stand for
nothing. -/
inductive Gathered : List UInt8 → Option Nat → List UInt8 → Prop where
  | nil : Gathered [] none []
  | plain {bytes body : List UInt8} {b : UInt8} (h : Gathered bytes none body) (hb : PlainByte b) :
    Gathered (bytes ++ [b]) none (body ++ [b])
  | letter {bytes body : List UInt8} {e : UInt8} {c : Char} (h : Gathered bytes none body)
    (hletter : EscapeLetter e c) :
    Gathered (bytes ++ String.utf8EncodeChar c) none (body ++ [Ascii.backslash, e])
  | unit {bytes body text : List UInt8} {unit : Nat} (h : Gathered bytes none body)
    (hunit : UnitText unit text) (notHigh : CodeUnit.isHigh unit = false)
    (notLow : CodeUnit.isLow unit = false) :
    Gathered (bytes ++ CodeUnit.encode unit) none (body ++ text)
  | high {bytes body text : List UInt8} {unit : Nat} (h : Gathered bytes none body)
    (hunit : UnitText unit text) (isHigh : CodeUnit.isHigh unit = true) :
    Gathered bytes (some unit) (body ++ text)
  | pair {bytes body text : List UInt8} {first unit : Nat} (h : Gathered bytes (some first) body)
    (hunit : UnitText unit text) (isLow : CodeUnit.isLow unit = true) :
    Gathered (bytes ++ CodeUnit.encode (CodeUnit.pair first unit)) none (body ++ text)
  /-- A low surrogate without a high one before it. -/
  | strayLow {bytes body text : List UInt8} {unit : Nat} (h : Gathered bytes none body)
    (hunit : UnitText unit text) (isLow : CodeUnit.isLow unit = true) :
    Gathered bytes none (body ++ text)
  /-- A high surrogate and then a code unit that is no low one. -/
  | strayHigh {bytes body text : List UInt8} {first unit : Nat}
    (h : Gathered bytes (some first) body) (hunit : UnitText unit text)
    (notLow : CodeUnit.isLow unit = false) : Gathered bytes none (body ++ text)

/-- What a token read in part keeps of its text. -/
def Lexeme.Keeps : Lexeme → List UInt8 → Prop
  | .between, part => part = []
  | .word w missing, part => part ≠ [] ∧ missing ≠ [] ∧ part ++ missing = w.text
  | .number phase digits, part =>
    digits.toList = part ∧ phase.Reached part ∧
      (phase.isInteger = false ↔ ∃ b ∈ part, b = Ascii.point ∨ Ascii.isExponentMark b = true)
  | .text bytes high, part => ∃ body, part = Ascii.quote :: body ∧ Gathered bytes.toList high body
  | .escape bytes high, part =>
    ∃ body, part = Ascii.quote :: (body ++ [Ascii.backslash]) ∧ Gathered bytes.toList high body
  | .codeUnit bytes high value count, part =>
    ∃ body digits, part = Ascii.quote :: (body ++ Ascii.backslash :: 0x75 :: digits) ∧
      Gathered bytes.toList high body ∧ UnitBegins value digits ∧ digits.length = count ∧ count < 4

/-- The beginning of an escape that may become a code unit. -/
def EscapeBegins (text : List UInt8) : Prop :=
  text = [] ∨ text = [Ascii.backslash] ∨ ∃ value digits,
    text = Ascii.backslash :: 0x75 :: digits ∧ UnitBegins value digits ∧ digits.length < 4

namespace Scanner

/-- The step adds the byte to the part that is read of a token, if one is read in part before and
after it. A byte that is left may only end the token. -/
def Follows (s : Scanner) (part : List UInt8) (b : UInt8) : Step → Prop
  | .shift next | .consume _ next =>
    next.lexeme = .between ∨ next.frames = s.frames ∧ next.lexeme.Keeps (part ++ [b])
  | .leave _ next => next.lexeme = .between ∨ next = s

section

variable {limit : Nat} {shown part : List UInt8} {s : Scanner} {b : UInt8} {outer : List Frame}

theorem follows_quote (hb : Lead.ofByte b = .quote) :
    s.Follows [] b (.shift { s with lexeme := .text #[] none }) := by
  obtain rfl : b = Ascii.quote := Lead.eq_of_byte? hb rfl
  exact .inr ⟨rfl, [], rfl, .nil⟩

theorem follows_beginValue (hs : s.lexeme = .between) {lead : Lead} (hb : Lead.ofByte b = lead) :
    s.Follows [] b (s.beginValue limit shown b lead) := by
  cases lead with
  | openObject | openArray =>
    rw [beginValue, openContainer]
    split
    · exact .inr rfl
    · exact .inl hs
  | quote => exact follows_quote hb
  | word w =>
    cases w with
    | true | false | null =>
      obtain rfl := Lead.eq_of_byte? hb rfl
      exact .inr ⟨rfl, List.cons_ne_nil _ _, List.cons_ne_nil _ _, rfl⟩
  | number phase =>
    have hreached := NumberPhase.reached_opening (Lead.opening_of_ofByte hb)
    exact .inr ⟨rfl, rfl, hreached, NumberPhase.isInteger_eq_false_iff hreached⟩
  | _ => exact .inr rfl

theorem follows_between (hs : s.lexeme = .between) : s.Follows [] b (s.between limit shown b) := by
  have begins {lead : Lead} (hb : Lead.ofByte b = lead) :
      s.Follows [] b (s.beginValue limit shown b lead) := follows_beginValue hs hb
  unfold between
  split
  · exact .inl hs
  · split
    · unfold atRoot
      split <;> first | exact .inl hs | exact begins rfl
    · unfold inArray
      split <;> first | exact .inl hs | exact begins rfl
    · unfold inObject
      split <;> first | exact .inl hs | exact follows_quote (by assumption) | exact begins rfl

theorem follows_inWord {w : Word} {missing : List UInt8} (h : (Lexeme.word w missing).Keeps part) :
    s.Follows part b (s.inWord shown b w missing) := by
  obtain ⟨hpart, hmissing, htext⟩ := h
  cases missing with
  | nil => exact absurd rfl hmissing
  | cons expected missing =>
    rw [inWord]
    split
    · exact .inr rfl
    next hb =>
      obtain rfl : b = expected := not_not.mp hb
      split
      · exact .inl rfl
      next hmore =>
        refine .inr ⟨rfl, List.append_ne_nil_of_left_ne_nil hpart _, ?_, ?_⟩
        · exact fun hnil => hmore (List.isEmpty_iff.mpr hnil)
        · rwa [List.append_assoc, List.singleton_append]

theorem follows_inNumber {phase : NumberPhase} {digits : Array UInt8}
    (h : (Lexeme.number phase digits).Keeps part) :
    s.Follows part b (s.inNumber shown b phase digits) := by
  obtain ⟨rfl, hreached, -⟩ := h
  rw [inNumber]
  split
  next next hafter =>
    have hnext := NumberPhase.reached_after hreached hafter
    exact .inr ⟨rfl, Array.toList_push, hnext, NumberPhase.isInteger_eq_false_iff hnext⟩
  · split
    · split <;> exact .inl rfl
    · exact .inr rfl

theorem follows_inText {bytes : Array UInt8} {high : Option Nat}
    (h : (Lexeme.text bytes high).Keeps part) : s.Follows part b (s.inText b bytes high) := by
  obtain ⟨body, rfl, hbody⟩ := h
  unfold inText
  split
  next hb =>
    rw [hb]
    exact .inr ⟨rfl, body, rfl, hbody⟩
  next hbackslash =>
    split
    · exact .inr rfl
    · split
      · unfold closeText
        split <;> exact .inl rfl
      next hquote =>
        split
        · exact .inr rfl
        next hcontrol =>
          refine .inr ⟨rfl, body ++ [b], rfl, ?_⟩
          rw [Array.toList_push]
          exact .plain hbody ⟨hquote, hbackslash, Bool.eq_false_iff.mpr hcontrol⟩

theorem follows_inEscape {bytes : Array UInt8} {high : Option Nat}
    (h : (Lexeme.escape bytes high).Keeps part) : s.Follows part b (s.inEscape b bytes high) := by
  obtain ⟨body, rfl, hbody⟩ := h
  unfold inEscape
  split
  next hb =>
    rw [hb]
    refine .inr ⟨rfl, body, [], ?_, hbody, .nil, rfl, by decide⟩
    simp
  · split
    · exact .inr rfl
    · split
      next decoded hdecoded =>
        obtain ⟨c, hletter, hencode⟩ := letter_of_simpleEscape? hdecoded
        refine .inr ⟨rfl, body ++ [Ascii.backslash, b], by simp, ?_⟩
        rw [Array.toList_push, ← hencode]
        exact .letter hbody hletter
      · exact .inr rfl

/-- A complete code unit is taken up, kept aside or skipped. -/
theorem follows_closeCodeUnit {bytes : Array UInt8} {high : Option Nat} {unit : Nat}
    {body text : List UInt8} (hbody : Gathered bytes.toList high body) (hunit : UnitText unit text)
    (hpart : part ++ [b] = Ascii.quote :: (body ++ text)) :
    s.Follows part b (s.closeCodeUnit bytes high unit) := by
  have hgathers {bytes' : Array UInt8} {high' : Option Nat}
      (h : Gathered bytes'.toList high' (body ++ text)) :
      (Lexeme.text bytes' high').Keeps (part ++ [b]) := ⟨body ++ text, hpart, h⟩
  unfold closeCodeUnit
  split
  · split
    next hlow =>
      refine .inr ⟨rfl, hgathers ?_⟩
      rw [Array.toList_appendList]
      exact .pair hbody hunit hlow
    next hlow => exact .inr ⟨rfl, hgathers (.strayHigh hbody hunit (Bool.eq_false_iff.mpr hlow))⟩
  · split
    next hhigh => exact .inr ⟨rfl, hgathers (.high hbody hunit hhigh)⟩
    next hhigh =>
      split
      next hlow => exact .inr ⟨rfl, hgathers (.strayLow hbody hunit hlow)⟩
      next hlow =>
        refine .inr ⟨rfl, hgathers ?_⟩
        rw [Array.toList_appendList]
        exact .unit hbody hunit (Bool.eq_false_iff.mpr hhigh) (Bool.eq_false_iff.mpr hlow)

theorem follows_inCodeUnit {bytes : Array UInt8} {high : Option Nat} {value count : Nat}
    (h : (Lexeme.codeUnit bytes high value count).Keeps part) :
    s.Follows part b (s.inCodeUnit shown b bytes high value count) := by
  obtain ⟨body, digits, rfl, hbody, hdigits, hlength, hcount⟩ := h
  rw [inCodeUnit]
  split
  · exact .inr rfl
  next digit hdigit =>
    have hpart : Ascii.quote :: (body ++ Ascii.backslash :: 0x75 :: digits) ++ [b] =
        Ascii.quote :: (body ++ Ascii.backslash :: 0x75 :: (digits ++ [b])) := by simp
    have hlonger : (digits ++ [b]).length = count + 1 := by
      rw [List.length_append, hlength]
      rfl
    split
    next hfewer =>
      exact .inr ⟨rfl, body, digits ++ [b], hpart, hbody, .digit hdigits hdigit, hlonger,
        Nat.succ_lt_succ hfewer⟩
    next hlast =>
      obtain rfl : count = 3 := by omega
      have hunit := (hdigits.digit hdigit).unitDigits hlonger
      exact follows_closeCodeUnit hbody ⟨_, hunit, rfl⟩ hpart

/-- What a byte adds to a token read in part, if it does not end it. -/
theorem keeps_step (h : s.lexeme.Keeps part) : s.Follows part b (s.step limit shown b) := by
  rw [step]
  cases hs : s.lexeme with rw [hs] at h
  | between =>
    obtain rfl : part = [] := h
    exact follows_between hs
  | word w missing => exact follows_inWord h
  | number phase digits => exact follows_inNumber h
  | text bytes high => exact follows_inText h
  | escape bytes high => exact follows_inEscape h
  | codeUnit bytes high value count => exact follows_inCodeUnit h

end

/-! ## Histories -/

/-- The text up to what is left ends in the given part, in front of which the scanner was between
tokens with the given open containers. -/
structure Began (limit : Nat) (text : List UInt8) (frames : List Frame) (left part : List UInt8) :
    Prop where
  split : ∃ before, text = before ++ part ++ left
  proceeds : Proceeds limit ({}, text) (⟨frames, .between⟩, part ++ left)

/-- The text up to what is left ends in the part that is read of a token. -/
structure PartOf (limit : Nat) (text : List UInt8) (s : Scanner) (left part : List UInt8) :
    Prop where
  began : Began limit text s.frames left part
  keeps : s.lexeme.Keeps part

variable {limit : Nat} {text left rest part : List UInt8} {s next : Scanner} {b : UInt8}
  {frames : List Frame}

/-- A byte that is taken makes the part longer. -/
theorem Began.concat (h : Began limit text frames (b :: rest) part) :
    Began limit text frames rest (part ++ [b]) := by
  obtain ⟨⟨before, htext⟩, hproceeds⟩ := h
  refine ⟨⟨before, ?_⟩, ?_⟩
  · rw [htext]
    simp only [List.append_assoc, List.singleton_append]
  · rwa [List.append_assoc, List.singleton_append]

theorem partOf_between (h : Proceeds limit ({}, text) (s, left)) (hs : s.lexeme = .between)
    (htext : left <:+ text) : PartOf limit text s left [] := by
  obtain ⟨frames, lexeme⟩ := s
  obtain rfl : lexeme = .between := hs
  obtain ⟨before, rfl⟩ := htext
  exact ⟨⟨⟨before, by rw [List.append_nil]⟩, h⟩, rfl⟩

/-- The part after a byte that is taken. -/
theorem PartOf.taken (h : PartOf limit text s (b :: rest) part)
    (hlast : Proceeds limit ({}, text) (next, rest))
    (hfollows : next.lexeme = .between ∨
      next.frames = s.frames ∧ next.lexeme.Keeps (part ++ [b])) :
    ∃ part, PartOf limit text next rest part := by
  have hbegan := h.began.concat
  rcases hfollows with hbetween | ⟨hframes, hkeeps⟩
  · obtain ⟨before, htext⟩ := hbegan.split
    exact ⟨[], partOf_between hlast hbetween ⟨before ++ (part ++ [b]), htext.symm⟩⟩
  · rw [← hframes] at hbegan
    exact ⟨part ++ [b], hbegan, hkeeps⟩

/-- A token read in part keeps the text since the scanner was last between tokens. -/
theorem exists_part {c : Scanner × List UInt8} (h : Proceeds limit ({}, text) c) :
    ∃ part, PartOf limit text c.1 c.2 part := by
  induction h with
  | refl => exact ⟨[], partOf_between .refl rfl (List.suffix_refl text)⟩
  | tail hproceeds hturn ih =>
    have hlast := Relation.ReflTransGen.tail hproceeds hturn
    obtain ⟨part, hpart⟩ := ih
    cases hturn with
    | @shift s next b rest shown hstep
    | @consume s next b rest shown result hstep =>
      have hfollows : s.Follows part b (s.step limit shown b) := keeps_step hpart.keeps
      rw [hstep] at hfollows
      exact hpart.taken hlast hfollows
    | @leave s next b rest shown result hstep =>
      have hfollows : s.Follows part b (s.step limit shown b) := keeps_step hpart.keeps
      rw [hstep] at hfollows
      rcases hfollows with hbetween | rfl
      · obtain ⟨before, htext⟩ := hpart.began.split
        exact ⟨[], partOf_between hlast hbetween ⟨before ++ part, htext.symm⟩⟩
      · exact ⟨part, hpart⟩

end Scanner

end StreamingJson
