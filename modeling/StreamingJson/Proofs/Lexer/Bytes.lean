import StreamingJson.Lexer.Progress
import StreamingJson.Proofs.Reading

/-!
# Reading byte by byte

The lexer takes runs of digits and of string bytes in one go. Here that is shown to be the same as
taking the bytes singly, and the reading of a whole chunk is given by a recursion on its bytes.

## Main definitions

- `Lexer.readBytes` — the reading of a chunk, byte by byte

## Main statements

- `Scanner.step_of_repeats` — what one byte of a run does to the scanner
- `Lexer.scan_shift` — a byte that completes nothing can be taken by itself
- `Lexer.reading_eq_readBytes` — the reading of a chunk is its reading byte by byte
-/

namespace StreamingJson

namespace NumberPhase

/-- In a part of a number that may have several digits a further digit changes nothing. -/
theorem after_digit {phase : NumberPhase} {b : UInt8} (hb : Ascii.isDigit b = true)
    (hphase : phase = .whole ∨ phase = .fraction ∨ phase = .exponent) :
    phase.after b = some phase := by
  rcases hphase with rfl | rfl | rfl <;> simp [after, hb]

end NumberPhase

namespace Lexeme

/-- A run of bytes that a lexeme repeats does not change which bytes it repeats. -/
theorem repeats_append (lexeme : Lexeme) (run : List UInt8) :
    (lexeme.append run).repeats = lexeme.repeats := by
  cases lexeme with
  | number phase digits => cases phase <;> rfl
  | text bytes high => cases high <;> rfl
  | between => rfl
  | word w missing => rfl
  | escape bytes high => rfl
  | codeUnit bytes high value count => rfl

theorem append_append (lexeme : Lexeme) (run more : List UInt8) :
    (lexeme.append run).append more = lexeme.append (run ++ more) := by
  cases lexeme with
  | number phase digits => exact congrArg _ (Array.ext' (by simp))
  | text bytes high => exact congrArg (Lexeme.text · high) (Array.ext' (by simp))
  | between => rfl
  | word w missing => rfl
  | escape bytes high => rfl
  | codeUnit bytes high value count => rfl

theorem append_nil (lexeme : Lexeme) : lexeme.append [] = lexeme := by
  cases lexeme <;> simp [append]

theorem ne_lineFeed_of_repeats {lexeme : Lexeme} {b : UInt8} (h : lexeme.repeats b = true) :
    b ≠ 0x0A := by
  rintro rfl
  revert h
  unfold repeats
  split <;> decide

end Lexeme

namespace Scanner

/-- A scanner that is in the middle of no value has nothing open and nothing begun. -/
theorem eq_of_not_isMidValue {s : Scanner} (h : s.isMidValue = false) : s = ⟨[], .between⟩ := by
  obtain ⟨frames, lexeme⟩ := s
  rw [isMidValue, Bool.or_eq_false_iff] at h
  obtain ⟨hframes, hlexeme⟩ := h
  obtain rfl : lexeme = .between := by simpa using hlexeme
  cases frames with
  | nil => rfl
  | cons frame outer => cases hframes

theorem step_of_repeats {limit : Nat} {shown : List UInt8} {s : Scanner} {b : UInt8}
    (h : s.lexeme.repeats b = true) :
    s.step limit shown b = .shift { s with lexeme := s.lexeme.append [b] } := by
  obtain ⟨frames, lexeme⟩ := s
  -- what repeats bytes is a number, in three of its parts, or a text with no surrogate pending
  unfold Lexeme.repeats at h
  split at h
  next digits b hlexeme =>
    subst hlexeme
    simp [step, inNumber, NumberPhase.after_digit h (.inl rfl), Lexeme.append]
  next digits b hlexeme =>
    subst hlexeme
    simp [step, inNumber, NumberPhase.after_digit h (.inr (.inl rfl)), Lexeme.append]
  next digits b hlexeme =>
    subst hlexeme
    simp [step, inNumber, NumberPhase.after_digit h (.inr (.inr rfl)), Lexeme.append]
  next bytes b hlexeme =>
    subst hlexeme
    simp only [Bool.and_eq_true, bne_iff_ne, Bool.not_eq_true'] at h
    obtain ⟨⟨hquote, hbackslash⟩, hcontrol⟩ := h
    simp [step, inText, hquote, hbackslash, hcontrol, Lexeme.append]
  next => simp at h

end Scanner

namespace Lexer

/-- A lexer that has the given bytes to read. -/
def loaded (l : Lexer) (bytes : List UInt8) : Lexer :=
  { l with unread := bytes }

/-- A lexer after a byte that its scanner took. -/
def past (l : Lexer) (b : UInt8) (next : Scanner) : Lexer :=
  { l with scanner := next, location := l.location.past b }

/-- A lexer whose scanner moved on without a byte. -/
def withScanner (l : Lexer) (next : Scanner) : Lexer :=
  { l with scanner := next }

theorem scan_loaded (l : Lexer) (u bytes : List UInt8) :
    (l.loaded u).scan bytes = l.scan bytes := by
  fun_induction scan l bytes with
  | case1 l => rw [scan]; rfl
  | case2 l b rest next hstep l₁ ih =>
    rw [scan]
    simp only [loaded, hstep]
    exact ih
  | case3 l b rest result next hstep =>
    rw [scan]
    simp only [loaded, hstep]
  | case4 l b rest result next hstep =>
    rw [scan]
    simp only [loaded, hstep]

/-- A run is read the same whether it is taken in one go or byte by byte. -/
theorem scan_takeRun (l : Lexer) (bytes : List UInt8) :
    (l.takeRun bytes).scan (bytes.dropWhile l.scanner.lexeme.repeats) = l.scan bytes := by
  cases bytes with
  | nil => simp [takeRun, Lexeme.append_nil, Location.right]
  | cons b rest =>
    by_cases hb : l.scanner.lexeme.repeats b = true
    · -- the scan of a run byte takes the rest of the run at once
      have hline : l.location.past b = l.location.right 1 := by
        simp [Location.past, Location.right, Lexeme.ne_lineFeed_of_repeats hb]
      conv => rhs; rw [scan]
      simp only [Scanner.step_of_repeats hb, hline]
      simp only [takeRun, List.takeWhile_cons, List.dropWhile_cons, hb, if_true,
        Lexeme.repeats_append, Lexeme.append_append, Location.right, List.length_cons,
        List.singleton_append]
      rw [Nat.add_comm _ 1, Nat.add_assoc]
    · simp [takeRun, hb, Lexeme.append_nil, Location.right]

/-- A byte that completes nothing can be taken by itself. -/
theorem scan_shift {l : Lexer} {b : UInt8} {rest : List UInt8} {next : Scanner}
    (h : l.scanner.step l.depthLimit (Utf8.leading (b :: rest)) b = .shift next) :
    l.scan (b :: rest) = (l.past b next).scan rest := by
  rw [scan]
  simp only [h]
  exact scan_takeRun (l.past b next) rest

theorem scan_consume {l : Lexer} {b : UInt8} {rest : List UInt8} {next : Scanner}
    {result : Except LexicalError Token}
    (h : l.scanner.step l.depthLimit (Utf8.leading (b :: rest)) b = .consume result next) :
    l.scan (b :: rest) = handBack ((l.past b next).loaded rest) result := by
  rw [scan]
  simp only [h]
  rfl

theorem scan_leave {l : Lexer} {b : UInt8} {rest : List UInt8} {next : Scanner}
    {result : Except LexicalError Token}
    (h : l.scanner.step l.depthLimit (Utf8.leading (b :: rest)) b = .leave result next) :
    l.scan (b :: rest) = handBack ((l.withScanner next).loaded (b :: rest)) result := by
  rw [scan]
  simp only [h]
  rfl

/-- The reading of a chunk, byte by byte. A token that is complete before a byte leaves that byte
to be read once more. -/
def readBytes (l : Lexer) : List UInt8 → Reading Lexer
  | [] => ⟨[], .ok (l.loaded [])⟩
  | b :: rest =>
    match _h : l.scanner.step l.depthLimit (Utf8.leading (b :: rest)) b with
    | .shift next => (l.past b next).readBytes rest
    | .consume (.ok token) next =>
      ((l.past b next).readBytes rest).prepend [⟨token, l.location.past b⟩]
    | .consume (.error cause) _ => ⟨[], .error ⟨cause, l.location.past b⟩⟩
    | .leave (.ok token) next =>
      ((l.withScanner next).readBytes (b :: rest)).prepend [⟨token, l.location⟩]
    | .leave (.error cause) _ => ⟨[], .error ⟨cause, l.location⟩⟩
termination_by bytes => 2 * bytes.length + if l.scanner.lexeme = .between then 0 else 1
decreasing_by
  · simp only [List.length_cons]
    split <;> split <;> omega
  · simp only [List.length_cons]
    split <;> split <;> omega
  · -- the byte stays, but the next step looks at it from between tokens
    have settles := l.scanner.settles_step l.depthLimit (Utf8.leading (b :: rest)) b
    rw [_h] at settles
    simp [withScanner, settles.1, settles.2]

section

variable {l : Lexer} {b : UInt8} {rest : List UInt8} {next : Scanner}

theorem readBytes_nil (l : Lexer) : l.readBytes [] = ⟨[], .ok (l.loaded [])⟩ := by
  rw [readBytes]

theorem readBytes_shift
    (h : l.scanner.step l.depthLimit (Utf8.leading (b :: rest)) b = .shift next) :
    l.readBytes (b :: rest) = (l.past b next).readBytes rest := by
  rw [readBytes]
  split <;> simp_all

theorem readBytes_consume_token {token : Token}
    (h : l.scanner.step l.depthLimit (Utf8.leading (b :: rest)) b = .consume (.ok token) next) :
    l.readBytes (b :: rest) =
      ((l.past b next).readBytes rest).prepend [⟨token, l.location.past b⟩] := by
  rw [readBytes]
  split <;> simp_all

theorem readBytes_consume_fault {cause : LexicalError}
    (h : l.scanner.step l.depthLimit (Utf8.leading (b :: rest)) b = .consume (.error cause) next) :
    l.readBytes (b :: rest) = ⟨[], .error ⟨cause, l.location.past b⟩⟩ := by
  rw [readBytes]
  split <;> simp_all

theorem readBytes_leave_token {token : Token}
    (h : l.scanner.step l.depthLimit (Utf8.leading (b :: rest)) b = .leave (.ok token) next) :
    l.readBytes (b :: rest) =
      ((l.withScanner next).readBytes (b :: rest)).prepend [⟨token, l.location⟩] := by
  rw [readBytes]
  split <;> simp_all

theorem readBytes_leave_fault {cause : LexicalError}
    (h : l.scanner.step l.depthLimit (Utf8.leading (b :: rest)) b = .leave (.error cause) next) :
    l.readBytes (b :: rest) = ⟨[], .error ⟨cause, l.location⟩⟩ := by
  rw [readBytes]
  split <;> simp_all

end

/-- The reading of a chunk is its reading byte by byte. -/
theorem reading_eq_readBytes (l : Lexer) (bytes : List UInt8) :
    TokenSource.reading (l.loaded bytes) = l.readBytes bytes := by
  have hnext : ∀ (m : Lexer) (u : List UInt8), TokenSource.next (m.loaded u) = m.scan u :=
    fun m u => scan_loaded m u u
  -- the cases are the answers of the scanner, and each is one answer of the source
  fun_induction readBytes l bytes with
  | case1 l => exact TokenSource.reading_of_none (by rw [hnext, scan]; rfl)
  | case2 l b rest next hstep ih =>
    rw [← ih]
    exact TokenSource.reading_congr (by rw [hnext, hnext, scan_shift hstep])
  | case3 l b rest token next hstep ih =>
    rw [← ih]
    exact TokenSource.reading_of_token (by rw [hnext, scan_consume hstep]; rfl)
  | case4 l b rest cause next hstep =>
    exact TokenSource.reading_of_fault (by rw [hnext, scan_consume hstep]; rfl)
  | case5 l b rest token next hstep ih =>
    rw [← ih]
    exact TokenSource.reading_of_token (by rw [hnext, scan_leave hstep]; rfl)
  | case6 l b rest cause next hstep =>
    exact TokenSource.reading_of_fault (by rw [hnext, scan_leave hstep]; rfl)

theorem readBytes_loaded (l : Lexer) (u bytes : List UInt8) :
    (l.loaded u).readBytes bytes = l.readBytes bytes := by
  rw [← reading_eq_readBytes, ← reading_eq_readBytes]
  rfl

end Lexer

end StreamingJson
