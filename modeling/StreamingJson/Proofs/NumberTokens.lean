import StreamingJson.Proofs.Grammar.Between
import StreamingJson.Proofs.Lexer.Seeking

/-!
# Which number is read

Where a value may stand and a minus or a digit comes next, the lexer takes as many bytes as can
begin a number literal. Only the byte behind them shows where the number ends. They are one token if
they are a literal, and a fault otherwise; in either case the byte behind them stays unread.

## Main definitions

- `BeginsNumber` — the beginnings of number literals
- `NumberPart` — the longest beginning of a text that is one
- `Lexer.Sought.IsNumber` — what a lexer should answer to it

## Main statements

- `NumberPhase.exists_run_longest` — the automaton goes as far as it can
- `NumberPhase.numberPart_of_reach` — as far as it goes a text can begin a literal
- `Lexer.seek_number` — what is read of a text that begins like a number, in whatever chunks
-/

namespace StreamingJson

/-- Bytes that begin a number literal. -/
def BeginsNumber (bytes : List UInt8) : Prop :=
  ∃ n isInteger more, NumberText n isInteger (bytes ++ more)

/-- The longest beginning of a text that begins a number literal. -/
structure NumberPart (text lit : List UInt8) : Prop where
  beginning : lit <+: text
  begins : BeginsNumber lit
  longest : ∀ bytes, bytes <+: text → BeginsNumber bytes → bytes <+: lit

theorem BeginsNumber.shorten {bytes lit : List UInt8} (h : BeginsNumber lit) (hle : bytes <+: lit) :
    BeginsNumber bytes := by
  obtain ⟨n, isInteger, more, htext⟩ := h
  obtain ⟨rest, rfl⟩ := hle
  rw [List.append_assoc] at htext
  exact ⟨n, isInteger, rest ++ more, htext⟩

/-! ## The automaton as far as it goes -/

namespace NumberPhase

/-- The automaton goes as far as it can. -/
theorem exists_run_longest (phase : NumberPhase) (bytes : List UInt8) :
    ∃ taken rest last, bytes = taken ++ rest ∧ phase.run taken = some last ∧
      ∀ b ∈ rest.head?, last.after b = none := by
  induction bytes generalizing phase with
  | nil => exact ⟨[], [], phase, rfl, rfl, by simp⟩
  | cons b bytes ih =>
    cases hafter : phase.after b with
    | none =>
      refine ⟨[], b :: bytes, phase, rfl, rfl, ?_⟩
      intro c hc
      rwa [← Option.some.inj hc]
    | some next =>
      obtain ⟨taken, rest, last, rfl, hrun, hstop⟩ := ih next
      refine ⟨b :: taken, rest, last, rfl, ?_, hstop⟩
      rw [run, hafter, Option.bind_some, hrun]

/-- From every phase some digit, or nothing, completes a literal. -/
theorem exists_run_isComplete (phase : NumberPhase) :
    ∃ more last, phase.run more = some last ∧ last.isComplete = true := by
  cases phase with
  | sign => exact ⟨[Ascii.zero], .zero, rfl, rfl⟩
  | zero => exact ⟨[], .zero, rfl, rfl⟩
  | whole => exact ⟨[], .whole, rfl, rfl⟩
  | point => exact ⟨[Ascii.zero], .fraction, rfl, rfl⟩
  | fraction => exact ⟨[], .fraction, rfl, rfl⟩
  | exponentMark => exact ⟨[Ascii.zero], .exponent, rfl, rfl⟩
  | exponentSign => exact ⟨[Ascii.zero], .exponent, rfl, rfl⟩
  | exponent => exact ⟨[], .exponent, rfl, rfl⟩

theorem numberText_of_reach_eq {bytes : List UInt8} {phase : NumberPhase}
    (h : reach bytes = some phase) (hcomplete : phase.isComplete = true) :
    ∃ n, NumberText n phase.isInteger bytes := by
  cases bytes with
  | nil => cases h
  | cons b bytes =>
    obtain ⟨first, hopening, hrun⟩ := Option.bind_eq_some_iff.mp h
    exact numberText_of_reach hopening hrun hcomplete

/-- What the automaton goes along with begins a literal. -/
theorem beginsNumber_of_reach {bytes : List UInt8} {phase : NumberPhase}
    (h : reach bytes = some phase) : BeginsNumber bytes := by
  obtain ⟨more, last, hmore, hcomplete⟩ := exists_run_isComplete phase
  obtain ⟨n, hn⟩ := numberText_of_reach_eq ((reach_append h more).trans hmore) hcomplete
  exact ⟨n, last.isInteger, more, hn⟩

/-- The automaton goes along with what begins a literal. -/
theorem exists_reach_of_beginsNumber {bytes : List UInt8} (h : BeginsNumber bytes)
    (hne : bytes ≠ []) : ∃ phase, reach bytes = some phase := by
  obtain ⟨n, isInteger, more, htext⟩ := h
  obtain ⟨last, hlast, -⟩ := reach_of_numberText htext
  obtain ⟨b, bytes, rfl⟩ := List.exists_cons_of_ne_nil hne
  rw [List.cons_append, reach] at hlast
  obtain ⟨first, hopening, hrun⟩ := Option.bind_eq_some_iff.mp hlast
  rw [run_append] at hrun
  obtain ⟨phase, hphase, -⟩ := Option.bind_eq_some_iff.mp hrun
  refine ⟨phase, ?_⟩
  rw [reach, hopening, Option.bind_some, hphase]

theorem exists_opening {b : UInt8} (h : b = Ascii.minus ∨ Ascii.isDigit b = true) :
    ∃ phase, opening b = some phase := by
  rw [opening]
  rcases h with rfl | h
  · exact ⟨.sign, if_pos rfl⟩
  · rw [if_pos h]
    split
    · exact ⟨.sign, rfl⟩
    · split
      · exact ⟨.zero, rfl⟩
      · exact ⟨.whole, rfl⟩

/-- Where the automaton stops is the end of the longest beginning of a literal. -/
theorem numberPart_of_reach {lit rest : List UInt8} {last : NumberPhase}
    (h : reach lit = some last) (hstop : ∀ b ∈ rest.head?, last.after b = none) :
    NumberPart (lit ++ rest) lit where
  beginning := List.prefix_append lit rest
  begins := beginsNumber_of_reach h
  longest := by
    intro bytes hbytes hbegins
    rcases List.prefix_or_prefix_of_prefix hbytes (List.prefix_append lit rest) with
      hle | ⟨tail, rfl⟩
    · exact hle
    · cases tail with
      | nil => simp
      | cons b tail =>
        -- a byte more would be one that the automaton stops at
        obtain ⟨more, rfl⟩ := (List.prefix_append_right_inj lit).mp hbytes
        have hnone : last.run (b :: tail) = none := by rw [run, hstop b rfl, Option.bind_none]
        obtain ⟨phase, hphase⟩ := exists_reach_of_beginsNumber hbegins (by simp)
        rw [reach_append h, hnone] at hphase
        cases hphase

end NumberPhase

namespace Numeral

theorem toInt_ofInt_of_inRange {i : Int} (h : inRange i = true) : (Int64.ofInt i).toInt = i := by
  have hmin : Int64.minValue.toInt = -2 ^ 63 := rfl
  have hmax : Int64.maxValue.toInt = 2 ^ 63 - 1 := rfl
  rw [inRange, Bool.and_eq_true, decide_eq_true_eq, decide_eq_true_eq, hmin, hmax] at h
  exact Int64.toInt_ofInt_of_le h.1 (by omega)

end Numeral

namespace Scanner

variable {limit : Nat} {frames : List Frame}

/-- What the automaton goes along with is taken where a value may stand. -/
theorem reads_of_reach {s : Scanner} (hbetween : s.lexeme = .between)
    (hplace : AwaitsValue s.frames) {bytes : List UInt8} {phase : NumberPhase}
    (h : NumberPhase.reach bytes = some phase) :
    Reads limit s bytes [] ⟨s.frames, .number phase bytes.toArray⟩ := by
  obtain ⟨frames, lexeme⟩ := s
  obtain rfl : lexeme = .between := hbetween
  cases bytes with
  | nil => cases h
  | cons b bytes =>
    obtain ⟨first, hopening, hrun⟩ := Option.bind_eq_some_iff.mp h
    have htext : (b :: bytes).toArray = #[b] ++ bytes := Array.ext' (by simp)
    rw [htext]
    exact .shift (step_number_first hplace (Lead.ofByte_of_opening hopening)) (reads_run hrun _)

/-- The byte at which the automaton stops ends a number, and is left. -/
theorem step_number_stop {phase : NumberPhase} {b : UInt8} (h : phase.after b = none)
    (lit : List UInt8) :
    ∃ next, step limit [] ⟨frames, .number phase lit.toArray⟩ b =
      .leave (if phase.isComplete then Numeral.token phase.isInteger lit
        else .error (.invalidCharacter [])) next := by
  by_cases hcomplete : phase.isComplete = true
  · cases htoken : Numeral.token phase.isInteger lit <;>
      simp [step, inNumber, h, hcomplete, htoken]
  · simp [step, inNumber, h, hcomplete, stuck]

end Scanner

/-! ## The answer -/

namespace Lexer

variable {l : Lexer} {chunks : List (List UInt8)}

/-- The answer to a number literal, or to the beginning of one behind which none can go on. -/
structure Sought.IsNumber (found : Sought) (lit : List UInt8) : Prop where
  integer : ∀ n, NumberText n true lit → Numeral.inRange n.toInt = true →
    ∃ i : Int64, i.toInt = n.toInt ∧ found.answer = .ok (some (.int i))
  outOfRange : ∀ n, NumberText n true lit → Numeral.inRange n.toInt = false →
    found.answer = .error
      ⟨.integerOutOfRange (String.ofList (lit.map fun b => Char.ofNat b.toNat)),
        found.lexer.location⟩
  float : ∀ n, NumberText n false lit → found.answer = .ok (some (.float n.toBinary64))
  incomplete : (∀ n isInteger, ¬NumberText n isInteger lit) →
    found.answer =
      .error ⟨.invalidCharacter (Utf8.leading found.lexer.unread), found.lexer.location⟩

/-- The parts of a literal decide how it is answered, and what is no literal is answered at the byte
behind it. -/
theorem isNumber_of_reach {lit : List UInt8} {phase : NumberPhase}
    (h : NumberPhase.reach lit = some phase) (found : Lexer) (rest : List (List UInt8)) :
    let result : Except LexicalError Token :=
      if phase.isComplete then Numeral.token phase.isInteger lit else .error (.invalidCharacter [])
    Sought.IsNumber
      ⟨(found.handBack (result.mapError (·.quoting (Utf8.leading found.unread)))).1, found, rest⟩
      lit := by
  intro result
  -- a literal ends in a phase where it is complete, and that tells integers from the others
  have hliteral {n : Numeral} {isInteger : Bool} (htext : NumberText n isInteger lit) :
      result = Numeral.token isInteger lit := by
    obtain ⟨last, hlast, hcomplete, hinteger⟩ := NumberPhase.reach_of_numberText htext
    cases h.symm.trans hlast
    rw [← hinteger]
    exact if_pos hcomplete
  constructor
  · intro n htext hrange
    have hresult := hliteral htext
    rw [Numeral.token_of_numberText htext, if_pos rfl, if_pos hrange] at hresult
    rw [hresult]
    exact ⟨_, Numeral.toInt_ofInt_of_inRange hrange, rfl⟩
  · intro n htext hrange
    have hresult := hliteral htext
    rw [Numeral.token_of_numberText htext, if_pos rfl, hrange, if_neg Bool.false_ne_true]
      at hresult
    rw [hresult]
    rfl
  · intro n htext
    have hresult := hliteral htext
    rw [Numeral.token_of_numberText htext, if_neg Bool.false_ne_true] at hresult
    rw [hresult]
    rfl
  · intro hnone
    have hcomplete : ¬phase.isComplete = true := by
      intro hcomplete
      obtain ⟨n, htext⟩ := NumberPhase.numberText_of_reach_eq h hcomplete
      exact hnone n phase.isInteger htext
    have hresult : result = .error (.invalidCharacter []) := if_neg hcomplete
    rw [hresult]
    rfl

/-- What is fed of a number completes no token and leaves a lexer inside a value. -/
theorem seek_of_beginsNumber (hbetween : l.scanner.lexeme = .between)
    (hplace : AwaitsValue l.scanner.frames)
    (hbegins : BeginsNumber (l.unread ++ chunks.flatten)) :
    (l.seek chunks).answer = .ok none ∧
      (l.unread ++ chunks.flatten ≠ [] → (l.seek chunks).lexer.isMidValue = true) := by
  by_cases hne : l.unread ++ chunks.flatten = []
  · have hreads : Scanner.Reads l.depthLimit l.scanner (l.unread ++ chunks.flatten) [] l.scanner :=
      hne ▸ .done _
    rw [seek_of_reads hreads]
    exact ⟨rfl, fun h => absurd hne h⟩
  · obtain ⟨phase, hphase⟩ := NumberPhase.exists_reach_of_beginsNumber hbegins hne
    rw [seek_of_reads (Scanner.reads_of_reach hbetween hplace hphase)]
    exact ⟨rfl, fun _ => Bool.or_true _⟩

/-- Where a value may stand and the text, in whatever chunks, goes on with a minus or a digit, as
many bytes are taken as can begin a number literal. As long as no byte behind them is fed there is
no token, and the lexer is inside a value. With that byte the number is complete, or there is a
fault; the byte stays unread, and the lexer stands in front of it. -/
theorem seek_number {first : UInt8} {more : List UInt8} (hbetween : l.scanner.lexeme = .between)
    (hplace : AwaitsValue l.scanner.frames)
    (hfirst : first = Ascii.minus ∨ Ascii.isDigit first = true)
    (htext : l.unread ++ chunks.flatten = first :: more) :
    ∃ lit, NumberPart (first :: more) lit ∧
      (∀ count, l.unread ++ (chunks.take count).flatten <+: lit →
        (l.seek (chunks.take count)).answer = .ok none ∧
          (l.unread ++ (chunks.take count).flatten ≠ [] →
            (l.seek (chunks.take count)).lexer.isMidValue = true)) ∧
      ∀ b rest, first :: more = lit ++ b :: rest →
        (l.seek chunks).IsNumber lit ∧
          (l.seek chunks).lexer.location = l.location.pastAll lit ∧
          ∃ seen, (l.seek chunks).lexer.unread = b :: seen ∧
            rest = seen ++ (l.seek chunks).rest.flatten := by
  obtain ⟨phase, hopening⟩ := NumberPhase.exists_opening hfirst
  obtain ⟨taken, behind, last, rfl, hrun, hstop⟩ := phase.exists_run_longest more
  have hreach : NumberPhase.reach (first :: taken) = some last := by
    rw [NumberPhase.reach, hopening, Option.bind_some, hrun]
  have hpart := NumberPhase.numberPart_of_reach hreach hstop
  refine ⟨first :: taken, hpart, ?_, ?_⟩
  · intro count hfed
    exact seek_of_beginsNumber hbetween hplace (hpart.begins.shorten hfed)
  · intro b rest hbehind
    obtain rfl : behind = b :: rest := by
      rw [← List.cons_append] at hbehind
      exact List.append_cancel_left hbehind
    obtain ⟨next, hstep⟩ := Scanner.step_number_stop (hstop b rfl) (first :: taken)
    obtain ⟨seen, later, hrest, hseek⟩ :=
      seek_of_leave (Scanner.reads_of_reach hbetween hplace hreach) hstep htext
    rw [hseek]
    exact ⟨isNumber_of_reach hreach _ later, rfl, seen, rfl, hrest⟩

/-- The text `-1.5,` of which the minus is fed, cut before and behind the digit of the fraction. -/
theorem seek_number_inside_fraction :
    let l : Lexer := { depthLimit := 8, unread := [0x2D] }
    let chunks : List (List UInt8) := [[0x31, 0x2E], [0x35], [0x2C]]
    l.scanner.lexeme = .between ∧ AwaitsValue l.scanner.frames ∧
      ((0x2D : UInt8) = Ascii.minus ∨ Ascii.isDigit 0x2D = true) ∧
      l.unread ++ chunks.flatten = 0x2D :: [0x31, 0x2E, 0x35, 0x2C] ∧
      ∃ lit, NumberPart (0x2D :: [0x31, 0x2E, 0x35, 0x2C]) lit ∧
        (∀ count, l.unread ++ (chunks.take count).flatten <+: lit →
          (l.seek (chunks.take count)).answer = .ok none ∧
            (l.unread ++ (chunks.take count).flatten ≠ [] →
              (l.seek (chunks.take count)).lexer.isMidValue = true)) ∧
        ∀ b rest, 0x2D :: [0x31, 0x2E, 0x35, 0x2C] = lit ++ b :: rest →
          (l.seek chunks).IsNumber lit ∧
            (l.seek chunks).lexer.location = l.location.pastAll lit ∧
            ∃ seen, (l.seek chunks).lexer.unread = b :: seen ∧
              rest = seen ++ (l.seek chunks).rest.flatten :=
  ⟨rfl, .root, .inl rfl, rfl, seek_number rfl .root (.inl rfl) rfl⟩

end Lexer

end StreamingJson
