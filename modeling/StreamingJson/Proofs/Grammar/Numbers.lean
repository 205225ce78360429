import StreamingJson.Proofs.Grammar.Scanning
import StreamingJson.Proofs.Grammar.Text

/-!
# Reading numbers

The automaton for number literals accepts the literals of the grammar and no others, and the parts
that are read off a literal are those that the grammar gives it.

## Main definitions

- `NumberPhase.run`, `NumberPhase.reach` — the automaton on several bytes
- `NumberPhase.Reached` — the beginnings of literals that lead to a phase

## Main statements

- `Numeral.ofText_of_numberText` — the parts of a literal
- `NumberPhase.reach_of_numberText` — the automaton accepts literals
- `NumberPhase.numberText_of_reach` — what the automaton accepts is a literal
- `Scanner.reads_number`, `Scanner.number_of_reads` — how a scanner reads a number
-/

namespace StreamingJson

/-! ## The parts of a literal -/

namespace Ascii

theorem not_isDigit_of_isExponentMark {b : UInt8} (h : isExponentMark b = true) :
    isDigit b = false := by
  simp only [isExponentMark, Bool.or_eq_true, beq_iff_eq] at h
  rcases h with rfl | rfl <;> decide

theorem ne_point_of_isExponentMark {b : UInt8} (h : isExponentMark b = true) : b ≠ point := by
  rintro rfl
  exact absurd h (by decide)

theorem ne_minus_of_isDigit {b : UInt8} (h : isDigit b = true) : b ≠ minus := by
  rintro rfl
  exact absurd h (by decide)

theorem ne_plus_of_isDigit {b : UInt8} (h : isDigit b = true) : b ≠ plus := by
  rintro rfl
  exact absurd h (by decide)

end Ascii

namespace Numeral

theorem span_digits {digits rest : List UInt8} (h : ∀ b ∈ digits, Ascii.isDigit b = true)
    (hrest : ∀ b ∈ rest.head?, Ascii.isDigit b = false) :
    (digits ++ rest).takeWhile Ascii.isDigit = digits ∧
      (digits ++ rest).dropWhile Ascii.isDigit = rest := by
  induction digits with
  | nil =>
    cases rest with
    | nil => exact ⟨rfl, rfl⟩
    | cons b rest =>
      have hb : Ascii.isDigit b = false := hrest b rfl
      simp [hb]
  | cons d digits ih =>
    obtain ⟨htake, hdrop⟩ := ih (fun b hb => h b (List.mem_cons_of_mem d hb))
    have hd : Ascii.isDigit d = true := h d List.mem_cons_self
    rw [List.cons_append, List.takeWhile_cons_of_pos hd, List.dropWhile_cons_of_pos hd, htake,
      hdrop]
    exact ⟨rfl, rfl⟩

theorem head_exponent {x : Int} {tail : List UInt8} (h : ExponentText x tail) :
    ∀ b ∈ tail.head?, Ascii.isExponentMark b = true := by
  intro b hb
  cases h with
  | absent => cases hb
  | unsigned letter => cases hb; exact letter
  | plus letter => cases hb; exact letter
  | minus letter => cases hb; exact letter

theorem exponentOf_eq {x : Int} {tail : List UInt8} (h : ExponentText x tail) :
    exponentOf tail = x := by
  cases h with
  | absent => rfl
  | @unsigned mark digits letter h =>
    obtain ⟨hne, hall⟩ := h
    cases digits with
    | nil => exact absurd rfl hne
    | cons d digits =>
      have hd : Ascii.isDigit d = true := hall d List.mem_cons_self
      simp [exponentOf, letter, Ascii.ne_minus_of_isDigit hd, Ascii.ne_plus_of_isDigit hd]
  | plus letter h =>
    have hne : Ascii.plus ≠ Ascii.minus := by decide
    simp [exponentOf, letter, hne]
  | minus letter h => simp [exponentOf, letter]

theorem splitFraction_eq {digits fraction tail : List UInt8} {x : Int}
    (h : FractionText digits fraction) (htail : ExponentText x tail) :
    splitFraction (fraction ++ tail) = (digits, tail) := by
  have hhead := head_exponent htail
  cases h with
  | absent =>
    cases tail with
    | nil => rfl
    | cons b tail =>
      have hb : b ≠ Ascii.point := Ascii.ne_point_of_isExponentMark (hhead b rfl)
      simp [splitFraction, hb]
  | present h =>
    have hstop : ∀ b ∈ tail.head?, Ascii.isDigit b = false :=
      fun b hb => Ascii.not_isDigit_of_isExponentMark (hhead b hb)
    obtain ⟨htake, hdrop⟩ := span_digits h.2 hstop
    simp [splitFraction, htake, hdrop]

theorem splitSign_eq {negative : Bool} {sign whole rest : List UInt8} (h : SignText negative sign)
    (hwhole : Digits whole) :
    splitSign (sign ++ whole ++ rest) = (negative, whole ++ rest) := by
  cases h with
  | absent =>
    obtain ⟨hne, hall⟩ := hwhole
    cases whole with
    | nil => exact absurd rfl hne
    | cons d whole =>
      have hd : d ≠ Ascii.minus := Ascii.ne_minus_of_isDigit (hall d List.mem_cons_self)
      simp [splitSign, hd]
  | minus => simp [splitSign]

/-- What follows the whole part of a literal does not begin with a digit. -/
theorem head_after_whole {digits fraction tail : List UInt8} {x : Int}
    (h : FractionText digits fraction) (htail : ExponentText x tail) :
    ∀ b ∈ (fraction ++ tail).head?, Ascii.isDigit b = false := by
  intro b hb
  cases h with
  | absent => exact Ascii.not_isDigit_of_isExponentMark (head_exponent htail b hb)
  | present h =>
    cases hb
    decide

/-- The parts of a literal are those that the grammar gives it. -/
theorem ofText_of_numberText {n : Numeral} {isInteger : Bool} {text : List UInt8}
    (h : NumberText n isInteger text) : ofText text = n := by
  obtain ⟨hsign, hwhole, hfraction, hexponent⟩ := h
  rename_i negative sign whole digits fraction tail exponent
  obtain ⟨htake, hdrop⟩ := span_digits hwhole.1.2 (head_after_whole hfraction hexponent)
  unfold ofText
  rw [List.append_assoc (sign ++ whole), splitSign_eq hsign hwhole.1]
  simp only [htake, hdrop, splitFraction_eq hfraction hexponent, exponentOf_eq hexponent]

theorem token_of_numberText {n : Numeral} {isInteger : Bool} {text : List UInt8}
    (h : NumberText n isInteger text) :
    token isInteger text =
      if isInteger then
        if inRange n.toInt then .ok (.int (Int64.ofInt n.toInt))
        else .error (.integerOutOfRange (String.ofList (text.map fun b => Char.ofNat b.toNat)))
      else .ok (.float n.toBinary64) := by
  rw [token, ofText_of_numberText h]

end Numeral

/-! ## The automaton -/

namespace NumberPhase

/-- The phase after several more bytes. -/
def run (phase : NumberPhase) : List UInt8 → Option NumberPhase
  | [] => some phase
  | b :: rest => (phase.after b).bind fun next => next.run rest

/-- The phase after the bytes from the start of a literal. -/
def reach : List UInt8 → Option NumberPhase
  | [] => none
  | b :: rest => (opening b).bind fun phase => phase.run rest

theorem run_append (phase : NumberPhase) (xs ys : List UInt8) :
    phase.run (xs ++ ys) = (phase.run xs).bind fun next => next.run ys := by
  induction xs generalizing phase with
  | nil => rfl
  | cons b xs ih =>
    rw [List.cons_append, run, run]
    cases phase.after b with
    | none => rfl
    | some next => exact ih next

theorem reach_append {xs : List UInt8} {phase : NumberPhase} (h : reach xs = some phase)
    (ys : List UInt8) : reach (xs ++ ys) = phase.run ys := by
  cases xs with
  | nil => cases h
  | cons b xs =>
    rw [reach] at h
    rw [List.cons_append, reach]
    cases hopening : opening b with
    | none =>
      rw [hopening] at h
      cases h
    | some first =>
      rw [hopening, Option.bind_some] at h
      rw [Option.bind_some, run_append, h, Option.bind_some]

theorem run_digits {phase : NumberPhase}
    (hphase : phase = .whole ∨ phase = .fraction ∨ phase = .exponent)
    {digits : List UInt8} (h : ∀ b ∈ digits, Ascii.isDigit b = true) :
    phase.run digits = some phase := by
  induction digits with
  | nil => rfl
  | cons d digits ih =>
    have hd : phase.after d = some phase := after_digit (h d List.mem_cons_self) hphase
    rw [run, hd, Option.bind_some]
    exact ih fun b hb => h b (List.mem_cons_of_mem d hb)

/-- A sign and a whole part lead to one of two phases. -/
theorem reach_whole {negative : Bool} {sign whole : List UInt8} (hsign : SignText negative sign)
    (hwhole : Whole whole) :
    reach (sign ++ whole) = some .zero ∨ reach (sign ++ whole) = some .whole := by
  obtain ⟨⟨hne, hall⟩, hzero⟩ := hwhole
  cases whole with
  | nil => exact absurd rfl hne
  | cons d digits =>
    have hd : Ascii.isDigit d = true := hall d List.mem_cons_self
    have hrest : ∀ b ∈ digits, Ascii.isDigit b = true := by
      intro b hb
      exact hall b (List.mem_cons_of_mem d hb)
    by_cases hfirst : d = Ascii.zero
    · subst hfirst
      have hnil : digits = [] := (List.cons.inj (hzero rfl)).2
      subst hnil
      left
      cases hsign <;> rfl
    · right
      have hrun : run .whole digits = some .whole := run_digits (.inl rfl) hrest
      cases hsign with
      | absent =>
        have hopening : opening d = some .whole := by
          simp [opening, Ascii.ne_minus_of_isDigit hd, hfirst, hd]
        rw [List.nil_append, reach, hopening, Option.bind_some, hrun]
      | minus =>
        have hafter : after .sign d = some .whole := by simp [after, hfirst, hd]
        have hopening : opening Ascii.minus = some .sign := rfl
        rw [List.cons_append, List.nil_append, reach, hopening, Option.bind_some, run, hafter,
          Option.bind_some, hrun]

theorem run_fraction {phase : NumberPhase} (hphase : phase = .zero ∨ phase = .whole)
    {digits fraction : List UInt8} (h : FractionText digits fraction) :
    ∃ next, phase.run fraction = some next ∧ (next = .zero ∨ next = .whole ∨ next = .fraction) ∧
      next.isInteger = fraction.isEmpty := by
  cases h with
  | absent =>
    refine ⟨phase, rfl, ?_, ?_⟩
    · rcases hphase with rfl | rfl
      · exact .inl rfl
      · exact .inr (.inl rfl)
    · rcases hphase with rfl | rfl <;> rfl
  | @present _ h =>
    obtain ⟨hne, hall⟩ := h
    cases digits with
    | nil => exact absurd rfl hne
    | cons d digits =>
      have hd : Ascii.isDigit d = true := hall d List.mem_cons_self
      have hpoint : phase.after Ascii.point = some .point := by rcases hphase with rfl | rfl <;> rfl
      have hfirst : after .point d = some .fraction := by simp [after, hd]
      have hrun : run .fraction digits = some .fraction :=
        run_digits (.inr (.inl rfl)) fun b hb => hall b (List.mem_cons_of_mem d hb)
      refine ⟨.fraction, ?_, .inr (.inr rfl), rfl⟩
      rw [run, hpoint, Option.bind_some, run, hfirst, Option.bind_some, hrun]

theorem run_exponent_digits {phase : NumberPhase}
    (hphase : phase = .exponentMark ∨ phase = .exponentSign) {digits : List UInt8}
    (h : Digits digits) : phase.run digits = some .exponent := by
  obtain ⟨hne, hall⟩ := h
  cases digits with
  | nil => exact absurd rfl hne
  | cons d digits =>
    have hd : Ascii.isDigit d = true := hall d List.mem_cons_self
    have hfirst : phase.after d = some .exponent := by
      rcases hphase with rfl | rfl
      · simp [after, hd, Ascii.ne_plus_of_isDigit hd, Ascii.ne_minus_of_isDigit hd]
      · simp [after, hd]
    rw [run, hfirst, Option.bind_some]
    exact run_digits (.inr (.inr rfl)) fun b hb => hall b (List.mem_cons_of_mem d hb)

/-- An exponent leads from the end of a number without one to the end of a literal. -/
theorem run_exponent {phase : NumberPhase}
    (hphase : phase = .zero ∨ phase = .whole ∨ phase = .fraction) {x : Int} {tail : List UInt8}
    (h : ExponentText x tail) :
    ∃ next, phase.run tail = some next ∧ next.isComplete = true ∧
      next.isInteger = (phase.isInteger && tail.isEmpty) := by
  have hmark {mark : UInt8} (letter : Ascii.isExponentMark mark = true) :
      phase.after mark = some .exponentMark := by
    have hdigit := Ascii.not_isDigit_of_isExponentMark letter
    have hpoint := Ascii.ne_point_of_isExponentMark letter
    rcases hphase with rfl | rfl | rfl <;> simp [after, letter, hdigit, hpoint]
  cases h with
  | absent => refine ⟨phase, rfl, ?_, ?_⟩ <;> rcases hphase with rfl | rfl | rfl <;> rfl
  | unsigned letter h =>
    refine ⟨.exponent, ?_, rfl, by simp [isInteger]⟩
    rw [run, hmark letter, Option.bind_some, run_exponent_digits (.inl rfl) h]
  | plus letter h =>
    refine ⟨.exponent, ?_, rfl, by simp [isInteger]⟩
    have hsign : after .exponentMark Ascii.plus = some .exponentSign := rfl
    rw [run, hmark letter, Option.bind_some, run, hsign, Option.bind_some,
      run_exponent_digits (.inr rfl) h]
  | minus letter h =>
    refine ⟨.exponent, ?_, rfl, by simp [isInteger]⟩
    have hsign : after .exponentMark Ascii.minus = some .exponentSign := rfl
    rw [run, hmark letter, Option.bind_some, run, hsign, Option.bind_some,
      run_exponent_digits (.inr rfl) h]

/-- The automaton accepts the literals of the grammar. -/
theorem reach_of_numberText {n : Numeral} {isInteger : Bool} {text : List UInt8}
    (h : NumberText n isInteger text) :
    ∃ phase, reach text = some phase ∧ phase.isComplete = true ∧ phase.isInteger = isInteger := by
  obtain ⟨hsign, hwhole, hfraction, hexponent⟩ := h
  rename_i negative sign whole digits fraction tail exponent
  -- sign and whole part, then the fraction, then the exponent
  obtain ⟨first, hfirst, hphase⟩ :
      ∃ first, reach (sign ++ whole) = some first ∧ (first = .zero ∨ first = .whole) := by
    rcases reach_whole hsign hwhole with h | h
    · exact ⟨_, h, .inl rfl⟩
    · exact ⟨_, h, .inr rfl⟩
  obtain ⟨second, hsecond, hphase', hinteger⟩ := run_fraction hphase hfraction
  obtain ⟨last, hlast, hcomplete, hinteger'⟩ := run_exponent hphase' hexponent
  refine ⟨last, ?_, hcomplete, ?_⟩
  · rw [List.append_assoc, reach_append hfirst, run_append, hsecond, Option.bind_some, hlast]
  · rw [hinteger', hinteger]
    cases fraction <;> cases tail <;> rfl

/-! ### What the automaton accepts -/

/-- The beginnings of literals, by the phase they lead to. -/
inductive Reached : NumberPhase → List UInt8 → Prop where
  | sign : Reached .sign [Ascii.minus]
  | zero {negative : Bool} {sign : List UInt8} (hsign : SignText negative sign) :
    Reached .zero (sign ++ [Ascii.zero])
  | whole {negative : Bool} {sign digits : List UInt8} (hsign : SignText negative sign)
    (hdigits : Digits digits) (hfirst : digits.head? ≠ some Ascii.zero) :
    Reached .whole (sign ++ digits)
  | point {negative : Bool} {sign whole : List UInt8} (hsign : SignText negative sign)
    (hwhole : Whole whole) : Reached .point (sign ++ whole ++ [Ascii.point])
  | fraction {negative : Bool} {sign whole digits : List UInt8} (hsign : SignText negative sign)
    (hwhole : Whole whole) (hdigits : Digits digits) :
    Reached .fraction (sign ++ whole ++ Ascii.point :: digits)
  | exponentMark {negative : Bool} {sign whole digits fraction : List UInt8} {mark : UInt8}
    (hsign : SignText negative sign) (hwhole : Whole whole)
    (hfraction : FractionText digits fraction) (hmark : Ascii.isExponentMark mark = true) :
    Reached .exponentMark (sign ++ whole ++ fraction ++ [mark])
  | exponentSign {negative : Bool} {sign whole digits fraction : List UInt8}
    {mark plusMinus : UInt8} (hsign : SignText negative sign) (hwhole : Whole whole)
    (hfraction : FractionText digits fraction) (hmark : Ascii.isExponentMark mark = true)
    (hplusMinus : plusMinus = Ascii.plus ∨ plusMinus = Ascii.minus) :
    Reached .exponentSign (sign ++ whole ++ fraction ++ [mark, plusMinus])
  | exponent {negative : Bool} {sign whole digits fraction tail : List UInt8} {x : Int}
    (hsign : SignText negative sign) (hwhole : Whole whole)
    (hfraction : FractionText digits fraction) (htail : ExponentText x tail) (hne : tail ≠ []) :
    Reached .exponent (sign ++ whole ++ fraction ++ tail)

theorem digits_singleton {b : UInt8} (h : Ascii.isDigit b = true) : Digits [b] :=
  ⟨List.cons_ne_nil b [], fun _ hc => List.mem_singleton.mp hc ▸ h⟩

theorem digits_concat {digits : List UInt8} {b : UInt8} (h : Digits digits)
    (hb : Ascii.isDigit b = true) : Digits (digits ++ [b]) := by
  refine ⟨List.append_ne_nil_of_left_ne_nil h.1 [b], fun c hc => ?_⟩
  rcases List.mem_append.mp hc with hc | hc
  · exact h.2 c hc
  · exact List.mem_singleton.mp hc ▸ hb

theorem whole_zero : Whole [Ascii.zero] :=
  ⟨digits_singleton (by decide), fun _ => rfl⟩

theorem whole_of_digits {digits : List UInt8} (h : Digits digits)
    (hfirst : digits.head? ≠ some Ascii.zero) : Whole digits :=
  ⟨h, fun hzero => absurd hzero hfirst⟩

theorem exponentText_concat {x : Int} {tail : List UInt8} {b : UInt8} (h : ExponentText x tail)
    (hne : tail ≠ []) (hb : Ascii.isDigit b = true) : ∃ y, ExponentText y (tail ++ [b]) := by
  cases h with
  | absent => exact absurd rfl hne
  | unsigned letter h => exact ⟨_, .unsigned letter (digits_concat h hb)⟩
  | plus letter h => exact ⟨_, .plus letter (digits_concat h hb)⟩
  | minus letter h => exact ⟨_, .minus letter (digits_concat h hb)⟩

/-- A point, a mark or nothing that goes on from a whole part. -/
private theorem reached_after_whole {negative : Bool} {sign whole : List UInt8}
    (hsign : SignText negative sign) (hwhole : Whole whole) {b : UInt8} {next : NumberPhase}
    (h : (if b = Ascii.point then some NumberPhase.point
      else if Ascii.isExponentMark b then some .exponentMark else none) = some next) :
    Reached next (sign ++ whole ++ [b]) := by
  split at h
  next hb =>
    cases h
    rw [hb]
    exact .point hsign hwhole
  next =>
    split at h
    next hb =>
      cases h
      have hmark := Reached.exponentMark hsign hwhole .absent hb
      rwa [List.append_nil] at hmark
    next => cases h

theorem reached_after {phase next : NumberPhase} {text : List UInt8} {b : UInt8}
    (h : Reached phase text) (hafter : phase.after b = some next) : Reached next (text ++ [b]) := by
  -- the splits below each phase are the tests that the automaton makes there
  cases h with
  | sign =>
    rw [after] at hafter
    split at hafter
    next hb =>
      cases hafter
      rw [hb]
      exact .zero .minus
    next hb =>
      split at hafter
      next hdigit =>
        cases hafter
        exact .whole .minus (digits_singleton hdigit) (fun hhead => hb (Option.some.inj hhead))
      next => cases hafter
  | zero hsign => exact reached_after_whole hsign whole_zero hafter
  | whole hsign hdigits hfirst =>
    rw [after] at hafter
    split at hafter
    next hdigit =>
      cases hafter
      rw [List.append_assoc]
      refine .whole hsign (digits_concat hdigits hdigit) ?_
      obtain ⟨d, digits, rfl⟩ := List.exists_cons_of_ne_nil hdigits.1
      exact hfirst
    next => exact reached_after_whole hsign (whole_of_digits hdigits hfirst) hafter
  | point hsign hwhole =>
    rw [after] at hafter
    split at hafter
    next hdigit =>
      cases hafter
      rw [List.append_assoc]
      exact .fraction hsign hwhole (digits_singleton hdigit)
    next => cases hafter
  | fraction hsign hwhole hdigits =>
    rw [after] at hafter
    split at hafter
    next hdigit =>
      cases hafter
      rw [List.append_assoc]
      exact .fraction hsign hwhole (digits_concat hdigits hdigit)
    next =>
      split at hafter
      next hmark =>
        cases hafter
        exact .exponentMark hsign hwhole (.present hdigits) hmark
      next => cases hafter
  | exponentMark hsign hwhole hfraction hmark =>
    rw [after] at hafter
    split at hafter
    next hb =>
      cases hafter
      rw [List.append_assoc]
      refine .exponentSign hsign hwhole hfraction hmark ?_
      simpa only [Bool.or_eq_true, decide_eq_true_eq] using hb
    next =>
      split at hafter
      next hdigit =>
        cases hafter
        rw [List.append_assoc]
        exact .exponent hsign hwhole hfraction (.unsigned hmark (digits_singleton hdigit))
          (List.cons_ne_nil _ _)
      next => cases hafter
  | exponentSign hsign hwhole hfraction hmark hplusMinus =>
    rw [after] at hafter
    split at hafter
    next hdigit =>
      cases hafter
      rw [List.append_assoc]
      rcases hplusMinus with rfl | rfl
      · exact .exponent hsign hwhole hfraction (.plus hmark (digits_singleton hdigit))
          (List.cons_ne_nil _ _)
      · exact .exponent hsign hwhole hfraction (.minus hmark (digits_singleton hdigit))
          (List.cons_ne_nil _ _)
    next => cases hafter
  | exponent hsign hwhole hfraction htail hne =>
    rw [after] at hafter
    split at hafter
    next hdigit =>
      cases hafter
      obtain ⟨y, hy⟩ := exponentText_concat htail hne hdigit
      rw [List.append_assoc]
      exact .exponent hsign hwhole hfraction hy (List.append_ne_nil_of_left_ne_nil hne _)
    next => cases hafter

theorem reached_opening {b : UInt8} {phase : NumberPhase} (h : opening b = some phase) :
    Reached phase [b] := by
  rw [opening] at h
  split at h
  next hb =>
    cases h
    rw [hb]
    exact .sign
  next =>
    split at h
    next hb =>
      cases h
      rw [hb]
      exact .zero .absent
    next hb =>
      split at h
      next hdigit =>
        cases h
        exact .whole .absent (digits_singleton hdigit) (fun hhead => hb (Option.some.inj hhead))
      next => cases h

theorem reached_run {phase last : NumberPhase} {text more : List UInt8} (h : Reached phase text)
    (hrun : phase.run more = some last) : Reached last (text ++ more) := by
  induction more generalizing phase text with
  | nil =>
    cases hrun
    rwa [List.append_nil]
  | cons b more ih =>
    rw [run] at hrun
    obtain ⟨next, hafter, hnext⟩ := Option.bind_eq_some_iff.mp hrun
    have hstep := ih (reached_after h hafter) hnext
    rwa [List.append_assoc] at hstep

/-- What the automaton accepts is a literal of the grammar. -/
theorem numberText_of_reach {b : UInt8} {more : List UInt8} {first last : NumberPhase}
    (hopening : opening b = some first) (hrun : first.run more = some last)
    (hcomplete : last.isComplete = true) : ∃ n, NumberText n last.isInteger (b :: more) := by
  have hreached := reached_run (reached_opening hopening) hrun
  rw [List.singleton_append] at hreached
  generalize b :: more = text at hreached
  -- a literal may end in four of the phases
  cases hreached with
  | sign => cases hcomplete
  | zero hsign =>
    have hnumber := NumberText.mk hsign whole_zero .absent .absent
    simp only [List.append_nil] at hnumber
    exact ⟨_, hnumber⟩
  | whole hsign hdigits hfirst =>
    have hnumber := NumberText.mk hsign (whole_of_digits hdigits hfirst) .absent .absent
    simp only [List.append_nil] at hnumber
    exact ⟨_, hnumber⟩
  | point hsign hwhole => cases hcomplete
  | fraction hsign hwhole hdigits =>
    have hnumber := NumberText.mk hsign hwhole (.present hdigits) .absent
    simp only [List.append_nil] at hnumber
    exact ⟨_, hnumber⟩
  | exponentMark hsign hwhole hfraction hmark => cases hcomplete
  | exponentSign hsign hwhole hfraction hmark hplusMinus => cases hcomplete
  | @exponent negative sign whole digits fraction tail x hsign hwhole hfraction htail hne =>
    have hnumber := NumberText.mk hsign hwhole hfraction htail
    have hfloat : (fraction ++ tail).isEmpty = false := by
      cases fraction with
      | nil =>
        cases tail with
        | nil => exact absurd rfl hne
        | cons c tail => rfl
      | cons c fraction => rfl
    rw [hfloat] at hnumber
    exact ⟨_, hnumber⟩

end NumberPhase

/-! ## Scanning a number -/

/-- The bytes that may follow a number. -/
def Delimiter (b : UInt8) : Prop :=
  Ascii.isBlank b = true ∨ b = Ascii.comma ∨ b = Ascii.closeBracket ∨ b = Ascii.closeBrace

theorem NumberPhase.after_delimiter {phase : NumberPhase} {b : UInt8} (h : Delimiter b)
    (hcomplete : phase.isComplete = true) : phase.after b = none := by
  have hclass : Ascii.isDigit b = false ∧ b ≠ Ascii.point ∧ Ascii.isExponentMark b = false := by
    rcases h with h | rfl | rfl | rfl
    · simp only [Ascii.isBlank, Bool.or_eq_true, beq_iff_eq] at h
      rcases h with ((rfl | rfl) | rfl) | rfl <;> decide
    · decide
    · decide
    · decide
  obtain ⟨hdigit, hpoint, hmark⟩ := hclass
  cases phase with
  | zero => simp [after, hpoint, hmark]
  | whole => simp [after, hdigit, hpoint, hmark]
  | fraction => simp [after, hdigit, hmark]
  | exponent => simp [after, hdigit]
  | sign => cases hcomplete
  | point => cases hcomplete
  | exponentMark => cases hcomplete
  | exponentSign => cases hcomplete

namespace Scanner

variable {limit : Nat} {frames : List Frame}

theorem step_number_more {phase next : NumberPhase} {text : Array UInt8} {b : UInt8}
    (h : phase.after b = some next) :
    step limit [] ⟨frames, .number phase text⟩ b = .shift ⟨frames, .number next (text.push b)⟩ := by
  simp [step, inNumber, h]

theorem step_number_end {phase : NumberPhase} {text : Array UInt8} {b : UInt8} {token : Token}
    (h : phase.after b = none) (hcomplete : phase.isComplete = true)
    (htoken : Numeral.token phase.isInteger text.toList = .ok token) :
    step limit [] ⟨frames, .number phase text⟩ b =
      .leave (.ok token) ⟨Frame.fill frames, .between⟩ := by
  simp [step, inNumber, h, hcomplete, htoken]

/-- What the automaton goes along with is collected. -/
theorem reads_run {phase last : NumberPhase} {more : List UInt8} (h : phase.run more = some last)
    (text : Array UInt8) :
    Reads limit ⟨frames, .number phase text⟩ more [] ⟨frames, .number last (text ++ more)⟩ := by
  induction more generalizing phase text with
  | nil =>
    cases h
    have htext : text ++ ([] : List UInt8) = text := Array.ext' (by simp)
    rw [htext]
    exact .done _
  | cons b more ih =>
    obtain ⟨next, hafter, hnext⟩ := Option.bind_eq_some_iff.mp h
    have htext : text ++ (b :: more) = text.push b ++ more := Array.ext' (by simp)
    rw [htext]
    exact .shift (step_number_more hafter) (ih hnext _)

theorem reads_number {phase last : NumberPhase} {more rest : List UInt8} {b : UInt8} {token : Token}
    {tokens : List Token} {s : Scanner} (hrun : phase.run more = some last)
    (hcomplete : last.isComplete = true) (text : Array UInt8)
    (htoken : Numeral.token last.isInteger (text.toList ++ more) = .ok token) (hb : Delimiter b)
    (h : Reads limit ⟨Frame.fill frames, .between⟩ (b :: rest) tokens s) :
    Reads limit ⟨frames, .number phase text⟩ (more ++ b :: rest) (token :: tokens) s := by
  have hcollected : Numeral.token last.isInteger (text ++ more).toList = .ok token := by
    simpa using htoken
  exact (reads_run hrun text).append
    (.leave (step_number_end (NumberPhase.after_delimiter hb hcomplete) hcomplete hcollected) h)

/-- What is read from within a number begins with the rest of the number. -/
theorem number_of_reads {phase : NumberPhase} {text : Array UInt8} {bytes : List UInt8}
    {token : Token} {tokens : List Token} {s : Scanner}
    (h : Reads limit ⟨frames, .number phase text⟩ bytes (token :: tokens) s) :
    ∃ more rest last, bytes = more ++ rest ∧ phase.run more = some last ∧
      last.isComplete = true ∧ Numeral.token last.isInteger (text.toList ++ more) = .ok token ∧
      Reads limit ⟨Frame.fill frames, .between⟩ rest tokens s := by
  induction bytes generalizing phase text with
  | nil => cases (reads_nil_iff.mp h).1
  | cons b bytes ih =>
    cases hafter : phase.after b with
    | some next =>
      rw [reads_shift_iff (step_number_more hafter)] at h
      obtain ⟨more, rest, last, rfl, hrun, hcomplete, htoken, hrest⟩ := ih h
      refine ⟨b :: more, rest, last, rfl, ?_, hcomplete, ?_, hrest⟩
      · rw [NumberPhase.run, hafter, Option.bind_some, hrun]
      · rwa [Array.toList_push, List.append_assoc] at htoken
    | none =>
      -- the literal ends before this byte, and it has to be complete and in range
      by_cases hcomplete : phase.isComplete = true
      · cases htoken : Numeral.token phase.isInteger text.toList with
        | ok t =>
          rw [reads_leave_iff (step_number_end hafter hcomplete htoken)] at h
          obtain ⟨rfl, hrest⟩ := h
          refine ⟨[], b :: bytes, phase, rfl, rfl, hcomplete, ?_, hrest⟩
          rwa [List.append_nil]
        | error cause =>
          have hstep : step limit [] ⟨frames, .number phase text⟩ b =
              .leave (.error cause) ⟨frames, .between⟩ := by
            simp [step, inNumber, hafter, hcomplete, htoken]
          exact absurd h (not_reads_leave_fault hstep)
      · have hstep : step limit [] ⟨frames, .number phase text⟩ b =
            stuck ⟨frames, .number phase text⟩ (.invalidCharacter []) := by
          simp [step, inNumber, hafter, hcomplete]
        exact absurd h (not_reads_leave_fault hstep)

end Scanner

end StreamingJson
