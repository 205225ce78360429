import StreamingJson.Proofs.Machine.Steps
import StreamingJson.Proofs.Sources

/-!
# The machine finds what the lexer finds

A machine stands for a lexer if it stands for its scanner and has the same bytes to read at the same
place. It then finds the tokens and the faults of the lexer, and stands for the lexer again
afterwards. So nothing that a register keeps of a former token is ever seen: the lexer has no place
for it.

## Main definitions

- `Machine.Reflects` — a machine stands for a lexer
- `Machine.Answers` — a step of the machine is on the way to what the lexer finds

## Main statements

- `Machine.Reflects.next` — the machine finds the tokens and faults of the lexer
- `Machine.Reflects.feed` — the machine takes the chunks of the lexer
- `Machine.matching_reflects` — as token sources the two do the same
-/

namespace StreamingJson

namespace Machine

/-- The machine stands for the lexer. -/
structure Reflects (m : Machine) (l : Lexer) : Prop where
  depthLimit : m.depthLimit = l.depthLimit
  location : m.location = l.location
  position : m.pos ≤ m.input.length
  rest : m.rest = l.unread
  mirrors : m.Mirrors l.scanner

/-- What an outcome owes to the lexer: a token or a fault is what the lexer finds next, and if
nothing is complete then the lexer finds next what it finds from there on. -/
def Answers (l : Lexer) : Outcome → Prop
  | (.ok none, m) => ∃ l', m.Reflects l' ∧ l.next = l'.next
  | (answer, m) => ∃ l', m.Reflects l' ∧ l.next = (answer, l')

section

variable {m m' : Machine} {l : Lexer} {b : UInt8}

/-- The run that is taken is kept in the register of the token. -/
theorem mirrors_takeRun {s : Scanner} (h : m.Mirrors s) :
    (m.takeRun s.lexeme.repeats).Mirrors
      { s with lexeme := s.lexeme.append (m.rest.takeWhile s.lexeme.repeats) } := by
  obtain ⟨frames, lexeme⟩ := s
  have hholds := h.holds
  have hnone : m.rest.takeWhile (fun _ => false) = [] := by
    cases m.rest <;> rfl
  refine ⟨h.containers, h.expect, ?_, ?_⟩
  · rw [takeRun, h.mode]
    cases lexeme <;> rfl
  · cases lexeme with
    | between => trivial
    | word w missing => exact hholds
    | number phase digits => exact ⟨congrArg (· ++ _) hholds.1, hholds.2⟩
    | text bytes high => exact ⟨congrArg (· ++ _) hholds.1, hholds.2⟩
    | escape bytes high =>
      refine ⟨?_, hholds.2⟩
      show m.scratch ++ m.rest.takeWhile (fun _ => false) = bytes
      rw [hnone, Array.appendList_nil]
      exact hholds.1
    | codeUnit bytes high value count =>
      refine ⟨⟨?_, hholds.1.2⟩, hholds.2⟩
      show m.scratch ++ m.rest.takeWhile (fun _ => false) = bytes
      rw [hnone, Array.appendList_nil]
      exact hholds.1.1

theorem rest_takeRun (repeats : UInt8 → Bool) :
    (m.takeRun repeats).rest = m.rest.dropWhile repeats := by
  have hsplit : m.rest = m.rest.takeWhile repeats ++ m.rest.dropWhile repeats :=
    List.takeWhile_append_dropWhile.symm
  have hdrop : (m.takeRun repeats).rest = m.rest.drop (m.rest.takeWhile repeats).length :=
    List.drop_drop.symm
  rw [hdrop]
  conv => lhs; arg 2; rw [hsplit]
  exact List.drop_left

/-- A machine that goes past a byte stands for the lexer behind it. -/
theorem Reflects.past (h : m.Reflects l) (hpeek : m.peek = some b)
    (hcursor : m'.cursor = (m.advance b).cursor) {next : Scanner} (hnext : m'.Mirrors next) :
    m'.Reflects ((l.past b next).loaded (m.input.drop (m.pos + 1))) := by
  obtain ⟨hlt, -⟩ := List.getElem?_eq_some_iff.mp hpeek
  obtain ⟨hlimit, hinput, hpos, hlocation⟩ := by simpa [cursor] using hcursor
  refine ⟨hlimit.trans h.depthLimit, ?_, ?_, ?_, hnext⟩
  · rw [hlocation, advance, h.location]
    rfl
  · rw [hinput, hpos]
    exact hlt
  · rw [Machine.rest, hinput, hpos]
    rfl

/-- A machine that leaves the byte unread stands for the lexer in front of it. -/
theorem Reflects.withScanner (h : m.Reflects l) (hcursor : m'.cursor = m.cursor) {next : Scanner}
    (hnext : m'.Mirrors next) : m'.Reflects ((l.withScanner next).loaded m.rest) := by
  obtain ⟨hlimit, hinput, hpos, hlocation⟩ := by simpa [cursor] using hcursor
  refine ⟨hlimit.trans h.depthLimit, hlocation.trans h.location, ?_, ?_, hnext⟩
  · rw [hinput, hpos]
    exact h.position
  · rw [Machine.rest, hinput, hpos]
    rfl

/-- A run that the machine takes is the one that the lexer takes. -/
theorem Reflects.takeRun (h : m.Reflects l) :
    (m.takeRun l.scanner.lexeme.repeats).Reflects
      ((l.takeRun l.unread).loaded (l.unread.dropWhile l.scanner.lexeme.repeats)) := by
  have hlength : (m.rest.takeWhile l.scanner.lexeme.repeats).length ≤ m.input.length - m.pos := by
    rw [← List.length_drop]
    exact (List.takeWhile_sublist _).length_le
  refine ⟨h.depthLimit, ?_, ?_, ?_, ?_⟩
  · rw [Machine.takeRun, h.location, h.rest]
    rfl
  · have hposition := h.position
    show m.pos + _ ≤ m.input.length
    omega
  · rw [rest_takeRun, h.rest]
    rfl
  · rw [← h.rest]
    exact mirrors_takeRun h.mirrors

theorem answers_handBack {l' : Lexer} (h : m.Reflects l') (result : Except LexicalError Token)
    (hnext : l.next = l'.handBack result) : Answers l (m.handBack result) := by
  cases result with
  | ok token => exact ⟨l', h, hnext⟩
  | error cause =>
    refine ⟨l', h, hnext.trans ?_⟩
    rw [h.location]
    rfl

/-- A step of the scanner of a lexer with the byte `b` in front of `rest`, and an outcome that is
that step. The machine after it stands for the lexer after it. -/
inductive Paired (l : Lexer) (b : UInt8) (rest : List UInt8) : Step → Outcome → Prop where
  | shift {next : Scanner} {m : Machine} (h : m.Reflects ((l.past b next).loaded rest)) :
    Paired l b rest (.shift next) m.silent
  /-- The run behind the byte is taken as well. -/
  | run {next : Scanner} {m : Machine}
    (h : m.Reflects (((l.past b next).takeRun rest).loaded (rest.dropWhile next.lexeme.repeats))) :
    Paired l b rest (.shift next) m.silent
  | consume {result : Except LexicalError Token} {next : Scanner} {m : Machine}
    (h : m.Reflects ((l.past b next).loaded rest)) :
    Paired l b rest (.consume result next) (m.handBack result)
  | leave {result : Except LexicalError Token} {next : Scanner} {m : Machine}
    (h : m.Reflects ((l.withScanner next).loaded (b :: rest))) :
    Paired l b rest (.leave result next) (m.handBack result)

/-- A step of the machine is one of the scanner of the lexer that it stands for. -/
theorem Reflects.paired (h : m.Reflects l) (hpeek : m.peek = some b) :
    Paired l b (m.input.drop (m.pos + 1))
      (l.scanner.step l.depthLimit (Utf8.leading (b :: m.input.drop (m.pos + 1))) b)
      (m.step b) := by
  have hrest := rest_of_peek hpeek
  have hstep := renders_step h.mirrors hpeek
  rw [h.depthLimit, hrest] at hstep
  generalize l.scanner.step _ _ b = step at hstep ⊢
  rcases step with next | ⟨result, next⟩ | ⟨result, next⟩
  · obtain ⟨m', houtcome, hcursor, hnext⟩ := hstep
    have hm' := h.past hpeek hcursor hnext
    rcases houtcome with houtcome | houtcome <;> rw [houtcome]
    · exact .shift hm'
    · exact .run hm'.takeRun
  · obtain ⟨m', houtcome, hcursor, hnext⟩ := hstep
    rw [houtcome]
    exact .consume (h.past hpeek hcursor hnext)
  · obtain ⟨m', houtcome, hcursor, hnext⟩ := hstep
    have hm' := h.withScanner hcursor hnext
    rw [hrest] at hm'
    rw [houtcome]
    exact .leave hm'

/-- A step of the machine is on the way to what the lexer finds next. -/
theorem Reflects.step (h : m.Reflects l) (hpeek : m.peek = some b) : Answers l (m.step b) := by
  have hunread : l.unread = b :: m.input.drop (m.pos + 1) := by
    rw [← h.rest, rest_of_peek hpeek]
  have hpaired := h.paired hpeek
  generalize hstep : l.scanner.step _ _ b = step at hpaired
  generalize m.step b = outcome at hpaired
  cases hpaired with
  | shift hm' =>
    refine ⟨_, hm', ?_⟩
    rw [Lexer.next, Lexer.next, hunread, Lexer.scan_shift hstep, Lexer.scan_loaded]
    rfl
  | run hm' =>
    refine ⟨_, hm', ?_⟩
    rw [Lexer.next, Lexer.next, hunread, Lexer.scan_shift hstep, ← Lexer.scan_takeRun,
      Lexer.scan_loaded]
    rfl
  | @consume result next m' hm' =>
    refine answers_handBack hm' result ?_
    rw [Lexer.next, hunread, Lexer.scan_consume hstep]
  | @leave result next m' hm' =>
    refine answers_handBack hm' result ?_
    rw [Lexer.next, hunread, Lexer.scan_leave hstep]

/-- The machine finds the tokens and faults of the lexer that it stands for. -/
theorem Reflects.next (h : m.Reflects l) : m.next.1 = l.next.1 ∧ m.next.2.Reflects l.next.2 := by
  fun_induction Machine.next m generalizing l with
  | case1 m hpeek =>
    have hrest : m.rest = [] := List.drop_eq_nil_iff.mpr (List.getElem?_eq_none_iff.mp hpeek)
    have hunread : l.unread = [] := by rw [← h.rest, hrest]
    have hnext : l.next = (.ok none, l) := by
      rw [Lexer.next, hunread, Lexer.scan, ← hunread]
    rw [hnext]
    exact ⟨rfl, h⟩
  | case2 m b hpeek m' hstep ih =>
    have hanswers := h.step hpeek
    rw [hstep] at hanswers
    obtain ⟨l', hl', hnext⟩ := hanswers
    rw [hnext]
    exact ih hl'
  | case3 m b hpeek hsome =>
    have hanswers := h.step hpeek
    rcases hstep : m.step b with ⟨fault | _ | token, m'⟩
    · rw [hstep] at hanswers
      obtain ⟨l', hl', hnext⟩ := hanswers
      rw [hnext]
      exact ⟨rfl, hl'⟩
    · exact absurd hstep (hsome m')
    · rw [hstep] at hanswers
      obtain ⟨l', hl', hnext⟩ := hanswers
      rw [hnext]
      exact ⟨rfl, hl'⟩

/-! ## The other calls -/

theorem reflects_new (limit : Nat) :
    ({ depthLimit := limit } : Machine).Reflects { depthLimit := limit } :=
  ⟨rfl, rfl, Nat.le_refl 0, rfl, rfl, rfl, rfl, trivial⟩

theorem Reflects.fresh (h : m.Reflects l) : m.fresh.Reflects l.fresh := by
  rw [Machine.fresh, Lexer.fresh, h.depthLimit]
  exact reflects_new l.depthLimit

theorem Reflects.needsInput_eq (h : m.Reflects l) : m.needsInput = l.needsInput := by
  rw [Bool.eq_iff_iff, Lexer.needsInput, ← h.rest, List.isEmpty_iff, Machine.rest,
    List.drop_eq_nil_iff]
  exact decide_eq_true_iff

theorem Reflects.isMidValue_eq (h : m.Reflects l) : m.isMidValue = l.isMidValue := by
  have hmode : (m.mode != .between) = (l.scanner.lexeme != .between) := by
    rw [h.mirrors.mode]
    cases l.scanner.lexeme <;> rfl
  have hcontainers : m.containers.isEmpty = l.scanner.frames.isEmpty := by
    rw [h.mirrors.containers, List.isEmpty_map]
  rw [Machine.isMidValue, hmode, hcontainers]
  rfl

theorem Reflects.depth_eq (h : m.Reflects l) : m.depth = l.depth := by
  rw [Machine.depth, h.mirrors.containers, List.length_map]
  rfl

theorem Reflects.length_unread (h : m.Reflects l) : m.input.length - m.pos = l.unread.length := by
  rw [← h.rest, Machine.rest, List.length_drop]

theorem Reflects.supply_eq (h : m.Reflects l) : m.supply = l.supply := by
  have hbetween : m.mode = .between ↔ l.scanner.lexeme = .between := by
    rw [h.mirrors.mode]
    cases l.scanner.lexeme <;> simp [Mode.ofLexeme]
  simp only [Machine.supply, Lexer.supply, h.length_unread, hbetween]

/-- A machine that is given a chunk stands for the lexer that is given it. -/
theorem Reflects.loaded (h : m.Reflects l) (chunk : List UInt8) :
    ({ m with input := chunk, pos := 0 } : Machine).Reflects (l.loaded chunk) := by
  obtain ⟨hcontainers, hexpect, hmode, hholds⟩ := h.mirrors
  exact ⟨h.depthLimit, h.location, Nat.zero_le _, rfl, hcontainers, hexpect, hmode, hholds⟩

theorem Reflects.feed (h : m.Reflects l) (chunk : List UInt8) :
    TokenSource.FedAlike Reflects (m.feed chunk) (l.feed chunk) := by
  rw [Machine.feed, Lexer.feed, h.needsInput_eq, h.length_unread]
  split
  · exact .taken (h.loaded chunk)
  · exact .refused _

/-- As token sources the two do the same. -/
theorem matching_reflects : TokenSource.Matching Reflects where
  feed := Reflects.feed
  next := Reflects.next
  needsInput := Reflects.needsInput_eq
  isMidValue := Reflects.isMidValue_eq
  location := Reflects.location
  fresh := Reflects.fresh
  supply := Reflects.supply_eq

end

end Machine

end StreamingJson
