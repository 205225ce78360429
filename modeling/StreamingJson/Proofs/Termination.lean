import StreamingJson.Proofs.Lexer.Seeking
import StreamingJson.Proofs.Protocol

/-!
# All loops end

Reading a token, turning tokens into values and giving chunks are loops without a bound: the lexer
looks at bytes until a token or a fault is complete, the pipeline asks for tokens until none comes
or none is wanted, and the driver gives chunks until none is asked for. Here each of them is given
by what one turn does, and the definitions of the model are what the turns come to.

## Main definitions

- `Loop.Turn`, `Loop.Ends` — one turn of a loop, and loops that end
- `Lexer.turn`, `Lexer.callTurn` — reading a token, and reading one token after the other
- `Pipeline.drainTurn` — turning tokens into values
- `Session.supplyTurn` — giving chunks as long as they are asked for

## Main statements

- `Loop.exists_ends` — a loop ends whose turns use up a supply
- `Lexer.ends_turn`, `Lexer.ends_callTurn` — reading tokens ends
- `Pipeline.ends_drainTurn` — draining ends, whatever the source
- `Session.ends_supplyTurn` — giving chunks ends
- `draining_ends` — all of it, with bounds
-/

namespace StreamingJson

/-! ## Loops -/

namespace Loop

/-- One turn of a loop: it goes on or is done. -/
inductive Turn (α β : Type) where
  | again (next : α)
  | done (result : β)

variable {α β γ : Type} {turn : α → Turn α β} {a : α} {b : β} {n : Nat}

/-- The turn with another result. -/
def Turn.map (f : β → γ) : Turn α β → Turn α γ
  | again next => again next
  | done result => done (f result)

/-- The loop goes on for `n` turns and is done in the next one. -/
inductive Ends (turn : α → Turn α β) : α → Nat → β → Prop where
  | done {a : α} {b : β} (h : turn a = .done b) : Ends turn a 0 b
  | again {a next : α} {n : Nat} {b : β} (h : turn a = .again next) (rest : Ends turn next n b) :
    Ends turn a (n + 1) b

/-- A loop ends if each turn that goes on uses up some of a supply. -/
theorem exists_ends {supply : α → Nat}
    (h : ∀ a next, turn a = .again next → supply next < supply a) (a : α) :
    ∃ n ≤ supply a, ∃ b, Ends turn a n b := by
  induction hsupply : supply a using Nat.strongRecOn generalizing a with
  | ind bound ih =>
    cases hturn : turn a with
    | done b => exact ⟨0, Nat.zero_le _, b, .done hturn⟩
    | again next =>
      have hless : supply next < bound := hsupply ▸ h a next hturn
      obtain ⟨n, hn, b, hends⟩ := ih _ hless next rfl
      exact ⟨n + 1, by omega, b, .again hturn hends⟩

/-- One more turn in front of a loop that ends. -/
theorem exists_ends_of_again {next : α} {few many : Nat} (h : turn a = .again next)
    (hless : few < many) (hrest : ∃ n ≤ few, Ends turn next n b) : ∃ n ≤ many, Ends turn a n b := by
  obtain ⟨n, hn, hends⟩ := hrest
  exact ⟨n + 1, by omega, .again h hends⟩

/-- What all turns leave as it is, and the last one has for its result, is the result. -/
theorem Ends.result_eq (h : Ends turn a n b) {f : α → β}
    (hagain : ∀ a next, turn a = .again next → f next = f a)
    (hdone : ∀ a b, turn a = .done b → b = f a) : b = f a := by
  induction h with
  | done hturn => exact hdone _ _ hturn
  | again hturn _ ih => exact ih.trans (hagain _ _ hturn)

theorem Ends.map (h : Ends turn a n b) (f : β → γ) :
    Ends (fun a => (turn a).map f) a n (f b) := by
  induction h with
  | done hturn => exact .done (congrArg (Turn.map f) hturn)
  | again hturn _ ih => exact .again (congrArg (Turn.map f) hturn) ih

end Loop

open Loop (Turn Ends)

/-! ## Reading tokens -/

namespace Lexer

variable {l next : Lexer}

/-- Takes the bytes in front of the unread ones that the token read in part takes as they come. -/
def skipRun (l : Lexer) : Lexer :=
  (l.takeRun l.unread).loaded (l.unread.dropWhile l.scanner.lexeme.repeats)

/-- One turn of the loop that reads a token. A byte that may stand in a string as it is is taken
with the run that it begins, a byte of a number with the digits behind it, and all others by
themselves. -/
def turn (l : Lexer) : Turn Lexer (Except LexicalFault (Option Token) × Lexer) :=
  match l.unread with
  | [] => .done (.ok none, l)
  | b :: rest =>
    match l.scanner.step l.depthLimit (Utf8.leading (b :: rest)) b with
    | .shift next =>
      match l.scanner.lexeme, next.lexeme with
      | .text _ _, .text _ _ => .again l.skipRun
      | _, .number _ _ => .again ((l.past b next).loaded rest).skipRun
      | _, _ => .again ((l.past b next).loaded rest)
    | .consume result next => .done (handBack ((l.past b next).loaded rest) result)
    | .leave result next => .done (handBack ((l.withScanner next).loaded (b :: rest)) result)

/-- One turn of the loop that asks for tokens until none comes. -/
def callTurn (l : Lexer) : Turn Lexer (Except LexicalFault (Option Token) × Lexer) :=
  match l.next with
  | (.ok (some _), l') => .again l'
  | answer => .done answer

theorem next_skipRun (l : Lexer) : l.skipRun.next = l.next :=
  (scan_loaded _ _ _).trans (scan_takeRun l l.unread)

theorem unread_skipRun (l : Lexer) : l.skipRun.unread <:+ l.unread :=
  List.dropWhile_suffix _

/-- A byte after which a string goes on as before may stand in it as it is. -/
theorem repeats_of_inText {s next : Scanner} {b : UInt8} {bytes more : Array UInt8}
    {high waiting : Option Nat} (hstep : s.inText b bytes high = .shift next)
    (hnext : next.lexeme = .text more waiting) : (Lexeme.text bytes high).repeats b = true := by
  unfold Scanner.inText at hstep
  split at hstep
  · cases hstep
    cases hnext
  next hbackslash =>
    split at hstep
    · cases hstep
    · split at hstep
      · unfold Scanner.closeText at hstep
        split at hstep <;> cases hstep
      next hquote =>
        split at hstep
        · cases hstep
        next hcontrol => simp [Lexeme.repeats, hquote, hbackslash, hcontrol]

/-- What a turn comes to: it goes on with fewer bytes to read and the same answer to come, gives
this answer, which is a token or a fault, or finds all bytes read. -/
inductive TurnsTo (l : Lexer) :
    Turn Lexer (Except LexicalFault (Option Token) × Lexer) → Prop where
  | again {next : Lexer} (behind : next.unread <:+ l.unread)
    (reads : next.unread.length < l.unread.length) (same : next.next = l.next) :
    TurnsTo l (.again next)
  | answers {answer : Except LexicalFault (Option Token) × Lexer} (same : answer = l.next)
    (found : answer.1 ≠ .ok none) : TurnsTo l (.done answer)
  | ends (read : l.unread = []) (same : (.ok none, l) = l.next) : TurnsTo l (.done (.ok none, l))

theorem turnsTo_turn (l : Lexer) : l.TurnsTo l.turn := by
  cases hunread : l.unread with
  | nil =>
    have hturn : l.turn = .done (.ok none, l) := by rw [turn, hunread]
    rw [hturn]
    refine .ends hunread ?_
    rw [next, hunread, scan, ← hunread]
  | cons b rest =>
    rw [turn, hunread]
    dsimp only
    split
    next next hstep =>
      have hsame : ((l.past b next).loaded rest).next = l.next := by
        rw [Lexer.next, Lexer.next, hunread, scan_shift hstep]
        exact scan_loaded _ _ _
      have hbehind : rest <:+ l.unread := by
        rw [hunread]
        exact List.suffix_cons b rest
      have hreads : rest.length < l.unread.length := by
        rw [hunread]
        exact Nat.lt_succ_self _
      split
      next bytes high more waiting hlexeme hnext =>
        -- the byte is the first of the run, which is not empty for that
        refine .again l.unread_skipRun ?_ l.next_skipRun
        have hrepeats : l.scanner.lexeme.repeats b = true := by
          rw [Scanner.step, hlexeme] at hstep
          rw [hlexeme]
          exact repeats_of_inText hstep hnext
        have hrun : l.skipRun.unread = rest.dropWhile l.scanner.lexeme.repeats := by
          show l.unread.dropWhile _ = _
          rw [hunread, List.dropWhile_cons_of_pos hrepeats]
        rw [hrun]
        exact Nat.lt_of_le_of_lt (List.dropWhile_suffix _).length_le hreads
      next =>
        have hrun : ((l.past b next).loaded rest).skipRun.unread <:+ rest := unread_skipRun _
        exact .again (hrun.trans hbehind) (Nat.lt_of_le_of_lt hrun.length_le hreads)
          ((next_skipRun _).trans hsame)
      next => exact .again hbehind hreads hsame
    next result next hstep =>
      refine .answers ?_ (handBack_ne_none _ _)
      rw [Lexer.next, hunread, scan_consume hstep]
    next result next hstep =>
      refine .answers ?_ (handBack_ne_none _ _)
      rw [Lexer.next, hunread, scan_leave hstep]

theorem supply_le (l : Lexer) : l.supply ≤ l.unread.length + 1 := by
  rw [supply]
  split <;> omega

/-- The loop that reads a token ends in as many turns as bytes are unread at most, and the next
token is its result. -/
theorem ends_turn (l : Lexer) : ∃ n ≤ l.unread.length, Ends turn l n l.next := by
  have hagain (l next : Lexer) (h : l.turn = .again next) :
      next.unread.length < l.unread.length ∧ next.next = l.next := by
    have hturns := l.turnsTo_turn
    rw [h] at hturns
    cases hturns with
    | again behind reads same => exact ⟨reads, same⟩
  have hdone (l : Lexer) (answer) (h : l.turn = .done answer) : answer = l.next := by
    have hturns := l.turnsTo_turn
    rw [h] at hturns
    cases hturns with
    | answers same found => exact same
    | ends read same => exact same
  obtain ⟨n, hn, answer, hends⟩ := Loop.exists_ends (fun l next h => (hagain l next h).1) l
  have hanswer : answer = l.next := hends.result_eq (fun l next h => (hagain l next h).2) hdone
  exact ⟨n, hn, hanswer ▸ hends⟩

/-- Asking for tokens ends: it gives at most one for each unread byte, and one for a token that is
read in part. -/
theorem ends_callTurn (l : Lexer) :
    ∃ n ≤ l.unread.length + 1, ∃ answer, Ends callTurn l n answer := by
  have hagain (l next : Lexer) (h : l.callTurn = .again next) : next.supply < l.supply := by
    rw [callTurn] at h
    split at h
    next token l' hnext =>
      cases h
      exact supply_next_lt l token next hnext
    next => cases h
  obtain ⟨n, hn, hends⟩ := Loop.exists_ends hagain l
  exact ⟨n, Nat.le_trans hn l.supply_le, hends⟩

end Lexer

/-! ## Turning tokens into values -/

namespace Pipeline

variable {σ : Type} [TokenSource σ]

/-- One turn of the loop that turns tokens into values, with the events so far. -/
def drainTurn : Reaction σ → Turn (Reaction σ) (Option Error × Reaction σ)
  | (p, events) =>
    if p.isHolding || p.rootClosed then .done (none, p, events)
    else
      match TokenSource.next p.source with
      | (.error fault, source) => .done (some (.lexical fault), { p with source }, events)
      | (.ok none, source) => .done (none, { p with source }, events)
      | (.ok (some token), source) =>
        match p.builder.push token with
        | (.error cause, builder) =>
          .done (some (.malformed cause (TokenSource.location source)),
            { p with source, builder }, events)
        | (.ok .incomplete, builder) => .again ({ p with source, builder }, events)
        | (.ok .rootClosed, builder) =>
          .again ({ p with source, builder, rootClosed := true }, events)
        | (.ok (.value value), builder) =>
          .again (andThen ({ p with source, builder }, events) fun p =>
            p.deliver (p.outlet.offer value))

/-- What a pipeline makes of the result of a drain. -/
def conclude : Option Error × Reaction σ → Reaction σ
  | (some cause, r) => andThen r fun p => p.fail cause
  | (none, r) => andThen r settle

theorem advance_eq_conclude (p : Pipeline σ) : p.advance = conclude p.drain := by
  rw [advance]
  rcases p.drain with ⟨_ | cause, r⟩ <;> rfl

/-- A drain comes to what its loop comes to, whatever was delivered before. -/
theorem ends_drainUpTo {fuel : Nat} {p : Pipeline σ} (h : TokenSource.supply p.source < fuel)
    (events : List Event) :
    ∃ n ≤ TokenSource.supply p.source, Ends drainTurn (p, events) n
      ((drainUpTo fuel p).1, (drainUpTo fuel p).2.1, events ++ (drainUpTo fuel p).2.2) := by
  fun_induction drainUpTo fuel p generalizing events with
  | case1 p => exact absurd h (Nat.not_lt_zero _)
  | case2 fuel p hstopped =>
    rw [List.append_nil]
    refine ⟨0, Nat.zero_le _, .done ?_⟩
    rw [drainTurn, if_pos hstopped]
  | case3 fuel p hgoes fault source hnext =>
    rw [List.append_nil]
    refine ⟨0, Nat.zero_le _, .done ?_⟩
    rw [drainTurn, if_neg hgoes, hnext]
  | case4 fuel p hgoes source hnext =>
    rw [List.append_nil]
    refine ⟨0, Nat.zero_le _, .done ?_⟩
    rw [drainTurn, if_neg hgoes, hnext]
  | case5 fuel p hgoes token source hnext cause builder hpush =>
    rw [List.append_nil]
    refine ⟨0, Nat.zero_le _, .done ?_⟩
    simp only [drainTurn, if_neg hgoes, hnext, hpush]
  | case6 fuel p hgoes token source hnext builder hpush ih
  | case7 fuel p hgoes token source hnext builder hpush ih =>
    have hless := TokenSource.supply_next_lt _ _ _ hnext
    have hfuel : TokenSource.supply source < fuel := by omega
    refine Loop.exists_ends_of_again ?_ hless (ih hfuel events)
    simp only [drainTurn, if_neg hgoes, hnext, hpush]
  | case8 fuel p hgoes token source hnext v builder hpush q sent hoffer error q' later hlater ih =>
    have hless := TokenSource.supply_next_lt _ _ _ hnext
    have hsource : q.source = source := congrArg (fun r => r.1.source) hoffer.symm
    have hfuel : TokenSource.supply q.source < fuel := by
      rw [hsource]
      omega
    have hrest := ih hfuel (events ++ sent)
    rw [hlater, hsource, List.append_assoc] at hrest
    refine Loop.exists_ends_of_again ?_ hless hrest
    simp only [drainTurn, if_neg hgoes, hnext, hpush, andThen, hoffer]

/-- Draining ends, after at most as many tokens as the source has supply for. -/
theorem ends_drainTurn (p : Pipeline σ) :
    ∃ n ≤ TokenSource.supply p.source,
      Ends drainTurn ({ p with phase := .draining }, []) n p.drain :=
  ends_drainUpTo (p := { p with phase := .draining }) (Nat.lt_succ_self _) []

end Pipeline

/-! ## Giving chunks -/

namespace Session

open Pipeline (Conforms)

variable {y : Yield Lexer} {s : Session Lexer}

/-- One turn of the loop that gives chunks as long as they are asked for, with the chunks that are
left to give. When none is left it tells the end. -/
def supplyTurn : Session Lexer × List (List UInt8) →
    Turn (Session Lexer × List (List UInt8)) (Session Lexer × List (List UInt8))
  | (s, chunks) =>
    match s.takeRequest with
    | (false, s) => .done (s, chunks)
    | (true, s) =>
      match chunks with
      | [] => .again (s.call .supplyEnded, [])
      | chunk :: rest => .again (s.call (.chunk chunk), rest)

theorem supplyTurn_of_exhausted (h : s.Exhausted) (chunks : List (List UInt8)) :
    supplyTurn (s, chunks) = .done (s, chunks) := by
  have htake : s.takeRequest = (false, s) := Prod.ext h (takeRequest_of_exhausted h)
  rw [supplyTurn, htake]

theorem supplyTurn_nil (h : s.takeRequest.1 = true) :
    supplyTurn (s, []) = .again (s.takeRequest.2.call .supplyEnded, []) := by
  have htake : s.takeRequest = (true, s.takeRequest.2) := Prod.ext h rfl
  rw [supplyTurn, htake]

theorem supplyTurn_cons (h : s.takeRequest.1 = true) (chunk : List UInt8)
    (rest : List (List UInt8)) :
    supplyTurn (s, chunk :: rest) = .again (s.takeRequest.2.call (.chunk chunk), rest) := by
  have htake : s.takeRequest = (true, s.takeRequest.2) := Prod.ext h rfl
  rw [supplyTurn, htake]

/-- Giving chunks ends: some of them are taken, each in one turn, and the end is told in one more if
it is at all. -/
theorem ends_supplyTurn (h : Conforms y Demand.unbounded false s.pipeline s.inbox.signals)
    (hpaced : s.Paced) (hends : s.pipeline.isTerminal = true → s.Exhausted)
    (chunks : List (List UInt8)) :
    ∃ taken unfed, chunks = taken ++ unfed ∧
      ∃ n ≤ taken.length + 1, Ends supplyTurn (s, chunks) n (s.supplyAll chunks, unfed) := by
  induction chunks generalizing y s with
  | nil =>
    refine ⟨[], [], rfl, ?_⟩
    obtain ⟨-, hexhausted⟩ := exhausted_supplyAll h hpaced hends []
    rw [supplyAll_nil] at hexhausted ⊢
    by_cases htaken : s.takeRequest.1 = true
    · rw [if_pos htaken] at hexhausted ⊢
      exact ⟨1, Nat.le_refl 1,
        .again (supplyTurn_nil htaken) (.done (supplyTurn_of_exhausted hexhausted []))⟩
    · have hnone : s.Exhausted := Bool.eq_false_iff.mpr htaken
      rw [if_neg htaken, takeRequest_of_exhausted hnone]
      exact ⟨0, Nat.zero_le _, .done (supplyTurn_of_exhausted hnone [])⟩
  | cons chunk rest ih =>
    by_cases hawaiting : s.pipeline.awaiting = true
    · obtain ⟨hserving, hsupply⟩ := serving_of_awaiting h (Nat.le_refl _) hawaiting
      obtain ⟨htaken, hfed, hstays⟩ := supply_chunk h (Nat.le_refl _) hpaced hawaiting chunk
      have hexhausted := exhausted_call (s := s.takeRequest.2) hserving hsupply
        (c := .chunk chunk) (fun hends => Bool.noConfusion hends)
      obtain ⟨taken, unfed, hsplit, hrest⟩ := ih hfed hstays hexhausted
      refine ⟨chunk :: taken, unfed, congrArg (chunk :: ·) hsplit, ?_⟩
      rw [supplyAll_cons, if_pos htaken]
      exact Loop.exists_ends_of_again (supplyTurn_cons htaken chunk rest)
        (Nat.lt_succ_self _) hrest
    · have hterminal := (h.finished_of_not_awaiting (Bool.eq_false_iff.mpr hawaiting)).1
      have hnone := hends hterminal
      rw [supplyAll_of_exhausted hnone]
      exact ⟨[], chunk :: rest, rfl, 0, Nat.zero_le _, .done (supplyTurn_of_exhausted hnone _)⟩

/-- Parsing gives its chunks in a loop that ends, and collects what was delivered by then. -/
theorem ends_parse (options : Options) (chunks : List (List UInt8)) :
    let start := (Session.new options).call (.request Demand.unbounded)
    parse options chunks = collect (start.supplyAll chunks).inbox.signals ∧
      ∃ taken unfed, chunks = taken ++ unfed ∧
        ∃ n ≤ taken.length + 1,
          Ends supplyTurn (start, chunks) n (start.supplyAll chunks, unfed) := by
  intro start
  have hstart := (Pipeline.conforms_new options).request (n := Demand.unbounded) (by decide)
    (.inr rfl)
  have hpaced : start.Paced := Session.paced_call (s := Session.new options) rfl (fun _ => rfl) rfl
    rfl
  have hends : start.pipeline.isTerminal = true → start.Exhausted :=
    exhausted_call (s := Session.new options) (Pipeline.serving_new _ _) rfl
      fun hends => Bool.noConfusion hends
  refine ⟨?_, ends_supplyTurn hstart hpaced hends chunks⟩
  obtain ⟨hterminal, -⟩ := exhausted_supplyAll (s := start) hstart hpaced hends chunks
  rw [parse]
  exact congrArg (fun s : Session Lexer => collect s.inbox.signals) (if_pos hterminal)

end Session

/-! ## All loops -/

/-- All loops end. A turn of the one that reads a token goes on only if it reads a byte, and is done
with a token, a fault or no byte to read; so it ends in as many turns as bytes are unread at most,
with the next token. Asking for tokens until none comes gives at most one more than bytes are
unread. So draining ends for every state of a pipeline, and whatever a pipeline waits for next is
decided then; and parsing ends for all chunks, of which it takes some from the front, each once. -/
theorem draining_ends :
    (∀ l : Lexer,
      (∀ next, l.turn = .again next →
          next.unread <:+ l.unread ∧ next.unread.length < l.unread.length) ∧
        (∀ answer, l.turn = .done answer → answer.1 = .ok none → l.unread = []) ∧
        (∃ n ≤ l.unread.length, Ends Lexer.turn l n l.next) ∧
        ∃ n ≤ l.unread.length + 1, ∃ answer, Ends Lexer.callTurn l n answer) ∧
      (∀ p : Pipeline Lexer, ∃ n ≤ p.source.unread.length + 1,
        Ends Pipeline.drainTurn ({ p with phase := .draining }, []) n p.drain ∧
          Ends (fun r => (Pipeline.drainTurn r).map Pipeline.conclude)
            ({ p with phase := .draining }, []) n p.advance) ∧
      ∀ (options : Options) (chunks : List (List UInt8)),
        let start := (Session.new options).call (.request Demand.unbounded)
        parse options chunks = collect (start.supplyAll chunks).inbox.signals ∧
          ∃ taken unfed, chunks = taken ++ unfed ∧
            ∃ n ≤ taken.length + 1,
              Ends Session.supplyTurn (start, chunks) n (start.supplyAll chunks, unfed) := by
  refine ⟨fun l => ⟨?_, ?_, l.ends_turn, l.ends_callTurn⟩, fun p => ?_, Session.ends_parse⟩
  · intro next hturn
    have hturns := l.turnsTo_turn
    rw [hturn] at hturns
    cases hturns with
    | again behind reads same => exact ⟨behind, reads⟩
  · intro answer hturn hnone
    have hturns := l.turnsTo_turn
    rw [hturn] at hturns
    cases hturns with
    | answers same found => exact absurd hnone found
    | ends read same => exact read
  · obtain ⟨n, hn, hends⟩ := Pipeline.ends_drainTurn p
    have hconcludes : p.advance = Pipeline.conclude p.drain := p.advance_eq_conclude
    rw [hconcludes]
    exact ⟨n, Nat.le_trans hn p.source.supply_le, hends, hends.map Pipeline.conclude⟩

/-- Inside a string the letters `a` and `b` are taken in one turn, and in the next one no byte is
left to read. -/
theorem draining_ends_in_string :
    let l : Lexer := { depthLimit := 1, scanner := ⟨[], .text #[] none⟩, unread := [0x61, 0x62] }
    let last : Lexer :=
      { depthLimit := 1, scanner := ⟨[], .text #[0x61, 0x62] none⟩, location := ⟨1, 3⟩ }
    (l.turn = .again last ∧ last.unread <:+ l.unread ∧ last.unread.length < l.unread.length) ∧
      (last.turn = .done (.ok none, last) ∧ last.unread = []) ∧
      ∃ n ≤ 2, Ends Lexer.turn l n l.next := by
  intro l last
  have hagain : l.turn = .again last := rfl
  have hdone : last.turn = .done (.ok none, last) := rfl
  exact ⟨⟨hagain, (draining_ends.1 l).1 last hagain⟩,
    ⟨hdone, (draining_ends.1 last).2.1 _ hdone rfl⟩, (draining_ends.1 l).2.2.1⟩

end StreamingJson
