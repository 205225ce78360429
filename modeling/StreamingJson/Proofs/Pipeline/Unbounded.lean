import StreamingJson.Proofs.Pipeline.Calls

/-!
# Runs with unbounded demand

A consumer that wants everything asks once, and the supplier then gives one chunk after the other as
long as the pipeline asks for them. Such a run delivers all that the chunks yield.

## Main definitions

- `Pipeline.offerAll` — gives chunks to a pipeline as long as it asks for them
- `Pipeline.unboundedRun`, `Pipeline.completedRun` — the run without and with the end of the supply

## Main statements

- `Pipeline.conforms_unboundedRun` — such a run conforms with unbounded demand
- `Pipeline.signals_unboundedRun`, `Pipeline.signals_completedRun` — what it delivers
-/

namespace StreamingJson

namespace Yield

theorem verdict_isTerminal {y : Yield Lexer} {ended : Bool} {t : Signal Value}
    (h : y.verdict ended = some t) : t.isTerminal = true := by
  unfold verdict at h
  split at h
  · cases h; rfl
  · cases h; rfl
  · split at h
    · cases h
    · split at h <;> (cases h; rfl)

/-- The end of the supply settles every yield. -/
theorem exists_verdict (y : Yield Lexer) : ∃ t, y.verdict true = some t := by
  unfold verdict
  split
  · exact ⟨_, rfl⟩
  · exact ⟨_, rfl⟩
  · simp only [Bool.not_true, Bool.false_eq_true, if_false]
    split <;> exact ⟨_, rfl⟩

theorem values_verdict (y : Yield Lexer) (ended : Bool) :
    Signal.values (y.verdict ended).toList = [] := by
  cases h : y.verdict ended with
  | none => rfl
  | some t =>
    have hterminal := verdict_isTerminal h
    cases t with
    | next v => cases hterminal
    | complete => rfl
    | error cause => rfl

/-- The values that a demand has delivered are the first of all, as far as it extends. -/
theorem values_sent (y : Yield Lexer) {demand : Nat} (h : demand ≠ Demand.unbounded)
    (ended : Bool) : Signal.values (y.sent demand ended) = y.values.take demand := by
  unfold sent
  by_cases hcovers : Demand.Covers demand y.values.length
  · rw [if_pos hcovers, Signal.values_append, Signal.values_map_next, values_verdict,
      List.append_nil, List.take_of_length_le (hcovers.resolve_left h)]
  · rw [if_neg hcovers, Signal.values_map_next]

theorem sent_unbounded (y : Yield Lexer) (ended : Bool) :
    y.sent Demand.unbounded ended = y.values.map .next ++ (y.verdict ended).toList :=
  if_pos (Demand.covers_unbounded _)

/-- The terminal signal comes as soon as all values are delivered. -/
theorem mem_sent_iff {y : Yield Lexer} {demand : Nat} {ended : Bool} {t : Signal Value}
    (hterminal : t.isTerminal = true) :
    t ∈ y.sent demand ended ↔
      Demand.Covers demand y.values.length ∧ y.verdict ended = some t := by
  have hnext := Signal.not_mem_map_next hterminal
  unfold sent
  by_cases hcovers : Demand.Covers demand y.values.length
  · rw [if_pos hcovers, List.mem_append, Option.mem_toList]
    exact ⟨fun h => ⟨hcovers, h.resolve_left (hnext _)⟩, fun h => .inr h.2⟩
  · rw [if_neg hcovers]
    exact ⟨fun h => absurd h (hnext _), fun h => absurd h.1 hcovers⟩

end Yield

namespace Pipeline

/-- Gives chunks to a pipeline, each of them only if it asks for one. -/
def offerAll (p : Pipeline Lexer) : List (List UInt8) → Reaction Lexer
  | [] => (p, [])
  | chunk :: rest =>
    if p.awaiting then andThen (p.takeChunk chunk) fun p => p.offerAll rest else (p, [])

/-- A new pipeline that is asked for everything and then given the chunks. -/
def unboundedRun (options : Options) (chunks : List (List UInt8)) : Reaction Lexer :=
  andThen ((Pipeline.new { depthLimit := options.depthLimit } options).request Demand.unbounded)
    fun p => p.offerAll chunks

/-- The same run with the end of the supply after the chunks. -/
def completedRun (options : Options) (chunks : List (List UInt8)) : Reaction Lexer :=
  andThen (unboundedRun options chunks) endSupply

section

variable {y : Yield Lexer} {ended : Bool} {p : Pipeline Lexer} {sent : List (Signal Value)}

/-- With unbounded demand a pipeline that does not wait for a chunk has come to its end. -/
theorem Conforms.finished_of_not_awaiting
    (h : Conforms y Demand.unbounded ended p sent) (hawaiting : p.awaiting = false) :
    p.isTerminal = true ∧ ∃ t, y.verdict ended = some t := by
  have hdemand := h.demand_eq
  cases h with
  | holding values met bounded => exact absurd rfl bounded
  | finished verdict covers outlet phase => exact ⟨terminal_of_verdict phase, _, verdict⟩
  | waiting ending read covers outlet phase awaiting =>
    rw [hawaiting, hdemand, Demand.left_unbounded] at awaiting
    cases awaiting

/-- A pipeline at its end is there by the terminal signal that the end of the supply calls for, and
it has delivered it. -/
theorem Conforms.verdict_of_terminal (h : Conforms y Demand.unbounded ended p sent)
    (hterminal : p.isTerminal = true) :
    ∃ t, y.verdict true = some t ∧ p.phase = phaseAfter t ∧
      sent = y.sent Demand.unbounded true := by
  cases h with
  | holding values met bounded => exact absurd rfl bounded
  | @finished t verdict covers outlet phase =>
    have hverdict : y.verdict true = some t := by
      cases ended with
      | true => exact verdict
      | false => exact Yield.verdict_ended verdict
    refine ⟨t, hverdict, phase, ?_⟩
    rw [Yield.sent_unbounded, hverdict]
    rfl
  | waiting ending read covers outlet phase =>
    rw [isTerminal, phase] at hterminal
    split at hterminal <;> cases hterminal

/-- The pipeline that has taken in a chunk and not yet looked at it. -/
def withChunk (p : Pipeline Lexer) (chunk : List UInt8) : Pipeline Lexer :=
  { p with awaiting := false, source := p.source.renewed.loaded chunk }

theorem Conforms.takeChunk_eq (h : Conforms y Demand.unbounded false p sent)
    (hawaiting : p.awaiting = true) (chunk : List UInt8) :
    p.takeChunk chunk = (p.withChunk chunk).advance := by
  obtain ⟨-, read, -, -, -, -, hterminal, -⟩ := h.waiting_of_awaiting hawaiting
  simp [Pipeline.takeChunk, withChunk, hterminal, hawaiting, Lexer.accept_of_unread read]

theorem Conforms.ending_feed (h : Conforms y Demand.unbounded false p sent)
    (hawaiting : p.awaiting = true) (chunk : List UInt8) :
    (y.feed chunk).ending =
      (TokenSource.yield (p.withChunk chunk).source (p.withChunk chunk).builder).ending := by
  obtain ⟨ending, -⟩ := h.waiting_of_awaiting hawaiting
  rw [Yield.feed, ending]
  rfl

/-- Draining the chunk that a pipeline waits for finds the error that the chunk brings, or leaves
the lexer from which its yield goes on. -/
theorem Conforms.drain_withChunk (h : Conforms y Demand.unbounded false p sent)
    (hawaiting : p.awaiting = true) (chunk : List UInt8) :
    (∀ cause, (y.feed chunk).ending = .failed cause →
        (p.withChunk chunk).drain.1 = some cause) ∧
      ∀ l b, (y.feed chunk).ending = .dry l b → (p.withChunk chunk).drain.2.1.source = l := by
  obtain ⟨-, -, -, outlet, -, rootOpen, -⟩ := h.waiting_of_awaiting hawaiting
  rw [Demand.left_unbounded] at outlet
  have hdrained : Drained { p.withChunk chunk with phase := .draining }
      (TokenSource.yield (p.withChunk chunk).source (p.withChunk chunk).builder)
      (p.withChunk chunk).drain :=
    drained_drainUpTo (p := { p.withChunk chunk with phase := .draining }) (Nat.lt_succ_self _)
      outlet (Nat.le_refl _) rootOpen
  rw [h.ending_feed hawaiting]
  generalize (p.withChunk chunk).drain = r at hdrained
  cases hdrained with
  | held values met bounded => exact absurd (congrArg Outlet.demand outlet) bounded
  | failed ending =>
    rw [ending]
    exact ⟨fun cause hcause => congrArg some (Yield.Ending.failed.inj hcause),
      fun l b hdry => (by cases hdry)⟩
  | closed ending =>
    rw [ending]
    exact ⟨fun cause hcause => (by cases hcause), fun l b hdry => (by cases hdry)⟩
  | dry ending =>
    rw [ending]
    exact ⟨fun cause hcause => (by cases hcause), fun l b hdry => (Yield.Ending.dry.inj hdry).1⟩

theorem Conforms.offerAll (h : Conforms y Demand.unbounded false p sent)
    (chunks : List (List UInt8)) :
    Conforms (chunks.foldl Yield.feed y) Demand.unbounded false (p.offerAll chunks).1
      (sent ++ Event.signals (p.offerAll chunks).2) := by
  induction chunks generalizing y p sent with
  | nil => simpa [Pipeline.offerAll, Event.signals] using h
  | cons chunk rest ih =>
    rw [List.foldl_cons, Pipeline.offerAll]
    by_cases hawaiting : p.awaiting = true
    · rw [if_pos hawaiting, andThen_fst, andThen_snd, Event.signals_append, ← List.append_assoc]
      exact ih (h.takeChunk (Nat.le_refl _) hawaiting chunk)
    · -- the pipeline is at its end, and further chunks do not change the yield
      rw [if_neg hawaiting]
      obtain ⟨-, t, hverdict⟩ := h.finished_of_not_awaiting (Bool.eq_false_iff.mpr hawaiting)
      rw [Yield.feed_of_verdict hverdict, Yield.foldl_feed_of_verdict hverdict]
      simpa [Event.signals] using h

end

theorem conforms_unboundedRun (options : Options) (chunks : List (List UInt8)) :
    Conforms (Yield.ofChunks options chunks) Demand.unbounded false
      (unboundedRun options chunks).1 (Event.signals (unboundedRun options chunks).2) := by
  have hstart := (conforms_new options).request (n := Demand.unbounded) (by decide) (.inr rfl)
  rw [List.nil_append] at hstart
  rw [unboundedRun, andThen_snd, Event.signals_append]
  exact hstart.offerAll chunks

theorem conforms_completedRun (options : Options) (chunks : List (List UInt8)) :
    Conforms (Yield.ofChunks options chunks) Demand.unbounded true
      (completedRun options chunks).1 (Event.signals (completedRun options chunks).2) := by
  have hend := (conforms_unboundedRun options chunks).endSupply (Nat.le_refl _)
  rw [completedRun, andThen_snd, Event.signals_append]
  exact hend

/-- Before the supply ends, all values that the chunks yield are delivered, and the terminal signal
if one is due. -/
theorem signals_unboundedRun (options : Options) (chunks : List (List UInt8)) :
    Event.signals (unboundedRun options chunks).2 =
      (Yield.ofChunks options chunks).values.map .next ++
        ((Yield.ofChunks options chunks).verdict false).toList :=
  (conforms_unboundedRun options chunks).sent_eq.trans (Yield.sent_unbounded _ _)

/-- With the end of the supply all values that the chunks yield are delivered, and a terminal
signal. -/
theorem signals_completedRun (options : Options) (chunks : List (List UInt8)) :
    Event.signals (completedRun options chunks).2 =
      (Yield.ofChunks options chunks).values.map .next ++
        ((Yield.ofChunks options chunks).verdict true).toList :=
  (conforms_completedRun options chunks).sent_eq.trans (Yield.sent_unbounded _ _)

theorem values_unboundedRun (options : Options) (chunks : List (List UInt8)) :
    Signal.values (Event.signals (unboundedRun options chunks).2) =
      (Yield.ofChunks options chunks).values := by
  rw [signals_unboundedRun, Signal.values_append, Signal.values_map_next, Yield.values_verdict,
    List.append_nil]

theorem values_completedRun (options : Options) (chunks : List (List UInt8)) :
    Signal.values (Event.signals (completedRun options chunks).2) =
      (Yield.ofChunks options chunks).values := by
  rw [signals_completedRun, Signal.values_append, Signal.values_map_next, Yield.values_verdict,
    List.append_nil]

end Pipeline

end StreamingJson
