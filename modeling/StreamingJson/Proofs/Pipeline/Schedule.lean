import StreamingJson.Proofs.Pipeline.Unbounded

/-!
# The order of calls does not matter

Consumer and supplier act independently: demand may come in any portions, before, between and after
the chunks. What a pipeline has delivered, and the state it shows, depend only on the chunks it was
given, on the sum of the demand and on whether the supply has ended.

## Main definitions

- `Pipeline.Run` — the legal runs of a pipeline, with chunks, total demand and signals

## Main statements

- `Pipeline.Run.conforms` — a legal run conforms
- `Pipeline.Run.confluent` — runs with the same chunks and the same demand show the same
-/

namespace StreamingJson

namespace Pipeline

/-- The legal runs of a new pipeline: the chunks it was given, the sum of the demand that it
accepted, whether the supply has ended, the state reached and the signals delivered on the way.
Demand is positive and counts as long as the pipeline is not at its end, a chunk comes only if it is
asked for, and no chunk comes after the end of the supply. -/
inductive Run (options : Options) :
    List (List UInt8) → Nat → Bool → Pipeline Lexer → List (Signal Value) → Prop where
  | start : Run options [] 0 false (Pipeline.new { depthLimit := options.depthLimit } options) []
  | request {chunks : List (List UInt8)} {demand : Nat} {ended : Bool} {p : Pipeline Lexer}
    {sent : List (Signal Value)} (run : Run options chunks demand ended p sent)
    (accepted : p.isTerminal = false) {n : Nat} (positive : 0 < n) :
    Run options chunks (demand + n) ended (p.request n).1
      (sent ++ Event.signals (p.request n).2)
  | lateRequest {chunks : List (List UInt8)} {demand : Nat} {ended : Bool} {p : Pipeline Lexer}
    {sent : List (Signal Value)} (run : Run options chunks demand ended p sent)
    (terminal : p.isTerminal = true) {n : Nat} (positive : 0 < n) :
    Run options chunks demand ended (p.request n).1 (sent ++ Event.signals (p.request n).2)
  | chunk {chunks : List (List UInt8)} {demand : Nat} {p : Pipeline Lexer}
    {sent : List (Signal Value)} (run : Run options chunks demand false p sent)
    (asked : p.awaiting = true) (bytes : List UInt8) :
    Run options (chunks ++ [bytes]) demand false (p.takeChunk bytes).1
      (sent ++ Event.signals (p.takeChunk bytes).2)
  | supplyEnded {chunks : List (List UInt8)} {demand : Nat} {p : Pipeline Lexer}
    {sent : List (Signal Value)} (run : Run options chunks demand false p sent) :
    Run options chunks demand true p.endSupply.1 (sent ++ Event.signals p.endSupply.2)

namespace Run

variable {options : Options} {chunks : List (List UInt8)} {demand : Nat} {ended : Bool}
  {p q : Pipeline Lexer} {sent sent' : List (Signal Value)}

/-- A legal run conforms to the yield of the chunks it was given. -/
theorem conforms (run : Run options chunks demand ended p sent)
    (bounded : demand < Demand.unbounded) :
    Conforms (Yield.ofChunks options chunks) demand ended p sent := by
  -- every call keeps conformance; what is left is to add up demand and chunks
  induction run with
  | start => exact conforms_new options
  | @request chunks demand ended p sent run accepted n positive ih =>
    have hstep := (ih (by omega)).request positive (.inl bounded)
    have hadd : Demand.add demand n = demand + n := Nat.min_eq_left (by omega)
    rwa [accepted, if_neg Bool.false_ne_true, hadd] at hstep
  | @lateRequest chunks demand ended p sent run terminal n positive ih =>
    have hsame : p.request n = (p, []) := by simp [Pipeline.request, terminal]
    rw [hsame]
    simpa [Event.signals] using ih bounded
  | @chunk chunks demand p sent run asked bytes ih =>
    rw [Yield.ofChunks_append]
    exact (ih bounded).takeChunk (Nat.le_of_lt bounded) asked bytes
  | supplyEnded run ih => exact (ih bounded).endSupply (Nat.le_of_lt bounded)

/-- The terminal signal of a run is that of any run with unbounded demand on the chunks given and
perhaps more, provided that the supply did not end before those. -/
theorem terminal_of_prefix {y : Yield Lexer} {t : Signal Value} {more : List (List UInt8)}
    (h : y.verdict ended = some t) (hmore : ended = true → more = []) :
    (more.foldl Yield.feed y).verdict true = some t := by
  cases ended with
  | true => rw [hmore rfl, List.foldl_nil, h]
  | false =>
    rw [Yield.foldl_feed_of_verdict h]
    exact Yield.verdict_ended h

/-- Two legal runs with the same chunks, the same total demand and the same knowledge of the end of
the supply have delivered the same and show the same state. They have delivered the first values of
the run with unbounded demand, as many as the demand allows. A terminal signal they have delivered
is the one that unbounded demand brings about for all chunks, those still to come included. They
have delivered one if the supply has ended and demand extends to all values. -/
theorem confluent (hp : Run options chunks demand ended p sent)
    (hq : Run options chunks demand ended q sent') (bounded : demand < Demand.unbounded) :
    (sent = sent' ∧ p.phase = q.phase ∧ p.demand = q.demand ∧ p.isHolding = q.isHolding) ∧
      Signal.values sent =
        (Signal.values (Event.signals (unboundedRun options chunks).2)).take demand ∧
      (∀ more : List (List UInt8), (ended = true → more = []) →
        ∀ t ∈ sent, t.isTerminal = true →
          t ∈ Event.signals (completedRun options (chunks ++ more)).2) ∧
      (ended = true →
        (Signal.values (Event.signals (unboundedRun options chunks).2)).length ≤ demand →
        ∃ t ∈ sent, t.isTerminal = true) := by
  have cp := hp.conforms bounded
  have cq := hq.conforms bounded
  -- all that a run shows is read off the yield, the demand and the end of the supply
  refine ⟨⟨?_, ?_, ?_, ?_⟩, ?_, ?_, ?_⟩
  · rw [cp.sent_eq, cq.sent_eq]
  · rw [cp.phase_eq, cq.phase_eq]
  · rw [cp.demand_eq, cq.demand_eq]
  · rw [cp.isHolding_eq, cq.isHolding_eq]
  · rw [cp.sent_eq, Yield.values_sent _ (Nat.ne_of_lt bounded), values_unboundedRun]
  · intro more hmore t hmem hterminal
    rw [cp.sent_eq] at hmem
    obtain ⟨-, hverdict⟩ := (Yield.mem_sent_iff hterminal).mp hmem
    rw [signals_completedRun, Yield.ofChunks_append, terminal_of_prefix hverdict hmore]
    exact List.mem_append_right _ (List.mem_singleton.mpr rfl)
  · intro hended hcount
    subst hended
    obtain ⟨t, hverdict⟩ := (Yield.ofChunks options chunks).exists_verdict
    have hterminal := Yield.verdict_isTerminal hverdict
    rw [values_unboundedRun] at hcount
    refine ⟨t, ?_, hterminal⟩
    rw [cp.sent_eq]
    exact (Yield.mem_sent_iff hterminal).mpr ⟨.inr hcount, hverdict⟩

/-- The streamed array `[1,2]` under a demand of two values at once, and under two demands of one
value, the second of which comes while the other value is held back and after the supply has
ended. -/
theorem confluent_while_holding :
    let options : Options := { streamRootArray := true }
    let chunks : List (List UInt8) := [[0x5B, 0x31, 0x2C], [0x32, 0x5D]]
    ∃ (p q : Pipeline Lexer) (sent sent' : List (Signal Value)),
      Run options chunks 2 true p sent ∧ Run options chunks 2 true q sent' ∧
      2 < Demand.unbounded ∧
      (sent = sent' ∧ p.phase = q.phase ∧ p.demand = q.demand ∧ p.isHolding = q.isHolding) ∧
      Signal.values sent =
        (Signal.values (Event.signals (unboundedRun options chunks).2)).take 2 ∧
      (∀ more : List (List UInt8), (true = true → more = []) →
        ∀ t ∈ sent, t.isTerminal = true →
          t ∈ Event.signals (completedRun options (chunks ++ more)).2) ∧
      (true = true →
        (Signal.values (Event.signals (unboundedRun options chunks).2)).length ≤ 2 →
        ∃ t ∈ sent, t.isTerminal = true) := by
  intro options chunks
  have fresh : Run options [] 0 false (Pipeline.new { depthLimit := options.depthLimit } options)
    [] := .start
  have atOnce := (((fresh.request rfl (n := 2) (by decide)).chunk (by decide +kernel)
    [0x5B, 0x31, 0x2C]).chunk (by decide +kernel) [0x32, 0x5D]).supplyEnded
  -- the second value waits when the supply ends
  have held := (((fresh.request rfl (n := 1) (by decide)).chunk (by decide +kernel)
    [0x5B, 0x31, 0x2C]).chunk (by decide +kernel) [0x32, 0x5D]).supplyEnded
  have singly := held.request (by decide +kernel) (n := 1) (by decide)
  exact ⟨_, _, _, _, atOnce, singly, by decide, confluent atOnce singly (by decide)⟩

end Run

end Pipeline

end StreamingJson
