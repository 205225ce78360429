import StreamingJson.Parse
import StreamingJson.Proofs.Pipeline.Asking
import StreamingJson.Proofs.Pipeline.Unbounded

/-!
# The outcome of parsing

Parsing drives a session: it asks for everything, gives chunks as long as they are asked for, tells
the end, and collects what was delivered. Its result is read off the yield of the chunks.

## Main definitions

- `Yield.outcome` — the result that a yield calls for

## Main statements

- `Session.conforms_supplyAll` — the driver of a session keeps its pipeline conforming
- `parse_eq_outcome` — parsing gives the outcome of what the chunks yield
- `parse_eq_collect` — parsing collects what a run with unbounded demand delivers
-/

namespace StreamingJson

namespace Yield

/-- The result that a yield calls for when there are no more chunks: an error if one was found or a
value is left incomplete, and the values otherwise. -/
def outcome (y : Yield Lexer) : Except Error (List Value) :=
  match y.ending with
  | .failed cause => .error cause
  | .closed => .ok y.values
  | .dry l b =>
    if l.isMidValue || b.depth ≠ 0 then .error (.truncated l.location) else .ok y.values

theorem collect_append (values : List Value) (signals : List (Signal Value)) :
    collect (values.map .next ++ signals) = (collect signals).map (values ++ ·) := by
  induction values with
  | nil => cases h : collect signals <;> simp [h, Except.map]
  | cons v vs ih =>
    rw [List.map_cons, List.cons_append, collect, ih]
    cases collect signals <;> rfl

theorem collect_eq_outcome (y : Yield Lexer) :
    collect (y.values.map .next ++ (y.verdict true).toList) = y.outcome := by
  rw [collect_append]
  unfold verdict outcome
  cases hending : y.ending with
  | failed cause => rfl
  | closed => simp [collect, Except.map]
  | dry l b =>
    simp only [Bool.not_true, Bool.false_eq_true, if_false]
    by_cases hrest : (l.isMidValue || decide (b.depth ≠ 0)) = true
    · rw [if_pos hrest, if_pos hrest]
      rfl
    · rw [if_neg hrest, if_neg hrest]
      simp [collect, Except.map]

end Yield

namespace Session

open Pipeline (Conforms)

variable {y : Yield Lexer} {s : Session Lexer}

/-- A call to a session at its end changes nothing that the consumer sees. -/
theorem call_of_terminal (h : s.pipeline.isTerminal = true) (bytes : List UInt8) :
    (s.call (.chunk bytes)).pipeline = s.pipeline ∧
      (s.call (.chunk bytes)).inbox.signals = s.inbox.signals := by
  simp [call, Pipeline.react, Pipeline.takeChunk, h, Inbox.receive]

theorem pipeline_takeRequest (s : Session Lexer) : s.takeRequest.2.pipeline = s.pipeline := rfl

theorem supplyAll_nil (s : Session Lexer) :
    s.supplyAll [] =
      if s.takeRequest.1 then s.takeRequest.2.call .supplyEnded else s.takeRequest.2 := rfl

theorem supplyAll_cons (s : Session Lexer) (chunk : List UInt8) (rest : List (List UInt8)) :
    s.supplyAll (chunk :: rest) =
      if s.takeRequest.1 then (s.takeRequest.2.call (.chunk chunk)).supplyAll rest
      else s.takeRequest.2 := rfl

/-- Where the pipeline awaits a chunk and the session is paced, the one request that is open is
taken up. -/
theorem takeRequest_of_awaiting (hpaced : s.Paced) (hrunning : s.pipeline.isTerminal = false)
    (hawaiting : s.pipeline.awaiting = true) :
    s.takeRequest = (true, { s with subscription := { s.subscription with wanted := 0 } }) := by
  obtain ⟨hcancelled, hwanted⟩ := hpaced hrunning
  rw [if_pos hawaiting] at hwanted
  simp [takeRequest, Subscription.take, hcancelled, hwanted]

/-- A chunk that is asked for is taken by the pipeline, and the session stays paced. -/
theorem supply_chunk {demand : Nat} (h : Conforms y demand false s.pipeline s.inbox.signals)
    (hle : demand ≤ Demand.unbounded) (hpaced : s.Paced) (hawaiting : s.pipeline.awaiting = true)
    (bytes : List UInt8) :
    s.takeRequest.1 = true ∧
      Conforms (y.feed bytes) demand false (s.takeRequest.2.call (.chunk bytes)).pipeline
        (s.takeRequest.2.call (.chunk bytes)).inbox.signals ∧
      (s.takeRequest.2.call (.chunk bytes)).Paced := by
  obtain ⟨-, hread, -, -, -, -, hterminal, -⟩ := h.waiting_of_awaiting hawaiting
  rw [takeRequest_of_awaiting hpaced hterminal hawaiting]
  refine ⟨rfl, h.takeChunk hle hawaiting bytes, ?_⟩
  have hreact : s.pipeline.react (.chunk bytes) =
      Pipeline.andThen
        ({ s.pipeline with
            awaiting := false, source := s.pipeline.source.renewed.loaded bytes }, [])
        Pipeline.advance := by
    simp [Pipeline.react, Pipeline.takeChunk, hterminal, hawaiting,
      Lexer.accept_of_unread hread, Pipeline.andThen]
  exact paced_call hreact (fun _ => rfl) (hpaced hterminal).1 rfl

/-- The driver gives a conforming pipeline all chunks, unless it comes to its end before. -/
theorem conforms_supplyAll (h : Conforms y Demand.unbounded false s.pipeline s.inbox.signals)
    (hpaced : s.Paced) (chunks : List (List UInt8)) :
    ∃ ended, Conforms (chunks.foldl Yield.feed y) Demand.unbounded ended
      (s.supplyAll chunks).pipeline (s.supplyAll chunks).inbox.signals := by
  induction chunks generalizing y s with
  | nil =>
    rw [supplyAll_nil]
    split
    · exact ⟨true, h.endSupply (Nat.le_refl _)⟩
    · exact ⟨false, h⟩
  | cons chunk rest ih =>
    rw [List.foldl_cons, supplyAll_cons]
    by_cases hawaiting : s.pipeline.awaiting = true
    · obtain ⟨htaken, hconforms, hstays⟩ :=
        supply_chunk h (Nat.le_refl _) hpaced hawaiting chunk
      rw [if_pos htaken]
      exact ih hconforms hstays
    · -- the pipeline is at its end and further chunks change nothing
      have hidle : s.pipeline.awaiting = false := Bool.eq_false_iff.mpr hawaiting
      obtain ⟨hterminal, t, hverdict⟩ := h.finished_of_not_awaiting hidle
      rw [Yield.feed_of_verdict hverdict]
      obtain ⟨hpipeline, hsignals⟩ := call_of_terminal (s := s.takeRequest.2) hterminal chunk
      split
      · refine ih (s := s.takeRequest.2.call (.chunk chunk)) ?_ ?_
        · rw [hpipeline, hsignals]
          exact h
        · intro hopen
          rw [hpipeline, pipeline_takeRequest, hterminal] at hopen
          cases hopen
      · rw [Yield.foldl_feed_of_verdict hverdict]
        exact ⟨false, h⟩

end Session

/-- Parsing gives the outcome of what the chunks yield. -/
theorem parse_eq_outcome (options : Options) (chunks : List (List UInt8)) :
    parse options chunks = (Yield.ofChunks options chunks).outcome := by
  have hstart := (Pipeline.conforms_new options).request (n := Demand.unbounded) (by decide)
    (.inr rfl)
  have hpaced : ((Session.new options).call (.request Demand.unbounded)).Paced :=
    Session.paced_call (s := Session.new options) rfl (fun _ => rfl) rfl rfl
  obtain ⟨ended, hsupplied⟩ := Session.conforms_supplyAll
    (s := (Session.new options).call (.request Demand.unbounded)) hstart hpaced chunks
  rw [← Yield.collect_eq_outcome, ← Yield.sent_unbounded, parse]
  -- the end of the supply is told once more unless the pipeline is at its own end
  by_cases hterminal : (((Session.new options).call (.request Demand.unbounded)).supplyAll
      chunks).pipeline.isTerminal = true
  · obtain ⟨-, -, -, hsent⟩ := hsupplied.verdict_of_terminal hterminal
    simp only [hterminal, if_true]
    exact congrArg collect hsent
  · simp only [hterminal, Bool.false_eq_true, if_false]
    exact congrArg collect (hsupplied.endSupply (Nat.le_refl _)).sent_eq

/-- Parsing collects what a run with unbounded demand delivers. -/
theorem parse_eq_collect (options : Options) (chunks : List (List UInt8)) :
    parse options chunks = collect (Event.signals (Pipeline.completedRun options chunks).2) := by
  rw [parse_eq_outcome, Pipeline.signals_completedRun, Yield.collect_eq_outcome]

end StreamingJson
