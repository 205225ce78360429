import StreamingJson.Proofs.Pipeline.Waiting

/-!
# Violations of the protocol

Whatever the source, a pipeline reports a violation of the protocol only in reaction to a call that
is one. A lexer has read all its bytes where a chunk is awaited, so that it refuses no chunk, and
the two sides of a pipeline over a lexer violate the protocol by empty requests and by chunks that
are not awaited, and by nothing else.

## Main definitions

- `Pipeline.Violates`, `Pipeline.admits` — the calls that are violations, and those that a pipeline
  admits
- `Pipeline.Located` — a drain whose errors have a place in the text

## Main statements

- `Pipeline.reports_advance` — making progress reports errors of the text only
- `Pipeline.violates_of_mem` — a violation is reported in reaction to a call that is one
- `Pipeline.exists_violates` — so it is in every run
- `Pipeline.not_refused` — a pipeline over a lexer refuses no chunk
-/

namespace StreamingJson

namespace Pipeline

variable {σ : Type} [TokenSource σ] {p q : Pipeline σ} {c : Call} {violation : ProtocolViolation}

/-- A call that violates the protocol where it meets the pipeline `p`. -/
inductive Violates (p : Pipeline σ) : Call → ProtocolViolation → Prop where
  /-- A request asks for nothing. -/
  | zeroDemand : Violates p (.request 0) .zeroDemand
  /-- A chunk comes that is not awaited. -/
  | unrequested (idle : p.awaiting = false) (bytes : List UInt8) :
    Violates p (.chunk bytes) .unrequestedChunk
  /-- A chunk comes that is awaited while the source has bytes left to read. -/
  | refused {bytes : List UInt8} {refusal : UnreadInput} (awaits : p.awaiting = true)
    (accept : TokenSource.accept p.source bytes = .error refusal) :
    Violates p (.chunk bytes) (.refusedChunk refusal)

/-- Whether a pipeline admits a call: a request asks for something, and a chunk comes only where one
is awaited. -/
def admits (p : Pipeline σ) : Call → Bool
  | .request count => 1 ≤ count
  | .chunk _ => p.awaiting
  | .cancel | .supplyEnded | .supplyFailed _ => true

/-- Among the calls that a pipeline admits only a chunk that the source refuses is a violation. -/
theorem Violates.exists_refusal (h : Violates p c violation) (hadmits : p.admits c = true) :
    ∃ refusal, violation = .refusedChunk refusal := by
  cases h with
  | zeroDemand => cases hadmits
  | unrequested idle bytes =>
    rw [admits, idle] at hadmits
    cases hadmits
  | @refused bytes refusal awaits accept => exact ⟨refusal, rfl⟩

/-! ### Making progress -/

/-- The errors that a drain finds or reports have a place in the text. -/
def Located : Option Error × Reaction σ → Prop
  | (error, _, events) =>
    (∀ cause, error = some cause → cause.location?.isSome = true) ∧
      Reports (·.location?.isSome = true) events

theorem located_drainUpTo (fuel : Nat) (p : Pipeline σ) : Located (drainUpTo fuel p) := by
  have hnone {q : Pipeline σ} : Located (none, q, []) :=
    ⟨fun cause hcause => (by cases hcause), reports_nil⟩
  fun_induction drainUpTo fuel p with
  | case1 p => exact hnone
  | case2 fuel p hstopped => exact hnone
  | case3 fuel p hgoes fault source hnext =>
    refine ⟨fun cause hcause => ?_, reports_nil⟩
    rw [← Option.some.inj hcause]
    rfl
  | case4 fuel p hgoes source hnext => exact hnone
  | case5 fuel p hgoes token source hnext cause builder hpush =>
    refine ⟨fun cause' hcause => ?_, reports_nil⟩
    rw [← Option.some.inj hcause]
    rfl
  | case6 fuel p hgoes token source hnext builder hpush ih => exact ih
  | case7 fuel p hgoes token source hnext builder hpush ih => exact ih
  | case8 fuel p hgoes token source hnext v builder hpush q events hoffer error q' later hlater
      ih =>
    obtain ⟨rfl, rfl⟩ := Prod.mk.inj hoffer
    rw [hlater] at ih
    exact ⟨ih.1, (Invariance.reports_offer p.outlet v).append ih.2⟩

theorem reports_fail {E : Error → Prop} {cause : Error} (hcause : E cause) (p : Pipeline σ) :
    Reports E (p.fail cause).2 :=
  (Invariance.keeps_fail (I := fun _ _ => True) hcause p).2

theorem reports_settle (p : Pipeline σ) :
    Reports (·.location?.isSome = true) p.settle.2 := by
  rw [settle]
  split
  · exact reports_nil
  split
  · exact (Invariance.reports_releaseSupplier p).append (Invariance.reports_complete _)
  split
  · split
    · exact reports_fail (E := (·.location?.isSome = true)) rfl p
    · exact Invariance.reports_complete p
  split
  · exact reports_nil
  split
  · intro cause hmem
    cases hmem
  · exact reports_nil

/-- Making progress reports errors of the text only. -/
theorem reports_advance (p : Pipeline σ) :
    Reports (·.location?.isSome = true) p.advance.2 := by
  have hdrain : Located p.drain := located_drainUpTo ..
  rcases hr : p.drain with ⟨_ | cause, r⟩
  · rw [hr] at hdrain
    rw [advance_of_drain hr]
    exact hdrain.2.append (reports_settle r.1)
  · rw [hr] at hdrain
    rw [advance_of_drain_error hr]
    exact hdrain.2.append (reports_fail (hdrain.1 cause rfl) r.1)

theorem reports_intake {E : Error → Prop} {r : Reaction σ} (h : p.intake c = some r) :
    Reports E r.2 := by
  cases c with
  | request count =>
    rw [intake] at h
    split at h
    · cases h
    · obtain rfl := Option.some.inj h
      exact Invariance.reports_request p.outlet count
  | chunk bytes =>
    rw [intake] at h
    split at h
    · split at h
      next => cases h
      next source haccept =>
        obtain rfl := Option.some.inj h
        exact reports_nil
    · cases h
  | supplyEnded =>
    obtain rfl := Option.some.inj h
    exact reports_nil
  | cancel | supplyFailed message => cases h

/-! ### Calls -/

/-- A violation is reported in reaction to a call that is one. -/
theorem violates_of_mem (h : p.isTerminal = false)
    (hmem : .error (.protocol violation) ∈ Event.signals (p.react c).2) :
    Violates p c violation := by
  -- no other error is a violation
  suffices hreports : Reports (fun cause => ∀ violation, cause = .protocol violation →
      Violates p c violation) (p.react c).2 from hreports _ hmem _ rfl
  have hreacts := reacts h c
  generalize p.react c = r at hreacts
  cases hreacts with
  | taken intake =>
    refine (reports_intake intake).append fun cause hcause violation hviolation => ?_
    have hlocated := reports_advance _ cause hcause
    rw [hviolation] at hlocated
    cases hlocated
  | zeroDemand =>
    refine reports_fail (fun violation hviolation => ?_) p
    obtain rfl := Error.protocol.inj hviolation
    exact .zeroDemand
  | unrequested idle bytes =>
    refine reports_fail (fun violation hviolation => ?_) p
    obtain rfl := Error.protocol.inj hviolation
    exact .unrequested idle bytes
  | refused awaits accept =>
    refine reports_fail (fun violation hviolation => ?_) _
    obtain rfl := Error.protocol.inj hviolation
    exact .refused awaits accept
  | supplyFailed message => exact reports_fail (fun _ hviolation => Error.noConfusion hviolation) _
  | cancelled => exact Invariance.reports_releaseSupplier _

/-! ### Runs -/

/-- A call of a run meets the state that the calls before it lead to. -/
theorem exists_run_of_mem_visits {calls : List Call} (h : (q, c) ∈ p.visits calls) :
    ∃ before after, calls = before ++ c :: after ∧ q = (p.run before).1 := by
  induction calls generalizing p with
  | nil => cases h
  | cons d ds ih =>
    rcases List.mem_cons.mp h with heq | hmem
    · obtain ⟨rfl, rfl⟩ := Prod.mk.inj heq
      exact ⟨[], ds, rfl, rfl⟩
    · obtain ⟨before, after, rfl, rfl⟩ := ih hmem
      exact ⟨d :: before, after, rfl, rfl⟩

/-- A violation that a run reports is one of its calls, before the end of the pipeline. -/
theorem exists_violates {calls : List Call}
    (hmem : .error (.protocol violation) ∈ Event.signals (p.run calls).2) :
    ∃ visit ∈ p.visits calls, visit.1.isTerminal = false ∧
      Violates visit.1 visit.2 violation := by
  induction calls generalizing p with
  | nil => cases hmem
  | cons c cs ih =>
    cases hterminal : p.isTerminal with
    | true =>
      rw [run_of_isTerminal hterminal] at hmem
      cases hmem
    | false =>
      rw [run, andThen_snd, Event.signals_append] at hmem
      rcases List.mem_append.mp hmem with hmem | hmem
      · exact ⟨(p, c), List.mem_cons_self, hterminal, violates_of_mem hterminal hmem⟩
      · obtain ⟨visit, hvisit, hviolates⟩ := ih hmem
        exact ⟨visit, List.mem_cons_of_mem _ hvisit, hviolates⟩

/-- Where a pipeline over a lexer awaits a chunk all bytes are read, and no chunk is refused. -/
theorem not_refused (options : Options) {calls : List Call} {p : Pipeline Lexer}
    (hvisit : (p, c) ∈ (new ({ depthLimit := options.depthLimit } : Lexer) options).visits calls)
    (hrunning : p.isTerminal = false) (refusal : UnreadInput) :
    ¬Violates p c (.refusedChunk refusal) := by
  rintro (_ | _ | ⟨awaits, accept⟩)
  obtain ⟨before, after, -, rfl⟩ := exists_run_of_mem_visits hvisit
  have hwaiting := (waiting_new options).run (serving_new _ _) hrunning
  rw [Lexer.accept_of_unread (hwaiting.awaits awaits).2.1] at accept
  cases accept

end Pipeline

end StreamingJson
