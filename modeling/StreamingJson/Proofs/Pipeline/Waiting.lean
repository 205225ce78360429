import StreamingJson.Proofs.Pipeline.Agreement
import StreamingJson.Proofs.Pipeline.Conformance
import StreamingJson.Proofs.Pipeline.Consumer
import StreamingJson.Proofs.Pipeline.Supplier

/-!
# What a pipeline waits for

Between calls a pipeline over a lexer waits for demand, for a chunk or for nothing, and its phase
tells which: it holds a value back, or a chunk is awaited, or there is nothing to do. So it never
stalls: as long as there is demand a chunk is asked for, and after the end of the supply there is
nothing left to wait for but demand.

## Main definitions

- `Pipeline.Waiting` — what holds of a pipeline that waits

## Main statements

- `Pipeline.waiting_advance` — a pipeline that has made all progress waits or is at its end
- `Pipeline.Waiting.react` — calls keep this up
- `Pipeline.waiting_run` — what the phase of a pipeline says, after any calls
-/

namespace StreamingJson

/-- Outside values nothing is open in a builder that agrees with the lexer. -/
theorem Lexer.InStep.depth_eq_zero {duplicates : DuplicatePolicy} {l : Lexer} {b : Builder}
    (h : InStep duplicates l b) (hmid : l.isMidValue = false) : b.depth = 0 := by
  have hframes : l.scanner.frames = [] := by rw [Scanner.eq_of_not_isMidValue hmid]
  rw [h.2.depth_eq, hframes]
  rfl

namespace Pipeline

/-- What holds of a pipeline over a lexer that waits for either of its sides. -/
structure Waiting (p : Pipeline Lexer) : Prop where
  awaits : p.awaiting = true →
    p.isHolding = false ∧ p.source.unread = [] ∧ (p.demand ≠ 0 ∨ p.source.isMidValue = true)
  idles : p.isHolding = false → p.awaiting = false →
    p.supplyDone = false ∧ p.source.unread = [] ∧ p.demand = 0 ∧ p.source.isMidValue = false
  phase : p.phase =
    if p.isHolding then .holding else if p.awaiting then .awaitingChunk else .idle

theorem waiting_new (options : Options) :
    Waiting (new { depthLimit := options.depthLimit } options) :=
  ⟨fun hawaiting => Bool.noConfusion hawaiting, fun _ _ => ⟨rfl, rfl, rfl, rfl⟩, rfl⟩

variable {p q : Pipeline Lexer} {events : List Event} {c : Call}

/-! ### Making progress -/

/-- A drain stops where a value is held back, the root array is closed or all bytes are read. -/
theorem Serving.read_of_drain (h : p.Serving) (hdrain : p.drain = (none, q, events)) :
    q.isHolding = true ∨ q.rootClosed = true ∨ q.source.unread = [] := by
  by_cases hholding : p.isHolding = true
  · have hstopped : p.drain = (none, { p with phase := .draining }, []) :=
      drainUpTo_stopped (p := { p with phase := .draining })
        (by show (p.isHolding || p.rootClosed) = true; rw [hholding, Bool.true_or]) _
    obtain ⟨rfl, -⟩ := Prod.mk.inj (Prod.mk.inj (hdrain.symm.trans hstopped)).2
    exact .inl hholding
  · have hdrained : Drained { p with phase := .draining } (TokenSource.yield p.source p.builder)
        p.drain :=
      drained_drainUpTo (p := { p with phase := .draining }) (Nat.lt_succ_self _)
        (h.outlet_eq (Bool.eq_false_iff.mpr hholding)) h.bounded h.unfinished
    rw [hdrain] at hdrained
    cases hdrained with
    | held => exact .inl rfl
    | closed => exact .inr (.inl rfl)
    | dry ending => exact .inr (.inr (Lexer.unread_of_yield ending))

/-- Where all bytes are read a drain changes nothing but the phase. -/
theorem drain_of_unread (hread : p.source.unread = []) :
    p.drain = (none, { p with phase := .draining }, []) := by
  by_cases hstopped : (p.isHolding || p.rootClosed) = true
  · exact drainUpTo_stopped (p := { p with phase := .draining }) hstopped _
  · have hnext : TokenSource.next p.source = (.ok none, p.source) := by
      show p.source.scan p.source.unread = (.ok none, p.source)
      rw [hread, Lexer.scan, ← hread]
    exact drainUpTo_none (p := { p with phase := .draining }) (Bool.eq_false_iff.mpr hstopped) _
      hnext

theorem waiting_settle
    (hread : p.isHolding = true ∨ p.rootClosed = true ∨ p.source.unread = [])
    (hawaits : p.awaiting = true →
      p.isHolding = false ∧ p.source.unread = [] ∧ (p.demand ≠ 0 ∨ p.source.isMidValue = true))
    (hrunning : p.settle.1.isTerminal = false) : p.settle.1.Waiting := by
  obtain ⟨hopen, hsettles⟩ := settles_settle hrunning
  have hunread (free : p.isHolding = false) : p.source.unread = [] := by
    rcases hread with held | closed | hunread
    · exact absurd held (Bool.eq_false_iff.mp free)
    · exact absurd closed (Bool.eq_false_iff.mp (hopen free))
    · exact hunread
  generalize p.settle = r at hsettles ⊢
  cases hsettles with
  | holding held =>
    exact ⟨hawaits, fun free => absurd held (Bool.eq_false_iff.mp free), (if_pos held).symm⟩
  | awaiting free awaits =>
    refine ⟨hawaits, fun _ hidle => absurd awaits (Bool.eq_false_iff.mp hidle), ?_⟩
    exact ((if_neg (Bool.eq_false_iff.mp free)).trans (if_pos awaits)).symm
  | asking free unawaited wanted =>
    exact ⟨fun _ => ⟨free, hunread free, wanted⟩, fun _ hidle => Bool.noConfusion hidle,
      (if_neg (Bool.eq_false_iff.mp free)).symm⟩
  | idle free unawaited supplied sated =>
    have hneeds : TokenSource.needsInput p.source = true := by
      show p.source.unread.isEmpty = true
      rw [hunread free]
      rfl
    obtain ⟨hdemand, hmid⟩ := sated hneeds
    refine ⟨fun awaits => absurd awaits (Bool.eq_false_iff.mp unawaited), fun _ _ => ?_, ?_⟩
    · exact ⟨supplied, hunread free, hdemand, hmid⟩
    · exact ((if_neg (Bool.eq_false_iff.mp free)).trans
        (if_neg (Bool.eq_false_iff.mp unawaited))).symm

/-- A pipeline that has made all progress waits, unless it is at its end. -/
theorem waiting_advance (h : p.Serving)
    (hawaits : p.awaiting = true →
      p.isHolding = false ∧ p.source.unread = [] ∧ (p.demand ≠ 0 ∨ p.source.isMidValue = true))
    (hrunning : p.advance.1.isTerminal = false) : p.advance.1.Waiting := by
  obtain ⟨error, q, given, hdrain, hspent⟩ := h.exists_spent
  cases error with
  | some cause =>
    rw [advance_of_drain_error hdrain, andThen_fst, isTerminal_fail] at hrunning
    cases hrunning
  | none =>
    rw [advance_of_drain hdrain] at hrunning ⊢
    refine waiting_settle (h.read_of_drain hdrain) (fun hwaits => ?_) hrunning
    -- with a chunk awaited there is nothing to drain
    have hwaiting := hawaits (hspent.awaiting.symm.trans hwaits)
    have hsame := drain_of_unread hwaiting.2.1
    obtain ⟨rfl, -⟩ := Prod.mk.inj (Prod.mk.inj (hdrain.symm.trans hsame)).2
    exact hwaiting

/-! ### Calls -/

/-- Calls keep a pipeline waiting until it comes to its end. -/
theorem Waiting.react (h : p.Waiting) (hserving : p.Serving)
    (hrunning : (p.react c).1.isTerminal = false) : (p.react c).1.Waiting := by
  have hreacts := reacts hserving.running c
  generalize p.react c = r at hreacts hrunning
  have hfails {p : Pipeline Lexer} {cause : Error} (h : (p.fail cause).1.isTerminal = false) :
      False := by
    rw [isTerminal_fail] at h
    cases h
  cases hreacts with
  | taken intake =>
    rw [andThen_fst] at hrunning ⊢
    cases c with
    | request count =>
      rw [Pipeline.intake] at intake
      split at intake
      next => cases intake
      next hne =>
        obtain rfl := Option.some.inj intake
        have hle : Demand.add p.demand count ≤ Demand.unbounded := Demand.add_le _ _
        obtain ⟨given, hrequest, -, hnothing⟩ := hserving.deliver_request hne
        rw [hrequest] at hrunning ⊢
        refine waiting_advance (hserving.withDemand (Demand.left_le hle given.length))
          (fun hwaits => ?_) hrunning
        -- nothing is held back where a chunk is awaited, so that the demand only grows
        obtain ⟨hempty, hread, -⟩ := h.awaits hwaits
        refine ⟨rfl, hread, .inl ?_⟩
        show Demand.left (Demand.add p.demand count) given.length ≠ 0
        rw [hnothing hempty, List.length_nil, Demand.left_zero]
        unfold Demand.add Demand.unbounded
        omega
    | chunk bytes =>
      rw [Pipeline.intake] at intake
      split at intake
      next =>
        split at intake
        next => cases intake
        next source _ =>
          obtain rfl := Option.some.inj intake
          exact waiting_advance (hserving.withoutChunk source p.supplyDone)
            (fun hwaits => Bool.noConfusion hwaits) hrunning
      next => cases intake
    | supplyEnded =>
      obtain rfl := Option.some.inj intake
      exact waiting_advance (hserving.withoutChunk p.source true)
        (fun hwaits => Bool.noConfusion hwaits) hrunning
    | cancel | supplyFailed message => cases intake
  | zeroDemand | unrequested | refused | supplyFailed => exact (hfails hrunning).elim
  | cancelled =>
    rw [isTerminal, phase_releaseSupplier] at hrunning
    cases hrunning

/-! ### Runs -/

theorem Waiting.run (h : p.Waiting) (hserving : p.Serving) {calls : List Call}
    (hrunning : (p.run calls).1.isTerminal = false) : (p.run calls).1.Waiting := by
  induction calls generalizing p with
  | nil => exact h
  | cons c cs ih =>
    have hopen : (p.react c).1.isTerminal = false := by
      refine Bool.eq_false_iff.mpr fun hterminal => ?_
      have hstays : (p.run (c :: cs)).1 = (p.react c).1 := by
        rw [run, andThen_fst, run_of_isTerminal hterminal]
      rw [hstays, hterminal] at hrunning
      cases hrunning
    exact ih (h.react hserving hopen) (hserving.react hopen) hrunning

/-- Lexer and builder agree as long as a pipeline is not at its end. -/
theorem inStep_run (options : Options) {calls : List Call}
    (hrunning : ((new ({ depthLimit := options.depthLimit } : Lexer) options).run
      calls).1.isTerminal = false) :
    Lexer.InStep options.duplicates
      ((new ({ depthLimit := options.depthLimit } : Lexer) options).run calls).1.source
      ((new ({ depthLimit := options.depthLimit } : Lexer) options).run calls).1.builder :=
  ((Lexer.invariance_inStep options.duplicates).run
    (p := new ({ depthLimit := options.depthLimit } : Lexer) options)
    (fun _ => ⟨trivial, rfl, rfl, trivial, rfl⟩) calls).1 hrunning

/-- After any calls, whatever they are, the phase of a pipeline over a lexer tells what it waits
for, and it is never left in the middle of its work. A value is held back exactly in the phase for
that, where there is no demand and no chunk is awaited. A chunk is awaited exactly in the phase for
that, where all bytes are read, nothing is held back, the supply has not ended, and there is demand
or a value is begun. With nothing to do there is no demand, nothing is held back or awaited, the
supply has not ended, all bytes are read, and no value is begun in the lexer or the builder. So
before its end a pipeline with demand awaits a chunk, and one whose supply has ended holds a value
back. -/
theorem waiting_run (options : Options) (calls : List Call) :
    let start := new ({ depthLimit := options.depthLimit } : Lexer) options
    let p := (start.run calls).1
    let supplyEnded := supplyEnds (start.visits calls)
    p.phase ≠ .draining ∧
      (p.phase = .holding ↔ p.isHolding = true) ∧
      (p.phase = .holding → p.demand = 0 ∧ p.awaiting = false) ∧
      (p.phase = .awaitingChunk ↔ p.awaiting = true) ∧
      (p.phase = .awaitingChunk →
        p.source.unread = [] ∧ p.isHolding = false ∧ supplyEnded = false ∧
          (0 < p.demand ∨ p.source.isMidValue = true)) ∧
      (p.phase = .idle →
        p.demand = 0 ∧ p.isHolding = false ∧ p.awaiting = false ∧ supplyEnded = false ∧
          p.source.unread = [] ∧ p.source.isMidValue = false ∧ p.builder.depth = 0) ∧
      (p.isTerminal = false → 0 < p.demand → p.awaiting = true) ∧
      (p.isTerminal = false → supplyEnded = true → p.isHolding = true) := by
  intro start p supplyEnded
  have hserved := served_run ({ depthLimit := options.depthLimit } : Lexer) options calls
  have hsupplied := supplied_run ({ depthLimit := options.depthLimit } : Lexer) options calls
  cases hterminal : p.isTerminal with
  | true =>
    -- at the end nothing is held back or awaited, and the phase is one of the last three
    obtain ⟨-, hempty, hidle⟩ := hserved.atEnd hterminal
    have hphase : p.phase.isTerminal = true := hterminal
    have hnot {phase : Phase} (hphase' : phase.isTerminal = false) : p.phase ≠ phase := by
      rintro rfl
      rw [hphase] at hphase'
      cases hphase'
    refine ⟨hnot rfl, ?_, fun h => absurd h (hnot rfl), ?_, fun h => absurd h (hnot rfl),
      fun h => absurd h (hnot rfl), fun h => Bool.noConfusion h, fun h => Bool.noConfusion h⟩
    · exact ⟨fun h => absurd h (hnot rfl), fun h => absurd h (Bool.eq_false_iff.mp hempty)⟩
    · exact ⟨fun h => absurd h (hnot rfl), fun h => absurd h (Bool.eq_false_iff.mp hidle)⟩
  | false =>
    have hwaiting : p.Waiting := (waiting_new options).run (serving_new _ _) hterminal
    obtain ⟨hserving, hsupply⟩ := hsupplied.serving hterminal
    have hsupply : p.supplyDone = supplyEnded := hsupply
    have hphase := hwaiting.phase
    cases hholding : p.isHolding with
    | true =>
      rw [hholding, if_pos rfl] at hphase
      have hdemand : p.demand = 0 := hserving.withheld hholding
      have hidle : p.awaiting = false := by
        refine Bool.eq_false_iff.mpr fun hawaiting => ?_
        rw [(hwaiting.awaits hawaiting).1] at hholding
        cases hholding
      simp [hphase, hdemand, hidle]
    | false =>
      rw [hholding, if_neg Bool.false_ne_true] at hphase
      cases hawaiting : p.awaiting with
      | true =>
        rw [hawaiting, if_pos rfl] at hphase
        obtain ⟨-, hread, hwanted⟩ := hwaiting.awaits hawaiting
        have hgoes : supplyEnded = false := by
          refine Bool.eq_false_iff.mpr fun hended => ?_
          rw [hserving.supplied (hsupply.trans hended)] at hawaiting
          cases hawaiting
        simp [hphase, hread, hgoes, Nat.pos_iff_ne_zero, hwanted]
      | false =>
        rw [hawaiting, if_neg Bool.false_ne_true] at hphase
        obtain ⟨hgoes, hread, hdemand, hmid⟩ := hwaiting.idles hholding hawaiting
        have hdepth : p.builder.depth = 0 := (inStep_run options hterminal).depth_eq_zero hmid
        rw [hsupply] at hgoes
        simp [hphase, hgoes, hread, hdemand, hmid, hdepth]

end Pipeline

end StreamingJson
