import StreamingJson.Pipeline
import StreamingJson.Proofs.Demand

/-!
# The parts of a reaction

How the small operations that reactions are put together from change a pipeline and what they send,
each stated once.

## Main definitions

- `Event.signals` — the signals among events
- `Pipeline.phaseAfter` — the phase of a pipeline that has sent a terminal signal
- `Pipeline.Settles` — the ways a pipeline settles without coming to its end

## Main statements

- `Pipeline.signals_releaseSupplier` and its like — what telling the supplier to stop changes
- `Pipeline.advance_of_drain`, `Pipeline.advance_of_drain_error` — progress as drain and decision
- `Pipeline.isTerminal_fail`, `Pipeline.isTerminal_complete` — both ends are final
- `Pipeline.settles_settle` — a pipeline that has not ended settles in one of those ways
-/

namespace StreamingJson

/-- The signals among events, in order. -/
def Event.signals (events : List Event) : List (Signal Value) :=
  events.filterMap Event.signal?

theorem Event.signals_append (es fs : List Event) :
    Event.signals (es ++ fs) = Event.signals es ++ Event.signals fs :=
  List.filterMap_append

namespace Pipeline

/-- The phase in which a terminal signal leaves a pipeline. -/
def phaseAfter : Signal Value → Phase
  | .error _ => .failed
  | .next _ | .complete => .completed

section

variable {σ : Type}

theorem andThen_fst (r : Reaction σ) (f : Pipeline σ → Reaction σ) :
    (andThen r f).1 = (f r.1).1 := rfl

theorem andThen_snd (r : Reaction σ) (f : Pipeline σ → Reaction σ) :
    (andThen r f).2 = r.2 ++ (f r.1).2 := rfl

theorem andThen_assoc (r : Reaction σ) (f g : Pipeline σ → Reaction σ) :
    andThen (andThen r f) g = andThen r fun p => andThen (f p) g :=
  Prod.ext rfl (List.append_assoc ..)

variable (p : Pipeline σ)

/-- Telling the supplier to stop sends nothing to the consumer. -/
theorem signals_releaseSupplier : p.releaseSupplier.2.filterMap Event.signal? = [] := by
  unfold releaseSupplier
  split <;> rfl

theorem outlet_releaseSupplier : p.releaseSupplier.1.outlet = p.outlet := by
  unfold releaseSupplier
  split <;> rfl

theorem phase_releaseSupplier : p.releaseSupplier.1.phase = p.phase := by
  unfold releaseSupplier
  split <;> rfl

theorem awaiting_releaseSupplier : p.releaseSupplier.1.awaiting = false := by
  unfold releaseSupplier
  split <;> rfl

theorem isTerminal_complete : p.complete.1.isTerminal = true := rfl

end

variable {σ : Type} [TokenSource σ] {p : Pipeline σ} {r : Reaction σ} {cause : Error}

theorem isTerminal_fail (p : Pipeline σ) (cause : Error) : (p.fail cause).1.isTerminal = true := by
  unfold fail
  rw [andThen_fst]
  simp only [deliver, isTerminal, phase_releaseSupplier, clear]
  rfl

/-- How a pipeline settles that does not come to its end. -/
inductive Settles (p : Pipeline σ) : Reaction σ → Prop where
  /-- A value is held back. -/
  | holding (held : p.isHolding = true) : Settles p ({ p with phase := .holding }, [])
  /-- The chunk that was asked for has not come. -/
  | awaiting (free : p.isHolding = false) (awaits : p.awaiting = true) :
    Settles p ({ p with phase := .awaitingChunk }, [])
  /-- A chunk is asked for. -/
  | asking (free : p.isHolding = false) (unawaited : p.awaiting = false)
    (wanted : p.demand ≠ 0 ∨ TokenSource.isMidValue p.source = true) :
    Settles p ({ p with phase := .awaitingChunk, awaiting := true }, [.askChunks 1])
  /-- There is nothing to do. -/
  | idle (free : p.isHolding = false) (unawaited : p.awaiting = false)
    (supplied : p.supplyDone = false)
    (sated : TokenSource.needsInput p.source = true →
      p.demand = 0 ∧ TokenSource.isMidValue p.source = false) :
    Settles p ({ p with phase := .idle }, [])

theorem settles_settle (h : p.settle.1.isTerminal = false) :
    (p.isHolding = false → p.rootClosed = false) ∧ Settles p p.settle := by
  unfold settle at *
  by_cases hholding : p.isHolding = true
  · rw [if_pos hholding]
    exact ⟨fun hfree => absurd hholding (Bool.eq_false_iff.mp hfree), .holding hholding⟩
  rw [if_neg hholding] at h ⊢
  have hfree : p.isHolding = false := Bool.eq_false_iff.mpr hholding
  -- the root array and the supply do not end here, since the pipeline does not
  by_cases hroot : p.rootClosed = true
  · rw [if_pos hroot, andThen_fst, isTerminal_complete] at h
    cases h
  rw [if_neg hroot] at h ⊢
  refine ⟨fun _ => Bool.eq_false_iff.mpr hroot, ?_⟩
  by_cases hsupply : p.supplyDone = true
  · rw [if_pos hsupply] at h
    split at h
    · rw [isTerminal_fail] at h
      cases h
    · rw [isTerminal_complete] at h
      cases h
  rw [if_neg hsupply]
  by_cases hawaiting : p.awaiting = true
  · rw [if_pos hawaiting]
    exact .awaiting hfree hawaiting
  rw [if_neg hawaiting]
  have hidle : p.awaiting = false := Bool.eq_false_iff.mpr hawaiting
  split
  next hasks =>
    rw [Bool.and_eq_true, Bool.or_eq_true, decide_eq_true_eq] at hasks
    exact .asking hfree hidle hasks.2
  next hasks =>
    refine .idle hfree hidle (Bool.eq_false_iff.mpr hsupply) fun hneeds => ?_
    rw [hneeds, Bool.true_and, Bool.or_eq_true, decide_eq_true_eq, not_or, Decidable.not_not,
      Bool.not_eq_true] at hasks
    exact hasks

/-- An error is all that the consumer hears of a failure. -/
theorem signals_fail (h : p.outlet.closed = false) (cause : Error) :
    (p.fail cause).2.filterMap Event.signal? = [.error cause] := by
  simp only [fail, andThen_snd, List.filterMap_append, signals_releaseSupplier, deliver,
    outlet_releaseSupplier, clear, Outlet.fail, h]
  rfl

/-- A failure of the supplier is an error to a consumer that has not been told of an end. -/
theorem failSupply_of_running (hrunning : p.isTerminal = false) (hopen : p.outlet.closed = false)
    (message : String) :
    (p.failSupply message).2.filterMap Event.signal? = [.error (.supplier message)] ∧
      (p.failSupply message).1.isTerminal = true := by
  rw [failSupply, hrunning, if_neg Bool.false_ne_true]
  exact ⟨signals_fail (p := { p with supplyDone := true, awaiting := false }) hopen _,
    isTerminal_fail _ _⟩

theorem advance_of_drain (h : p.drain = (none, r)) : p.advance = andThen r settle := by
  simp only [advance, h]

theorem advance_of_drain_error (h : p.drain = (some cause, r)) :
    p.advance = andThen r fun q => q.fail cause := by
  simp only [advance, h]

end Pipeline

end StreamingJson
