import StreamingJson.Proofs.Pipeline.Drain
import StreamingJson.Proofs.Pipeline.Reactions
import StreamingJson.Proofs.Sources

/-!
# Pipelines over sources that do the same

A pipeline sees of its source no more than what it answers. So over sources that do the same,
pipelines react to the same calls by the same events.

## Main definitions

- `Pipeline.withSource` — a pipeline with another source in place of its own
- `Pipeline.Paired` — reactions with the same events, over sources in a relation

## Main statements

- `Pipeline.paired_react` — pipelines over such sources react alike
- `Pipeline.paired_run` — they do the same in every run
-/

namespace StreamingJson

namespace Pipeline

variable {σ τ : Type}

/-- The pipeline with another source in place of its own. -/
def withSource (q : Pipeline τ) (source : σ) : Pipeline σ where
  source := source
  builder := q.builder
  outlet := q.outlet
  phase := q.phase
  awaiting := q.awaiting
  supplyDone := q.supplyDone
  rootClosed := q.rootClosed

/-- Reactions with the same events, and pipelines that differ in their sources only, which are in
the relation `R`. -/
structure Paired (R : σ → τ → Prop) (r : Reaction σ) (r' : Reaction τ) : Prop where
  source : R r.1.source r'.1.source
  rest : r.1 = r'.1.withSource r.1.source
  events : r.2 = r'.2

variable {R : σ → τ → Prop} {r : Reaction σ} {r' : Reaction τ} {source : σ} {q : Pipeline τ}

/-- The second parts of reactions go together if the first ones do. -/
theorem Paired.andThen (h : Paired R r r') {f : Pipeline σ → Reaction σ}
    {g : Pipeline τ → Reaction τ}
    (hfg : ∀ {source : σ} {q : Pipeline τ}, R source q.source →
      Paired R (f (q.withSource source)) (g q)) :
    Paired R (Pipeline.andThen r f) (Pipeline.andThen r' g) := by
  have hlater := hfg h.source
  rw [← h.rest] at hlater
  refine ⟨hlater.source, hlater.rest, ?_⟩
  rw [andThen_snd, andThen_snd, h.events, hlater.events]

theorem paired_ite {s : Reaction σ} {s' : Reaction τ} {c c' : Prop} [Decidable c] [Decidable c']
    (hc : c ↔ c') (hr : Paired R r r') (hs : Paired R s s') :
    Paired R (if c then r else s) (if c' then r' else s') := by
  by_cases h : c
  · rwa [if_pos h, if_pos (hc.mp h)]
  · rwa [if_neg h, if_neg (mt hc.mpr h)]

theorem paired_releaseSupplier (h : R source q.source) :
    Paired R (q.withSource source).releaseSupplier q.releaseSupplier :=
  paired_ite Iff.rfl ⟨h, rfl, rfl⟩ ⟨h, rfl, rfl⟩

theorem paired_complete (h : R source q.source) :
    Paired R (q.withSource source).complete q.complete :=
  ⟨h, rfl, rfl⟩

section

variable [TokenSource σ] [TokenSource τ] (hR : TokenSource.Matching R)

include hR

theorem paired_clear_releaseSupplier (h : R source q.source) :
    Paired R (q.withSource source).clear.releaseSupplier q.clear.releaseSupplier :=
  paired_releaseSupplier (q := q.clear) (hR.fresh h)

theorem paired_fail (h : R source q.source) (cause : Error) :
    Paired R ((q.withSource source).fail cause) (q.fail cause) :=
  (paired_clear_releaseSupplier hR (q := { q with phase := .failed }) h).andThen
    fun h => ⟨h, rfl, rfl⟩

theorem paired_settle (h : R source q.source) : Paired R (q.withSource source).settle q.settle := by
  have hsource : (q.withSource source).source = source := rfl
  rw [settle, settle, hsource, hR.isMidValue h, hR.needsInput h, hR.location h]
  refine paired_ite Iff.rfl ⟨h, rfl, rfl⟩ ?_
  refine paired_ite Iff.rfl ((paired_releaseSupplier h).andThen paired_complete) ?_
  refine paired_ite Iff.rfl ?_ ?_
  · exact paired_ite Iff.rfl (paired_fail hR h _) (paired_complete h)
  · exact paired_ite Iff.rfl ⟨h, rfl, rfl⟩ (paired_ite Iff.rfl ⟨h, rfl, rfl⟩ ⟨h, rfl, rfl⟩)

/-- Drains over such sources turn the same tokens into values and meet the same errors. -/
theorem paired_drainUpTo (fuel : Nat) (h : R source q.source) :
    (drainUpTo fuel (q.withSource source)).1 = (drainUpTo fuel q).1 ∧
      Paired R (drainUpTo fuel (q.withSource source)).2 (drainUpTo fuel q).2 := by
  induction fuel generalizing source q with
  | zero => exact ⟨rfl, h, rfl, rfl⟩
  | succ fuel ih =>
    by_cases hstopped : (q.isHolding || q.rootClosed) = true
    · rw [drainUpTo_stopped hstopped, drainUpTo_stopped (p := q.withSource source) hstopped]
      exact ⟨rfl, h, rfl, rfl⟩
    have hgoes : (q.isHolding || q.rootClosed) = false := Bool.eq_false_iff.mpr hstopped
    have hgoes' : ((q.withSource source).isHolding || (q.withSource source).rootClosed) = false :=
      hgoes
    obtain ⟨hanswer, hlater⟩ := hR.next h
    rcases hnext : TokenSource.next q.source with ⟨answer, t⟩
    rcases hnext' : TokenSource.next (q.withSource source).source with ⟨answer', s⟩
    have hs : TokenSource.next source = (answer', s) := hnext'
    rw [hnext, hs] at hanswer hlater
    obtain rfl : answer' = answer := hanswer
    rcases answer' with fault | _ | token
    · rw [drainUpTo_fault hgoes _ hnext, drainUpTo_fault hgoes' _ hnext']
      exact ⟨rfl, hlater, rfl, rfl⟩
    · rw [drainUpTo_none hgoes _ hnext, drainUpTo_none hgoes' _ hnext']
      exact ⟨rfl, hlater, rfl, rfl⟩
    · rcases hpush : q.builder.push token with ⟨cause | _ | v | _, b⟩
      · rw [drainUpTo_refused hgoes _ hnext hpush, drainUpTo_refused hgoes' _ hnext' hpush,
          hR.location hlater]
        exact ⟨rfl, hlater, rfl, rfl⟩
      · rw [drainUpTo_incomplete hgoes _ hnext hpush, drainUpTo_incomplete hgoes' _ hnext' hpush]
        exact ih (q := { q with source := t, builder := b }) hlater
      · rw [drainUpTo_value hgoes _ hnext hpush, drainUpTo_value hgoes' _ hnext' hpush]
        have hrest := ih
          (q := { q with source := t, builder := b, outlet := (q.outlet.offer v).1 }) hlater
        have hoffered : Paired R
            ({ q.withSource s with builder := b, outlet := (q.outlet.offer v).1 },
              (q.outlet.offer v).2.map .deliver)
            ({ q with source := t, builder := b, outlet := (q.outlet.offer v).1 },
              (q.outlet.offer v).2.map .deliver) := ⟨hlater, rfl, rfl⟩
        have hpaired := hoffered.andThen (f := fun p => (drainUpTo fuel p).2)
          (g := fun q => (drainUpTo fuel q).2) fun h => (ih h).2
        exact ⟨hrest.1, hpaired⟩
      · rw [drainUpTo_rootClosed hgoes _ hnext hpush, drainUpTo_rootClosed hgoes' _ hnext' hpush]
        exact ih (q := { q with source := t, builder := b, rootClosed := true }) hlater

theorem paired_advance (h : R source q.source) :
    Paired R (q.withSource source).advance q.advance := by
  have hsupply : TokenSource.supply (q.withSource source).source = TokenSource.supply q.source :=
    hR.supply h
  obtain ⟨herror, hpaired⟩ := paired_drainUpTo hR (q := { q with phase := .draining })
    (TokenSource.supply q.source + 1) h
  have hdrain : (q.withSource source).drain = drainUpTo (TokenSource.supply q.source + 1)
      (withSource { q with phase := .draining } source) := by
    rw [drain, hsupply]
    rfl
  rw [← hdrain] at herror hpaired
  rcases hq : q.drain with ⟨error, r'⟩
  rcases hother : (q.withSource source).drain with ⟨error', r⟩
  rw [← drain, hq, hother] at herror hpaired
  obtain rfl : error' = error := herror
  cases error' with
  | none =>
    rw [advance_of_drain hq, advance_of_drain hother]
    exact hpaired.andThen (paired_settle hR)
  | some cause =>
    rw [advance_of_drain_error hq, advance_of_drain_error hother]
    exact hpaired.andThen fun h => paired_fail hR h cause

/-- Pipelines over such sources react alike. -/
theorem paired_react (h : R source q.source) (c : Call) :
    Paired R ((q.withSource source).react c) (q.react c) := by
  cases c with
  | request count =>
    refine paired_ite Iff.rfl ⟨h, rfl, rfl⟩ (paired_ite Iff.rfl (paired_fail hR h _) ?_)
    have hasked : Paired R ((q.withSource source).deliver (q.outlet.request count))
        (q.deliver (q.outlet.request count)) := ⟨h, rfl, rfl⟩
    exact hasked.andThen (paired_advance hR)
  | cancel =>
    refine paired_ite Iff.rfl ⟨h, rfl, rfl⟩ ?_
    exact paired_clear_releaseSupplier hR
      (q := { q with phase := .cancelled, outlet := q.outlet.discard }) h
  | chunk bytes =>
    rw [react, react, takeChunk, takeChunk]
    refine paired_ite Iff.rfl ⟨h, rfl, rfl⟩ (paired_ite Iff.rfl (paired_fail hR h _) ?_)
    have hfed := hR.accept h bytes
    dsimp only [withSource]
    generalize TokenSource.accept source bytes = fed at hfed
    generalize TokenSource.accept q.source bytes = fed' at hfed
    cases hfed with
    | refused refusal => exact paired_fail hR (q := { q with awaiting := false }) h _
    | @taken s t hs => exact paired_advance hR (q := { q with awaiting := false, source := t }) hs
  | supplyEnded =>
    refine paired_ite Iff.rfl ⟨h, rfl, rfl⟩ ?_
    exact paired_advance hR (q := { q with supplyDone := true, awaiting := false }) h
  | supplyFailed message =>
    refine paired_ite Iff.rfl ⟨h, rfl, rfl⟩ ?_
    exact paired_fail hR (q := { q with supplyDone := true, awaiting := false }) h _

/-- Pipelines over such sources do the same in every run. -/
theorem paired_run (h : R source q.source) (calls : List Call) :
    Paired R ((q.withSource source).run calls) (q.run calls) := by
  induction calls generalizing source q with
  | nil => exact ⟨h, rfl, rfl⟩
  | cons c cs ih => exact (paired_react hR h c).andThen ih

end

end Pipeline

end StreamingJson
