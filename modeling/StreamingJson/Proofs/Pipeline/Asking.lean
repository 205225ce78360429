import StreamingJson.Proofs.Pipeline.Reactions
import StreamingJson.Session

/-!
# What a pipeline asks of its supplier

Making progress delivers values and, at the very end of it, may ask for one chunk. This file follows
the requests that reach the supplier: as long as a pipeline is not at its end the supplier has one
request open if the pipeline waits for a chunk, and none otherwise.

## Main definitions

- `Session.Paced` — the open requests of a session are those its pipeline waits for

## Main statements

- `Pipeline.drainUpTo_frame` — draining delivers and does nothing else
- `Pipeline.observe_advance` — what progress asks for
- `Session.paced_call` — calls leave sessions paced
-/

namespace StreamingJson

namespace Pipeline

variable {σ : Type} [TokenSource σ]

/-- The supplier hears nothing of what is delivered. -/
theorem observe_deliver (signals : List (Signal Value)) (s : Subscription) :
    (signals.map Event.deliver).foldl Subscription.observe s = s := by
  induction signals with
  | nil => rfl
  | cons signal signals ih => exact ih

/-- Draining delivers and asks for nothing, and it leaves alone what the pipeline waits for. -/
theorem drainUpTo_frame (fuel : Nat) (p : Pipeline σ) :
    (drainUpTo fuel p).2.1.awaiting = p.awaiting ∧
      ∀ s : Subscription, (drainUpTo fuel p).2.2.foldl Subscription.observe s = s := by
  fun_induction drainUpTo fuel p with
  | case1 p => exact ⟨rfl, fun _ => rfl⟩
  | case2 fuel p hstopped => exact ⟨rfl, fun _ => rfl⟩
  | case3 fuel p hgoes fault source hnext => exact ⟨rfl, fun _ => rfl⟩
  | case4 fuel p hgoes source hnext => exact ⟨rfl, fun _ => rfl⟩
  | case5 fuel p hgoes token source hnext cause builder hpush => exact ⟨rfl, fun _ => rfl⟩
  | case6 fuel p hgoes token source hnext builder hpush ih => exact ih
  | case7 fuel p hgoes token source hnext builder hpush ih => exact ih
  | case8 fuel p hgoes token source hnext v builder hpush q events hoffer error q' later hlater
      ih =>
    obtain ⟨rfl, rfl⟩ := Prod.mk.inj hoffer
    rw [hlater] at ih
    refine ⟨ih.1, fun s => ?_⟩
    rw [List.foldl_append, observe_deliver]
    exact ih.2 s

/-- A pipeline that settles without coming to its end asks for a chunk exactly where it begins to
wait for one. -/
theorem observe_settle {p : Pipeline σ} (h : p.settle.1.isTerminal = false) (s : Subscription) :
    p.settle.2.foldl Subscription.observe s =
      if p.settle.1.awaiting && !p.awaiting then s.observe (.askChunks 1) else s := by
  obtain ⟨-, hsettles⟩ := settles_settle h
  generalize p.settle = r at hsettles ⊢
  cases hsettles with
  | holding => cases p.awaiting <;> rfl
  | awaiting free awaits => simp [awaits]
  | asking free unawaited => simp [unawaited]
  | idle free unawaited => simp [unawaited]

theorem observe_advance {p : Pipeline σ} (h : p.advance.1.isTerminal = false) (s : Subscription) :
    p.advance.2.foldl Subscription.observe s =
      if p.advance.1.awaiting && !p.awaiting then s.observe (.askChunks 1) else s := by
  have hframe : p.drain.2.1.awaiting = p.awaiting ∧
      ∀ s : Subscription, p.drain.2.2.foldl Subscription.observe s = s := drainUpTo_frame ..
  rcases hdrain : p.drain with ⟨_ | cause, r⟩
  · rw [hdrain] at hframe
    rw [advance_of_drain hdrain] at h ⊢
    rw [andThen_fst] at h ⊢
    rw [andThen_snd, List.foldl_append, hframe.2, observe_settle h, hframe.1]
  · rw [advance_of_drain_error hdrain, andThen_fst, isTerminal_fail] at h
    cases h

/-- A pipeline that waits for a chunk goes on waiting for it, whatever progress it makes. -/
theorem awaiting_settle {p : Pipeline σ} (h : p.settle.1.isTerminal = false)
    (hawaiting : p.awaiting = true) : p.settle.1.awaiting = true := by
  obtain ⟨-, hsettles⟩ := settles_settle h
  generalize p.settle = r at hsettles ⊢
  cases hsettles with
  | holding => exact hawaiting
  | awaiting => exact hawaiting
  | asking => rfl
  | idle free unawaited => exact absurd hawaiting (Bool.eq_false_iff.mp unawaited)

theorem awaiting_advance {p : Pipeline σ} (h : p.advance.1.isTerminal = false)
    (hawaiting : p.awaiting = true) : p.advance.1.awaiting = true := by
  have hframe : p.drain.2.1.awaiting = p.awaiting := (drainUpTo_frame ..).1
  rcases hdrain : p.drain with ⟨_ | cause, r⟩
  · rw [hdrain] at hframe
    rw [advance_of_drain hdrain, andThen_fst] at h ⊢
    exact awaiting_settle h (hframe.trans hawaiting)
  · rw [advance_of_drain_error hdrain, andThen_fst, isTerminal_fail] at h
    cases h

end Pipeline

namespace Session

variable {σ : Type} [TokenSource σ]

/-- Unless the pipeline is at its end, the supplier was not told to stop, and it has one request
open if the pipeline waits for a chunk and none otherwise. -/
def Paced (s : Session σ) : Prop :=
  s.pipeline.isTerminal = false →
    s.subscription.cancelled = false ∧
      s.subscription.wanted = if s.pipeline.awaiting then 1 else 0

/-- A call that makes all progress leaves the session paced, if the open requests are right for the
pipeline that makes it. -/
theorem paced_call {s : Session σ} {c : Call} {q : Pipeline σ} {events : List Event}
    (react : s.pipeline.react c = Pipeline.andThen (q, events) Pipeline.advance)
    (quiet : ∀ t : Subscription, events.foldl Subscription.observe t = t)
    (cancelled : s.subscription.cancelled = false)
    (wanted : s.subscription.wanted = if q.awaiting then 1 else 0) : (s.call c).Paced := by
  intro hterminal
  have hpipeline : (s.call c).pipeline = q.advance.1 := by simp [call, react, Pipeline.andThen_fst]
  rw [hpipeline] at hterminal ⊢
  have hsubscription : (s.call c).subscription =
      if q.advance.1.awaiting && !q.awaiting then s.subscription.observe (.askChunks 1)
      else s.subscription := by
    simp only [call, react, Pipeline.andThen_snd, List.foldl_append, quiet,
      Pipeline.observe_advance hterminal]
  rw [hsubscription]
  by_cases hawaiting : q.awaiting = true
  · -- the request that is open stays open
    have hstays := Pipeline.awaiting_advance hterminal hawaiting
    simp only [hawaiting, hstays, Bool.not_true, Bool.and_false, Bool.false_eq_true, if_false,
      if_true] at wanted ⊢
    exact ⟨cancelled, wanted⟩
  · have hidle : q.awaiting = false := Bool.eq_false_iff.mpr hawaiting
    rw [hidle, if_neg Bool.false_ne_true] at wanted
    rw [hidle, Bool.not_false, Bool.and_true]
    by_cases hasks : q.advance.1.awaiting = true
    · rw [if_pos hasks, if_pos hasks]
      exact ⟨cancelled, by simp [Subscription.observe, wanted, Demand.add, Demand.unbounded]⟩
    · rw [if_neg hasks, if_neg hasks]
      exact ⟨cancelled, wanted⟩

end Session

end StreamingJson
