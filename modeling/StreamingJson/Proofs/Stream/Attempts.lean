import StreamingJson.Proofs.Stream.Working
import StreamingJson.ValueStream

/-!
# Attempts at a result

An attempt at the next result of a stream of values takes a queued signal, finds the stream at its
end, asks for a value or polls the stream of chunks. This file says what each of these does to a
stream whose session is at work or at its end; all else on polls follows from that.

## Main definitions

- `Supply.isEnd`, `Supply.message?` — whether the chunks are at an end, and whether by a failure
- `ValueStream.Tries` — what an attempt does

## Main statements

- `ValueStream.tries_attempt` — an attempt does one of these
- `ValueStream.attempt_of_terminal` — what an attempt does at the end
-/

namespace StreamingJson

namespace Supply

/-- Whether a stream of chunks is at its end with this. -/
def isEnd : Supply → Bool
  | .failure _ | .ended => true
  | .chunk _ | .pending => false

/-- The message with which a stream of chunks failed. -/
def message? : Supply → Option String
  | .failure message => some message
  | .chunk _ | .pending | .ended => none

end Supply

namespace ValueStream

open Session (Working Comes)

/-- A stream of values with other signals in the inbox. -/
def withInbox (s : ValueStream) (signals : List (Signal Value)) : ValueStream :=
  { s with session := { s.session with inbox := { s.session.inbox with signals } } }

/-- What an attempt at a result does to a stream, given the yield that its session is at work on. -/
inductive Tries (y : Yield Lexer) (s : ValueStream) : Option Poll × ValueStream → Prop where
  /-- The oldest signal is the result. -/
  | returned {signal : Signal Value} {later : List (Signal Value)}
    (inbox : s.session.inbox.signals = signal :: later) :
    Tries y s (some (ofSignal signal), s.withInbox later)
  /-- There are no more results. -/
  | ends (inbox : s.session.inbox.signals = []) (terminal : s.session.pipeline.isTerminal = true) :
    Tries y s (some .ended, s)
  /-- One more value is asked for. -/
  | asked {t : Session Lexer} (inbox : s.session.inbox.signals = [])
    (working : Working y s.session) (sated : s.session.pipeline.demand = 0) (comes : Comes y 1 t) :
    Tries y s (none, { s with session := t })
  /-- The next chunk is not there yet. -/
  | pending (inbox : s.session.inbox.signals = []) (working : Working y s.session)
    (wanting : s.session.pipeline.demand ≠ 0) (supply : s.chunks.poll.1 = .pending) :
    Tries y s (some .pending, { s with chunks := s.chunks.poll.2 })
  /-- The next chunk is passed on. -/
  | took {bytes : List UInt8} {t : Session Lexer}
    (inbox : s.session.inbox.signals = []) (working : Working y s.session)
    (wanting : s.session.pipeline.demand ≠ 0) (supply : s.chunks.poll.1 = .chunk bytes)
    (comes : Comes (y.feed bytes) s.session.pipeline.demand t) :
    Tries y s (none, { chunks := s.chunks.poll.2, session := t })
  /-- The chunks are at an end, and so is the session. -/
  | stopped {signal : Signal Value} {t : Session Lexer}
    (inbox : s.session.inbox.signals = []) (working : Working y s.session)
    (wanting : s.session.pipeline.demand ≠ 0) (supply : s.chunks.poll.1.isEnd = true)
    (closing : y.closing s.chunks.poll.1.message? = some signal) (sent : t.inbox.signals = [signal])
    (terminal : t.pipeline.isTerminal = true) :
    Tries y s (none, { chunks := s.chunks.poll.2, session := t })

variable {y : Yield Lexer} {s : ValueStream}

/-- The stream of chunks is polled where its next chunk is asked for. -/
theorem tries_pull (hinbox : s.session.inbox.signals = [])
    (hworking : Working y s.session) (hne : s.session.pipeline.demand ≠ 0) : Tries y s s.pull := by
  have hverdict : y.verdict false = none := by rw [(hworking.wants hne).1]; rfl
  rcases hpoll : s.chunks.poll with ⟨item, chunks⟩
  have hitem : s.chunks.poll.1 = item := by rw [hpoll]
  have hchunks : s.chunks.poll.2 = chunks := by rw [hpoll]
  unfold pull
  rw [hpoll, ← hchunks]
  cases item with
  | chunk bytes => exact .took hinbox hworking hne hitem (hworking.chunk hinbox hne bytes)
  | pending => exact .pending hinbox hworking hne hitem
  | failure message =>
    obtain ⟨hsent, hterminal⟩ := hworking.supplyFailed hinbox message
    refine .stopped hinbox hworking hne (by rw [hitem]; rfl) ?_ hsent hterminal
    simp only [hitem, Supply.message?, Yield.closing, hverdict]
  | ended =>
    obtain ⟨signal, hclosing, hsent, hterminal⟩ := hworking.supplyEnded hinbox hne
    refine .stopped hinbox hworking hne (by rw [hitem]; rfl) ?_ hsent hterminal
    simp only [hitem, Supply.message?, Yield.closing, hverdict, hclosing]

theorem tries_attempt
    (h : s.session.pipeline.isTerminal = true ∨ Working y s.session) : Tries y s s.attempt := by
  unfold attempt Session.pop
  rcases hinbox : s.session.inbox.signals with _ | ⟨signal, later⟩
  · rcases h with hterminal | hworking
    · simp only [hterminal, if_true]
      exact .ends hinbox hterminal
    · simp only [hworking.running.1, Bool.false_eq_true, if_false]
      by_cases hdemand : s.session.pipeline.demand = 0
      · rw [if_pos hdemand]
        exact .asked hinbox hworking hdemand (hworking.request hinbox hdemand)
      · -- where demand is left a chunk was asked for, so that the end is not feigned
        rw [if_neg hdemand, hworking.wanted_eq_one hdemand, if_neg Nat.one_ne_zero]
        exact tries_pull hinbox hworking hdemand
  · exact .returned hinbox

/-- At the end an attempt gives what waits in the inbox, or the end. -/
theorem attempt_of_terminal (h : s.session.pipeline.isTerminal = true) :
    (∃ signal later, s.session.inbox.signals = signal :: later ∧
        s.attempt = (some (ofSignal signal), s.withInbox later)) ∨
      s.session.inbox.signals = [] ∧ s.attempt = (some .ended, s) := by
  unfold attempt Session.pop
  cases s.session.inbox.signals with
  | nil =>
    rw [if_pos h]
    exact .inr ⟨rfl, rfl⟩
  | cons signal later => exact .inl ⟨signal, later, rfl, rfl⟩

end ValueStream

end StreamingJson
