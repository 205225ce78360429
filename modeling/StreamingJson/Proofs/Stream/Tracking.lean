import StreamingJson.Proofs.Cuts
import StreamingJson.Proofs.Stream.Attempts

/-!
# How far a stream of values is

A stream of values returns results, and the stream of chunks below it gives chunks. What the one has
returned so far and what the other has given so far are tied together: the results are the first
signals that the chunks call for, and a chunk was taken only when all signals of the chunks before
it were returned. Attempts at a result keep this up, one by one.

## Main definitions

- `Supply.chunks`, `Supply.failure?` — the chunks before the end, and the failure that it may be
- `ChunkStream.after`, `ChunkStream.given` — a stream of chunks after its first polls, and what
  these gave
- `ChunkStream.Gave` — a stream of chunks that has given some and is not at its end
- `ValueStream.AtWork`, `ValueStream.AtEnd` — the two stages of a stream of values
- `ValueStream.Tracks` — how far a stream of values is

## Main statements

- `ValueStream.AtWork.took`, `ValueStream.AtWork.stopped` — what chunks and their end do
- `ValueStream.Tracks.attempt` — attempts keep track
-/

namespace StreamingJson

/-! ## Streams of chunks -/

namespace Supply

/-- Whether a chunk is there. -/
def isChunk : Supply → Bool
  | .chunk _ => true
  | .failure _ | .pending | .ended => false

/-- The chunks before the end. -/
def chunks : List Supply → List (List UInt8)
  | [] | .failure _ :: _ | .ended :: _ => []
  | .chunk bytes :: rest => bytes :: chunks rest
  | .pending :: rest => chunks rest

/-- The message of the failure that the chunks end with, if they do not end in order. -/
def failure? : List Supply → Option String
  | [] | .ended :: _ => none
  | .failure message :: _ => some message
  | .chunk _ :: rest | .pending :: rest => failure? rest

end Supply

namespace ChunkStream

/-- A stream of chunks after so many polls. -/
def after (c : ChunkStream) : Nat → ChunkStream
  | 0 => c
  | n + 1 => (c.after n).poll.2

/-- What so many polls of a stream of chunks give. -/
def given (c : ChunkStream) : Nat → List Supply
  | 0 => []
  | n + 1 => c.given n ++ [(c.after n).poll.1]

variable (c : ChunkStream)

theorem polls_poll : c.poll.2.polls = c.polls + 1 := by
  unfold poll
  split <;> rfl

variable {c}

theorem chunks_of_chunk {bytes : List UInt8} (h : c.poll.1 = .chunk bytes) :
    Supply.chunks c.items = bytes :: Supply.chunks c.poll.2.items := by
  rcases c with ⟨_ | ⟨item, rest⟩, polls⟩
  · cases h
  · obtain rfl : item = .chunk bytes := h
    rfl

theorem chunks_of_pending (h : c.poll.1 = .pending) :
    Supply.chunks c.items = Supply.chunks c.poll.2.items := by
  rcases c with ⟨_ | ⟨item, rest⟩, polls⟩
  · cases h
  · obtain rfl : item = .pending := h
    rfl

theorem failure?_of_not_isEnd (h : c.poll.1.isEnd = false) :
    Supply.failure? c.items = Supply.failure? c.poll.2.items := by
  rcases c with ⟨_ | ⟨item, rest⟩, polls⟩
  · cases h
  · cases item with
    | chunk bytes | pending => rfl
    | failure message | ended => cases h

theorem chunks_of_isEnd (h : c.poll.1.isEnd = true) :
    Supply.chunks c.items = [] ∧ Supply.failure? c.items = c.poll.1.message? ∧
      c.poll.1.isChunk = false := by
  rcases c with ⟨_ | ⟨item, rest⟩, polls⟩
  · exact ⟨rfl, rfl, rfl⟩
  · cases item with
    | chunk bytes | pending => cases h
    | failure message | ended => exact ⟨rfl, rfl, rfl⟩

theorem length_poll (c : ChunkStream) : c.poll.2.items.length = c.items.length - 1 := by
  rcases c with ⟨_ | ⟨item, rest⟩, polls⟩ <;> rfl

/-- Before its end a stream of chunks has items left. -/
theorem length_pos (h : c.poll.1.isEnd = false) : 0 < c.items.length := by
  rcases c with ⟨_ | ⟨item, rest⟩, polls⟩
  · cases h
  · exact Nat.succ_pos _

/-- How many chunks so many polls of a stream that gives the items take from it. -/
def taken (items : List Supply) (polls : Nat) : Nat :=
  (({ items } : ChunkStream).given polls).countP Supply.isChunk

/-- A stream of chunks that was made of the items, has given the chunks `fed` and is not at its
end. -/
structure Gave (items : List Supply) (fed : List (List UInt8)) (c : ChunkStream) : Prop where
  place : c = ({ items } : ChunkStream).after c.polls
  chunks : Supply.chunks items = fed ++ Supply.chunks c.items
  failure : Supply.failure? items = Supply.failure? c.items
  count : taken items c.polls = fed.length
  unended : ∀ x ∈ ({ items } : ChunkStream).given c.polls, x.isEnd = false

namespace Gave

variable {items : List Supply} {fed : List (List UInt8)} (h : Gave items fed c)
include h

theorem given_poll : ({ items } : ChunkStream).given c.poll.2.polls =
    ({ items } : ChunkStream).given c.polls ++ [c.poll.1] := by
  rw [polls_poll, given, ← h.place]

theorem taken_poll :
    taken items c.poll.2.polls = fed.length + [c.poll.1].countP Supply.isChunk := by
  rw [taken, h.given_poll, List.countP_append, ← h.count]
  rfl

theorem place_poll : c.poll.2 = ({ items } : ChunkStream).after c.poll.2.polls := by
  rw [polls_poll, after, ← h.place]

theorem unended_poll (hitem : c.poll.1.isEnd = false) :
    ∀ x ∈ ({ items } : ChunkStream).given c.poll.2.polls, x.isEnd = false := by
  rw [h.given_poll]
  exact List.forall_mem_append.mpr ⟨h.unended, List.forall_mem_singleton.mpr hitem⟩

/-- The next chunk is not there yet. -/
theorem pending (hitem : c.poll.1 = .pending) : Gave items fed c.poll.2 where
  place := h.place_poll
  chunks := h.chunks.trans (by rw [chunks_of_pending hitem])
  failure := h.failure.trans (failure?_of_not_isEnd (by rw [hitem]; rfl))
  count := h.taken_poll.trans (by rw [hitem]; rfl)
  unended := h.unended_poll (by rw [hitem]; rfl)

/-- The next chunk is there. -/
theorem chunk {bytes : List UInt8} (hitem : c.poll.1 = .chunk bytes) :
    Gave items (fed ++ [bytes]) c.poll.2 where
  place := h.place_poll
  chunks := by
    rw [h.chunks, chunks_of_chunk hitem, List.append_assoc, List.singleton_append]
  failure := h.failure.trans (failure?_of_not_isEnd (by rw [hitem]; rfl))
  count := by
    rw [h.taken_poll, hitem, List.length_append]
    rfl
  unended := h.unended_poll (by rw [hitem]; rfl)

/-- There are no more chunks. -/
theorem ended (hitem : c.poll.1.isEnd = true) :
    Supply.chunks items = fed ∧ Supply.failure? items = c.poll.1.message? ∧
      taken items c.poll.2.polls = fed.length := by
  obtain ⟨hnone, hfailure, hnoChunk⟩ := chunks_of_isEnd hitem
  refine ⟨?_, h.failure.trans hfailure, ?_⟩
  · rw [h.chunks, hnone, List.append_nil]
  · rw [h.taken_poll, List.countP_singleton, hnoChunk]
    rfl

end Gave

end ChunkStream

/-! ## Streams of values -/

/-- Whether a result is that there is none yet. -/
def Poll.isPending : Poll → Bool
  | .pending => true
  | .item _ | .ended => false

/-- The results that are not pending. -/
def Poll.answers (results : List Poll) : List Poll :=
  results.filter (!·.isPending)

theorem Poll.answers_append (rs ts : List Poll) :
    Poll.answers (rs ++ ts) = Poll.answers rs ++ Poll.answers ts :=
  List.filter_append ..

namespace ValueStream

theorem ofSignal_answers (signal : Signal Value) :
    Poll.answers [ofSignal signal] = [ofSignal signal] := by
  cases signal <;> rfl

end ValueStream

/-! ## How far a stream of values is -/

/-- All signals that a yield calls for, the end or failure of the supply included. -/
def Yield.through (y : Yield Lexer) (failure : Option String) : List (Signal Value) :=
  y.values.map .next ++ (y.closing failure).toList

namespace ValueStream

open ChunkStream (taken)
open Session (Working Comes)

/-- A stream of values at work: of what the chunks taken so far yield some values were returned,
some wait in the inbox, and the rest is still to be delivered. -/
structure AtWork (options : Options) (items : List Supply) (fed : List (List UInt8))
    (y : Yield Lexer) (given queued : List Value) (s : ValueStream) : Prop where
  gave : ChunkStream.Gave items fed s.chunks
  yield : Yield.ofChunks options fed = y.prepend (given ++ queued)
  inbox : s.session.inbox.signals = queued.map .next
  working : Working y s.session

/-- A stream of values at its end: of all signals some were returned, and the others wait in the
inbox. When these are returned too, the end may be returned again any number of times. -/
structure AtEnd (options : Options) (items : List Supply) (sent : List (Signal Value)) (late : Nat)
    (s : ValueStream) : Prop where
  terminal : s.session.pipeline.isTerminal = true
  whole : Yield.ofChunks options ((Supply.chunks items).take (taken items s.chunks.polls)) =
    Yield.ofChunks options (Supply.chunks items)
  signals : (Yield.ofChunks options (Supply.chunks items)).through (Supply.failure? items) =
    sent ++ s.session.inbox.signals
  fresh : late = 0 ∨ s.session.inbox.signals = []

/-- The two stages of a stream of values made of the items, with what was returned so far. -/
inductive Stage (options : Options) (items : List Supply) (answers : List Poll) (s : ValueStream) :
    Prop where
  | working {fed : List (List UInt8)} {y : Yield Lexer} {given queued : List Value}
    (atWork : AtWork options items fed y given queued s)
    (answered : answers = (given.map .next).map ofSignal)
  | ends {sent : List (Signal Value)} {late : Nat} (atEnd : AtEnd options items sent late s)
    (answered : answers = sent.map ofSignal ++ List.replicate late .ended)

/-- How far a stream of values made of the items is, with what was returned so far. -/
structure Tracks (options : Options) (items : List Supply) (answers : List Poll) (s : ValueStream) :
    Prop where
  /-- The last chunk was not taken before all signals that the chunks before it call for were
  returned. -/
  due : ∀ k < taken items s.chunks.polls,
    (Yield.ofChunks options ((Supply.chunks items).take k)).early.length ≤ answers.length
  stage : Stage options items answers s

variable {options : Options} {items : List Supply} {answers : List Poll} {s : ValueStream}

/-- A stream whose session has just made all the progress it can is at work or at its end. -/
theorem stage_of_comes {fed : List (List UInt8)} {y : Yield Lexer} {given : List Value}
    {demand : Nat} (gave : ChunkStream.Gave items fed s.chunks)
    (yield : Yield.ofChunks options fed = y.prepend given)
    (answered : answers = (given.map .next).map ofSignal) (comes : Comes y demand s.session) :
    Stage options items answers s := by
  cases comes with
  | @goes queued rest values inbox left working =>
    have hyield : Yield.ofChunks options fed =
        Yield.prepend (given ++ queued) ⟨rest, y.ending⟩ := by
      rw [yield, Yield.prepend, Yield.prepend, values, List.append_assoc]
    exact .working ⟨gave, hyield, inbox, working⟩ answered
  | @ends t verdict inbox terminal =>
    -- the yield is at its end, so that the chunks to come do not matter
    have hwhole : Yield.ofChunks options (Supply.chunks items) = y.prepend given := by
      rw [gave.chunks, Yield.ofChunks_append, yield]
      exact Yield.foldl_feed_of_verdict (y := y.prepend given) verdict _
    have hclosing := Yield.closing_of_verdict (y := y.prepend given) verdict (Supply.failure? items)
    have hend : AtEnd options items (given.map .next) 0 s := by
      refine ⟨terminal, ?_, ?_, .inl rfl⟩
      · rw [hwhole, gave.chunks, gave.count, List.take_left, yield]
      · rw [hwhole, Yield.through, hclosing, inbox]
        simp [Yield.prepend]
    exact .ends hend (by rw [answered, List.replicate_zero, List.append_nil])

namespace AtWork

variable {fed : List (List UInt8)} {y : Yield Lexer} {given queued : List Value}
  (h : AtWork options items fed y given queued s)
include h

theorem queued_eq_nil (hinbox : s.session.inbox.signals = []) : queued = [] :=
  List.map_eq_nil_iff.mp (h.inbox.symm.trans hinbox)

/-- The oldest of the values that wait is returned. -/
theorem returned {signal : Signal Value} {later : List (Signal Value)}
    (hinbox : s.session.inbox.signals = signal :: later) :
    ∃ v rest, signal = .next v ∧
      AtWork options items fed y (given ++ [v]) rest (s.withInbox later) := by
  obtain ⟨v, rest, rfl⟩ : ∃ v rest, queued = v :: rest :=
    List.exists_cons_of_ne_nil fun hnil => by simp [h.inbox, hnil] at hinbox
  obtain ⟨rfl, rfl⟩ := List.cons.inj (h.inbox.symm.trans hinbox)
  refine ⟨v, rest, rfl, h.gave, ?_, rfl,
    ⟨h.working.conforms, h.working.bounded, h.working.paced⟩⟩
  rw [h.yield, List.append_assoc, List.singleton_append]

/-- All that the chunks taken so far have left is still to be delivered where nothing waits. -/
theorem yield_eq (hinbox : s.session.inbox.signals = []) :
    Yield.ofChunks options fed = y.prepend given := by
  rw [h.yield, h.queued_eq_nil hinbox, List.append_nil]

/-- A chunk is taken. -/
theorem took (hinbox : s.session.inbox.signals = []) {bytes : List UInt8}
    (hitem : s.chunks.poll.1 = .chunk bytes) {demand : Nat} {t : Session Lexer}
    (hcomes : Comes (y.feed bytes) demand t) :
    Stage options items ((given.map .next).map ofSignal) ⟨s.chunks.poll.2, t⟩ := by
  have hyield : Yield.ofChunks options (fed ++ [bytes]) = (y.feed bytes).prepend given := by
    rw [Yield.ofChunks_append, h.yield_eq hinbox, List.foldl_cons, List.foldl_nil,
      Yield.feed_prepend]
  exact stage_of_comes (h.gave.chunk hitem) hyield rfl hcomes

/-- A chunk is asked for only when nothing is left of those before it. -/
theorem early_eq (hinbox : s.session.inbox.signals = [])
    (hwanting : s.session.pipeline.demand ≠ 0) :
    (Yield.ofChunks options ((Supply.chunks items).take fed.length)).early = given.map .next := by
  rw [h.gave.chunks, List.take_left, h.yield_eq hinbox, Yield.early_prepend,
    (h.working.wants hwanting).1, Yield.early_dry, List.append_nil]

/-- The chunks are at an end. -/
theorem stopped (hinbox : s.session.inbox.signals = []) (hwanting : s.session.pipeline.demand ≠ 0)
    (hitem : s.chunks.poll.1.isEnd = true) {signal : Signal Value} {t : Session Lexer}
    (hclosing : y.closing s.chunks.poll.1.message? = some signal)
    (hsent : t.inbox.signals = [signal]) (hterminal : t.pipeline.isTerminal = true) :
    AtEnd options items (given.map .next) 0 ⟨s.chunks.poll.2, t⟩ := by
  obtain ⟨hall, hfailure, hcount⟩ := h.gave.ended hitem
  have hsignal : (y.prepend given).closing (Supply.failure? items) = some signal := by
    rw [hfailure]
    exact hclosing
  refine ⟨hterminal, ?_, ?_, .inl rfl⟩
  · rw [hcount, hall, List.take_length]
  · rw [hall, h.yield_eq hinbox, Yield.through, hsignal, hsent, (h.working.wants hwanting).1]
    simp [Yield.prepend]

end AtWork

/-! ### Attempts -/

/-- Attempts at the end return what is left, and then the end. -/
theorem AtEnd.attempt {sent : List (Signal Value)} {late : Nat}
    (h : AtEnd options items sent late s) :
    s.attempt.2.chunks = s.chunks ∧
      Stage options items (sent.map ofSignal ++ List.replicate late .ended ++
        Poll.answers s.attempt.1.toList) s.attempt.2 := by
  rcases attempt_of_terminal h.terminal with ⟨signal, later, inbox, hattempt⟩ | ⟨inbox, hattempt⟩
  · have hlate : late = 0 := h.fresh.resolve_right (by simp [inbox])
    have hsignals : (Yield.ofChunks options (Supply.chunks items)).through
        (Supply.failure? items) = (sent ++ [signal]) ++ later := by
      rw [h.signals, inbox, List.append_assoc, List.singleton_append]
    have hend : AtEnd options items (sent ++ [signal]) 0 (s.withInbox later) :=
      ⟨h.terminal, h.whole, hsignals, .inl rfl⟩
    rw [hattempt]
    refine ⟨rfl, .ends hend ?_⟩
    rw [Option.toList_some, ofSignal_answers, hlate]
    simp
  · have hend : AtEnd options items sent (late + 1) s :=
      ⟨h.terminal, h.whole, h.signals, .inr inbox⟩
    rw [hattempt]
    refine ⟨rfl, .ends hend ?_⟩
    rw [List.append_assoc, List.replicate_succ']
    rfl

/-- Attempts keep track. -/
theorem Tracks.attempt (h : Tracks options items answers s) :
    Tracks options items (answers ++ Poll.answers s.attempt.1.toList) s.attempt.2 := by
  obtain ⟨hdue, hstage⟩ := h
  have hlater (more : List Poll) : ∀ k < taken items s.chunks.polls,
      (Yield.ofChunks options ((Supply.chunks items).take k)).early.length ≤
        (answers ++ more).length := fun k hk => by
    rw [List.length_append]
    exact Nat.le_add_right_of_le (hdue k hk)
  cases hstage with
  | ends hend answered =>
    obtain ⟨hsame, hattempt⟩ := hend.attempt
    rw [← answered] at hattempt
    exact ⟨by rw [hsame]; exact hlater _, hattempt⟩
  | @working fed y given queued hwork answered =>
    have htries : Tries y s s.attempt := tries_attempt (.inr hwork.working)
    generalize s.attempt = r at htries ⊢
    have hnothing : answers ++ Poll.answers [] = answers := List.append_nil _
    have hpending : answers ++ Poll.answers [.pending] = answers := List.append_nil _
    cases htries with
    | returned inbox =>
      obtain ⟨v, rest, rfl, hnext⟩ := hwork.returned inbox
      exact ⟨hlater _, .working hnext (by simp [answered, ofSignal_answers])⟩
    | ends inbox terminal =>
      exact absurd terminal (Bool.eq_false_iff.mp hwork.working.running.1)
    | asked inbox _ sated comes =>
      rw [Option.toList_none, hnothing]
      exact ⟨hdue, stage_of_comes hwork.gave (hwork.yield_eq inbox) answered comes⟩
    | pending inbox _ wanting supply =>
      have hgave := hwork.gave.pending supply
      rw [Option.toList_some, hpending]
      refine ⟨fun k hk => hdue k ?_, .working ⟨hgave, hwork.yield, hwork.inbox, hwork.working⟩
        answered⟩
      rwa [hwork.gave.count, ← hgave.count]
    | took inbox _ wanting supply comes =>
      rw [Option.toList_none, hnothing]
      refine ⟨fun k hk => ?_, answered ▸ hwork.took inbox supply comes⟩
      rw [hwork.gave.taken_poll, supply] at hk
      rcases Nat.lt_succ_iff_lt_or_eq.mp hk with hk | rfl
      · exact hdue k (hwork.gave.count ▸ hk)
      · rw [hwork.early_eq inbox wanting, answered]
        exact Nat.le_of_eq (List.length_map ..).symm
    | stopped inbox _ wanting supply closing sent terminal =>
      have hend := hwork.stopped inbox wanting supply closing sent terminal
      rw [Option.toList_none, hnothing]
      refine ⟨fun k hk => hdue k ?_, .ends hend ?_⟩
      · rwa [hwork.gave.count, ← (hwork.gave.ended supply).2.2]
      · rw [answered, List.replicate_zero, List.append_nil]

end ValueStream

end StreamingJson
