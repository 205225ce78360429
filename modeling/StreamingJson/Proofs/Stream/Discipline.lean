import Mathlib.Order.Bounds.Defs
import StreamingJson.Proofs.Stream.Results

/-!
# When a stream of values polls its chunks

A stream of values takes a chunk only when it has nothing left to return, so that each result is
returned with the fewest chunks that call for it. It leaves the chunks alone once they are at an end
or the streamed root array is closed, and once it has returned the end it returns nothing else.

## Main definitions

- `ValueStream.pulls` — whether an attempt polls the stream of chunks

## Main statements

- `ValueStream.Tracks.chunks_attempt` — an attempt polls the stream of chunks once or not at all
- `ValueStream.Tracks.isLeast_taken` — results are returned with the fewest chunks
- `ValueStream.after_of_isTerminated`, `ValueStream.Tracks.isTerminated_poll` — the end is final
- `ValueStream.chunks_polled_in_need` — all of this for any number of polls
-/

namespace StreamingJson

namespace Yield

/-- What a yield calls for while more chunks may come is the beginning of all that it calls for. -/
theorem early_isPrefix (y : Yield Lexer) (failure : Option String) :
    y.early <+: y.through failure := by
  unfold early through
  cases hverdict : y.verdict false with
  | some t => simp only [closing_of_verdict hverdict, List.prefix_rfl]
  | none =>
    rw [Option.toList_none, List.append_nil]
    exact List.prefix_append ..

/-- Nothing follows a terminal signal. -/
theorem eq_nil_of_through {y : Yield Lexer} {failure : Option String}
    {sent later : List (Signal Value)} {t : Signal Value}
    (h : y.through failure = sent ++ t :: later) (hterminal : t.isTerminal = true) :
    later = [] := by
  obtain ⟨cause, hclosing⟩ := y.exists_closing failure
  rw [through, hclosing, Option.toList_some] at h
  rcases List.eq_nil_or_concat later with hnil | ⟨front, last, rfl⟩
  · exact hnil
  · -- otherwise it were among the values
    have hsplit : sent ++ t :: front.concat last = (sent ++ t :: front) ++ [last] := by
      simp
    have hvalues := (List.append_inj' (h.trans hsplit) rfl).1
    have hmem : t ∈ y.values.map Signal.next := by
      rw [hvalues]
      exact List.mem_append_right _ List.mem_cons_self
    exact absurd hmem (Signal.not_mem_map_next hterminal _)

end Yield

namespace ValueStream

open ChunkStream (taken)
open Session (Working)

variable {options : Options} {items : List Supply} {answers : List Poll} {s : ValueStream}

/-- Whether the attempt made in this state polls the stream of chunks. -/
def pulls (s : ValueStream) : Bool :=
  s.attempt.2.chunks.polls ≠ s.chunks.polls

/-! ### Polls of the stream of chunks -/

/-- An attempt polls the stream of chunks once, where the session is at work and wants more, or it
leaves it alone. -/
theorem Tracks.chunks_attempt (h : Tracks options items answers s) :
    s.attempt.2.chunks = s.chunks ∨
      s.attempt.2.chunks = s.chunks.poll.2 ∧ s.session.inbox.signals = [] ∧
        ∃ y, Working y s.session ∧ s.session.pipeline.demand ≠ 0 := by
  obtain ⟨y, htries⟩ := h.tries
  generalize s.attempt = r at htries ⊢
  cases htries with
  | returned inbox => exact .inl rfl
  | ends inbox terminal => exact .inl rfl
  | asked inbox working sated comes => exact .inl rfl
  | pending inbox working wanting | took inbox working wanting
  | stopped inbox working wanting => exact .inr ⟨rfl, inbox, y, working, wanting⟩

/-- Each attempt that polls the stream of chunks does so once. -/
theorem Tracks.polls_attempt (h : Tracks options items answers s) :
    s.attempt.2.chunks.polls = s.chunks.polls + [s].countP pulls := by
  rcases h.chunks_attempt with hsame | ⟨hpoll, -⟩
  · have hpulls : s.pulls = false := by simp [pulls, hsame]
    rw [hsame, List.countP_singleton, hpulls]
    rfl
  · have hpulls : s.pulls = true := by simp [pulls, hpoll, ChunkStream.polls_poll]
    rw [hpoll, ChunkStream.polls_poll, List.countP_singleton, hpulls]
    rfl

theorem Tracks.polls_poll (h : Tracks options items answers s) :
    s.poll.2.chunks.polls = s.chunks.polls + s.attempts.countP pulls := by
  unfold ValueStream.poll ValueStream.attempts
  generalize s.chunks.items.length + 3 = fuel
  induction fuel generalizing s with
  | zero => rfl
  | succ fuel ih =>
    have hpolls := h.polls_attempt
    have hnext := h.attempt
    rw [pollUpTo, ValueStream.attemptsUpTo, List.countP_cons]
    rw [List.countP_singleton] at hpolls
    rcases hattempt : s.attempt with ⟨result | result, t⟩
    · rw [hattempt] at hpolls hnext
      have htail := ih ((List.append_nil answers) ▸ hnext)
      dsimp only at hpolls htail ⊢
      omega
    · rw [hattempt] at hpolls
      dsimp only at hpolls ⊢
      rw [List.countP_nil]
      omega

/-- The polls of the stream of chunks are those that attempts make. -/
theorem polls_after (options : Options) (items : List Supply) (n : Nat) :
    ((new options items).after n).chunks.polls = ((new options items).visits n).countP pulls := by
  induction n with
  | zero => rfl
  | succ n ih =>
    rw [after, (tracks_after options items n).polls_poll, visits, List.countP_append, ih]

/-- The stream of chunks is polled only when nothing is left to return or to read. -/
theorem Tracks.of_pulls (h : Tracks options items answers s) (hpulls : s.pulls = true) :
    s.session.inbox.signals = [] ∧ s.session.pipeline.isHolding = false ∧
      s.session.pipeline.source.unread = [] := by
  rcases h.chunks_attempt with hsame | ⟨-, hinbox, y, hworking, hwanting⟩
  · simp [pulls, hsame] at hpulls
  · obtain ⟨-, hread, hfree, -⟩ := hworking.wants hwanting
    exact ⟨hinbox, hfree, hread⟩

/-- After the end of the chunks, and after that of the root array, attempts change nothing but the
inbox. -/
theorem Tracks.attempt_of_ended (h : Tracks options items answers s)
    (hended : (∃ x ∈ ({ items } : ChunkStream).given s.chunks.polls, x.isEnd = true) ∨
      s.session.pipeline.rootClosed = true) :
    s.attempt.2.chunks = s.chunks ∧ s.attempt.2.session.pipeline = s.session.pipeline := by
  have hterminal : s.session.pipeline.isTerminal = true := by
    cases h.stage with
    | ends atEnd => exact atEnd.terminal
    | working atWork =>
      rcases hended with ⟨x, hx, hend⟩ | hroot
      · exact absurd hend (Bool.eq_false_iff.mp (atWork.gave.unended x hx))
      · exact absurd hroot (Bool.eq_false_iff.mp atWork.working.running.2.1)
  rcases attempt_of_terminal hterminal with ⟨signal, later, -, hattempt⟩ | ⟨-, hattempt⟩
  · rw [hattempt]
    exact ⟨rfl, rfl⟩
  · rw [hattempt]
    exact ⟨rfl, rfl⟩

/-! ### Results and the chunks that they take -/

/-- A result is the oldest signal in the inbox, or the end. -/
theorem Tracks.exists_answering (h : Tracks options items answers s)
    (hanswer : s.poll.1.isPending = false) :
    ∃ t, Tracks options items answers t ∧
      ((∃ signal later, t.session.inbox.signals = signal :: later ∧
          s.poll = (ofSignal signal, t.withInbox later)) ∨
        t.session.inbox.signals = [] ∧ t.session.pipeline.isTerminal = true ∧
          s.poll = (.ended, t)) := by
  obtain ⟨t, ht, -, hattempt⟩ := h.exists_last_attempt
  refine ⟨t, ht, ?_⟩
  obtain ⟨y, htries⟩ := ht.tries
  rw [hattempt] at htries
  generalize s.poll = r at htries hanswer ⊢
  obtain ⟨result, next⟩ := r
  cases htries with
  | returned inbox => exact .inl ⟨_, _, inbox, rfl⟩
  | ends inbox terminal => exact .inr ⟨inbox, terminal, rfl⟩
  | pending => cases hanswer

/-- Where a signal waits in the inbox that comes after the results so far, the chunks taken call
for it. -/
theorem Tracks.early_of_inbox (h : Tracks options items answers s) {signal : Signal Value}
    {later : List (Signal Value)} (hinbox : s.session.inbox.signals = signal :: later)
    (hle : answers.length < (Yield.ofChunks options (Supply.chunks items)).early.length) :
    (Yield.ofChunks options ((Supply.chunks items).take
      (taken items s.chunks.polls))).early[answers.length]? = some signal := by
  cases h.stage with
  | @working fed y given queued hwork answered =>
    obtain ⟨v, rest, rfl, hnext⟩ := hwork.returned hinbox
    rw [hwork.gave.count, hwork.gave.chunks, List.take_left, hnext.yield, Yield.early_prepend,
      answered]
    simp
  | @ends sent late hend answered =>
    have hlate : late = 0 := hend.fresh.resolve_right (by simp [hinbox])
    have hlength : answers.length = sent.length := by simp [answered, hlate]
    obtain ⟨more, hmore⟩ := (Yield.ofChunks options (Supply.chunks items)).early_isPrefix
      (Supply.failure? items)
    rw [hend.whole, ← List.getElem?_append_left hle, hmore, hend.signals, hinbox, hlength]
    simp

/-- A result that is called for before the end of the chunks is returned with the fewest chunks that
call for it. -/
theorem Tracks.isLeast_taken (h : Tracks options items answers s)
    (hanswer : s.poll.1.isPending = false)
    (hle : answers.length < (Yield.ofChunks options (Supply.chunks items)).early.length) :
    IsLeast
        {k | answers.length < (Yield.ofChunks options ((Supply.chunks items).take k)).early.length}
        (taken items s.poll.2.chunks.polls) ∧
      ((Yield.ofChunks options ((Supply.chunks items).take
        (taken items s.poll.2.chunks.polls))).early.map ofSignal)[answers.length]? =
          some s.poll.1 := by
  obtain ⟨t, ht, ⟨signal, later, hinbox, hpoll⟩ | ⟨hinbox, hterminal, -⟩⟩ :=
    h.exists_answering hanswer
  · have hsignal := ht.early_of_inbox hinbox hle
    have hpolls : s.poll.2.chunks.polls = t.chunks.polls := by rw [hpoll]; rfl
    have hresult : s.poll.1 = ofSignal signal := by rw [hpoll]
    rw [hpolls, hresult, List.getElem?_map, hsignal]
    -- with fewer chunks all that is called for was returned before
    have hfewest (k : Nat) (hk : answers.length <
        (Yield.ofChunks options ((Supply.chunks items).take k)).early.length) :
        taken items t.chunks.polls ≤ k :=
      Nat.le_of_not_lt fun hless => absurd (ht.due k hless) (Nat.not_le.mpr hk)
    exact ⟨⟨(List.getElem?_eq_some_iff.mp hsignal).1, hfewest⟩, rfl⟩
  · -- at the end nothing is left that the chunks call for
    cases ht.stage with
    | working hwork =>
      exact absurd hterminal (Bool.eq_false_iff.mp hwork.working.running.1)
    | @ends sent late hend answered =>
      have hsent := hend.signals
      rw [hinbox, List.append_nil] at hsent
      have hbegins := ((Yield.ofChunks options (Supply.chunks items)).early_isPrefix
        (Supply.failure? items)).length_le
      rw [hsent] at hbegins
      simp [answered] at hle
      omega

/-! ### The end -/

theorem attempt_of_isTerminated (h : s.isTerminated = true) : s.attempt = (some .ended, s) := by
  obtain ⟨hterminal, hempty⟩ := Bool.and_eq_true_iff.mp h
  rcases attempt_of_terminal hterminal with ⟨signal, later, hinbox, -⟩ | ⟨-, hattempt⟩
  · simp [hinbox] at hempty
  · exact hattempt

/-- A stream of values at its end stays as it is and returns the end. -/
theorem after_of_isTerminated (h : s.isTerminated = true) (m : Nat) :
    s.after m = s ∧ s.results m = List.replicate m .ended := by
  have hpoll : s.poll = (.ended, s) := by
    simp only [poll, pollUpTo, attempt_of_isTerminated h]
  induction m with
  | zero => exact ⟨rfl, rfl⟩
  | succ m ih => rw [after, results, ih.1, ih.2, hpoll, List.replicate_succ']; exact ⟨rfl, rfl⟩

/-- A stream of values that has returned the end is at its end. -/
theorem Tracks.isTerminated_poll (h : Tracks options items answers s)
    (hended : s.poll.1 = .ended) : s.poll.2.isTerminated = true := by
  obtain ⟨t, ht, ⟨signal, later, hinbox, hpoll⟩ | ⟨hinbox, hterminal, hpoll⟩⟩ :=
    h.exists_answering (by rw [hended]; rfl)
  · rw [hpoll] at hended ⊢
    cases ht.stage with
    | working hwork =>
      obtain ⟨v, rest, rfl, -⟩ := hwork.returned hinbox
      cases hended
    | ends hend =>
      have hcomplete : signal.isTerminal = true := by
        cases signal with
        | next v => cases hended
        | complete => rfl
        | error cause => rfl
      obtain rfl := Yield.eq_nil_of_through (hinbox ▸ hend.signals) hcomplete
      exact Bool.and_eq_true_iff.mpr ⟨hend.terminal, rfl⟩
  · rw [hpoll]
    exact Bool.and_eq_true_iff.mpr ⟨hterminal, List.isEmpty_iff.mpr hinbox⟩

/-! ### Any number of polls -/

/-- What holds after any number of polls of a stream of values, and of the next poll. The stream of
chunks is polled only in attempts that find no signal in the inbox, no value held back and no byte
unread. The next result, as long as the chunks before their end call for it, is the next signal of a
run with unbounded demand, and it is returned when the fewest chunks are taken on which such a run
delivers it. Once the stream of chunks has ended or failed, or the streamed root array is closed, it
is not polled any more. A stream of values that is terminated returns the end for ever and stays as
it is, and one that has returned the end is terminated. -/
theorem chunks_polled_in_need (options : Options) (items : List Supply) (n : Nat) :
    let s := (new options items).after n
    let visited := (new options items).visits n
    let answered := ((new options items).answers n).length
    let signals := fun chunks => Event.signals (Pipeline.unboundedRun options chunks).2
    (s.chunks.polls = visited.countP pulls ∧
      ∀ v ∈ visited, v.pulls = true →
        v.session.inbox.signals = [] ∧ v.session.pipeline.isHolding = false ∧
          v.session.pipeline.source.unread = []) ∧
      (s.poll.1.isPending = false → answered < (signals (Supply.chunks items)).length →
        IsLeast {k | answered < (signals ((Supply.chunks items).take k)).length}
            (taken items s.poll.2.chunks.polls) ∧
          ((signals ((Supply.chunks items).take
            (taken items s.poll.2.chunks.polls))).map ofSignal)[answered]? = some s.poll.1) ∧
      (∀ v ∈ visited,
        (∃ x ∈ ({ items } : ChunkStream).given v.chunks.polls, x.isEnd = true) ∨
            v.session.pipeline.rootClosed = true →
          v.attempt.2.chunks = v.chunks ∧
            v.attempt.2.session.pipeline = v.session.pipeline) ∧
      (s.isTerminated = true → ∀ m, s.after m = s ∧ s.results m = List.replicate m .ended) ∧
      (s.poll.1 = .ended → s.poll.2.isTerminated = true) := by
  have htracks := tracks_after options items n
  have hvisits := tracks_visits options items n
  have hearly (chunks : List (List UInt8)) :
      Event.signals (Pipeline.unboundedRun options chunks).2 =
        (Yield.ofChunks options chunks).early := Pipeline.signals_unboundedRun options chunks
  intro s visited answered signals
  refine ⟨⟨polls_after options items n, fun v hv hpulls => ?_⟩, fun hanswer hle => ?_,
    fun v hv hended => ?_, after_of_isTerminated, htracks.isTerminated_poll⟩
  · obtain ⟨answers, hv⟩ := hvisits v hv
    exact hv.of_pulls hpulls
  · simp only [signals, hearly] at hle ⊢
    exact htracks.isLeast_taken hanswer hle
  · obtain ⟨answers, hv⟩ := hvisits v hv
    exact hv.attempt_of_ended hended

/-- Two values that come in one chunk are returned without a poll for the next. -/
example :
    let s := new {} [.chunk [0x5B, 0x5D, 0x5B, 0x5D], .chunk [0x5B]]
    (s.answers 2).length = 2 ∧ (s.after 2).chunks.polls = 1 := by
  decide +kernel

end ValueStream

end StreamingJson
