import StreamingJson.Proofs.Stream.Tracking

/-!
# Polls, one after the other

A poll makes attempts until one of them comes to a result. The bound on their number is never met,
so that any number of polls keeps track of a stream of values as the attempts do.

## Main definitions

- `ValueStream.after`, `ValueStream.results`, `ValueStream.answers` — a stream of values after its
  first polls, what these returned, and the same without what is pending
- `ValueStream.attempts`, `ValueStream.visits` — the states in which a poll makes its attempts, and
  those of the first polls
- `ValueStream.need` — a bound on the attempts until there is a result

## Main statements

- `ValueStream.Tracks.exists_last_attempt` — a poll comes to a result
- `ValueStream.tracks_after`, `ValueStream.tracks_visits` — any number of polls keeps track
-/

namespace StreamingJson

namespace ValueStream

open Session (Working Comes)

/-- The states in which at most `fuel` attempts at a result are made. -/
def attemptsUpTo : Nat → ValueStream → List ValueStream
  | 0, _ => []
  | fuel + 1, s =>
    s :: match s.attempt with
      | (some _, _) => []
      | (none, s) => attemptsUpTo fuel s

/-- The states in which a poll makes its attempts. -/
def attempts (s : ValueStream) : List ValueStream :=
  attemptsUpTo (s.chunks.items.length + 3) s

/-- A stream of values after so many polls. -/
def after (s : ValueStream) : Nat → ValueStream
  | 0 => s
  | n + 1 => (s.after n).poll.2

/-- What so many polls of a stream of values return. -/
def results (s : ValueStream) : Nat → List Poll
  | 0 => []
  | n + 1 => s.results n ++ [(s.after n).poll.1]

/-- What so many polls of a stream of values return when what is pending is left out. -/
def answers (s : ValueStream) (n : Nat) : List Poll :=
  Poll.answers (s.results n)

/-- The states in which so many polls of a stream of values make their attempts. -/
def visits (s : ValueStream) : Nat → List ValueStream
  | 0 => []
  | n + 1 => s.visits n ++ (s.after n).attempts

variable {options : Options} {items : List Supply} {answers : List Poll} {s : ValueStream}

/-! ### Coming to a result -/

/-- A bound on the attempts until there is a result: one for a signal that waits or the end, else
one for a request, one for each item of the stream of chunks, one for its end and one for the
result. -/
def need (s : ValueStream) : Nat :=
  if s.session.inbox.signals ≠ [] ∨ s.session.pipeline.isTerminal then 1
  else s.chunks.items.length + 2 + if s.session.pipeline.demand = 0 then 1 else 0

theorem need_pos (s : ValueStream) : 0 < s.need := by
  unfold need
  split <;> omega

theorem need_le (s : ValueStream) : s.need ≤ s.chunks.items.length + 3 := by
  unfold need
  split
  · omega
  · split <;> omega

/-- A session that made progress under a demand has a signal to give, or still has the demand. -/
theorem need_of_comes {y : Yield Lexer} {demand : Nat} {t : Session Lexer}
    (h : Comes y demand t) (hne : demand ≠ 0) (c : ChunkStream) :
    need ⟨c, t⟩ ≤ c.items.length + 2 := by
  unfold need
  cases h with
  | ends verdict inbox terminal =>
    rw [if_pos (.inr terminal)]
    omega
  | @goes given rest values inbox left working =>
    cases given with
    | cons v vs =>
      rw [if_pos (.inl (by simp [inbox]))]
      omega
    | nil =>
      rw [List.length_nil, Demand.left_zero] at left
      split
      · omega
      · exact Nat.le_of_eq (by rw [left, if_neg hne])

/-- An attempt without a result brings a stream closer to one. -/
theorem need_of_tries {y : Yield Lexer} {t : ValueStream} (h : Tries y s (none, t)) :
    t.need < s.need ∧ t.chunks.items.length ≤ s.chunks.items.length := by
  have hpositive (hinbox : s.session.inbox.signals = []) (hworking : Working y s.session) :
      s.need = s.chunks.items.length + 2 + if s.session.pipeline.demand = 0 then 1 else 0 := by
    rw [need, if_neg (by simp [hinbox, hworking.running.1])]
  cases h with
  | @asked t inbox working sated comes =>
    rw [hpositive inbox working, if_pos sated]
    exact ⟨Nat.lt_succ_of_le (need_of_comes comes Nat.one_ne_zero _), Nat.le_refl _⟩
  | @took bytes t inbox working wanting supply comes =>
    have hlength := s.chunks.length_poll
    have hitems := ChunkStream.length_pos (c := s.chunks) (by rw [supply]; rfl)
    have hneed := need_of_comes comes wanting s.chunks.poll.2
    rw [hpositive inbox working, if_neg wanting]
    refine ⟨by omega, ?_⟩
    show s.chunks.poll.2.items.length ≤ _
    omega
  | @stopped signal t inbox working wanting supply closing sent terminal =>
    have hlength := s.chunks.length_poll
    rw [hpositive inbox working, need, if_pos (.inr terminal)]
    refine ⟨by omega, ?_⟩
    show s.chunks.poll.2.items.length ≤ _
    omega

theorem Tracks.tries (h : Tracks options items answers s) : ∃ y, Tries y s s.attempt := by
  cases h.stage with
  | working atWork => exact ⟨_, tries_attempt (.inr atWork.working)⟩
  | ends atEnd => exact ⟨Yield.ofChunks options [], tries_attempt (.inl atEnd.terminal)⟩

/-- A poll comes to a result before its attempts are used up: the last attempt gives it. -/
theorem Tracks.exists_last_attempt (h : Tracks options items answers s) :
    ∃ t, Tracks options items answers t ∧ t.chunks.items.length ≤ s.chunks.items.length ∧
      t.attempt = (some s.poll.1, s.poll.2) := by
  have hneed := s.need_le
  unfold poll
  generalize s.chunks.items.length + 3 = fuel at hneed
  induction fuel generalizing s with
  | zero => exact absurd s.need_pos (by omega)
  | succ fuel ih =>
    have hnext := h.attempt
    obtain ⟨y, htries⟩ := h.tries
    rcases hattempt : s.attempt with ⟨result | result, t⟩
    · rw [hattempt] at htries hnext
      obtain ⟨hless, hitems⟩ := need_of_tries htries
      rw [Option.toList_none] at hnext
      have htracks : Tracks options items answers t := (List.append_nil answers) ▸ hnext
      obtain ⟨last, hlast, hle, heq⟩ := ih htracks (by omega)
      refine ⟨last, hlast, by omega, ?_⟩
      simp only [pollUpTo, hattempt, heq]
    · refine ⟨s, h, Nat.le_refl _, ?_⟩
      simp only [pollUpTo, hattempt]

/-! ### Keeping track -/

/-- Polls keep track. -/
theorem Tracks.poll (h : Tracks options items answers s) :
    Tracks options items (answers ++ Poll.answers [s.poll.1]) s.poll.2 := by
  obtain ⟨t, ht, -, hattempt⟩ := h.exists_last_attempt
  have hnext := ht.attempt
  rwa [hattempt] at hnext

theorem tracks_new (options : Options) (items : List Supply) :
    Tracks options items [] (new options items) := by
  have hworking : Working (Yield.ofChunks options []) (Session.new options) :=
    ⟨Pipeline.conforms_new options, Nat.zero_le _, fun _ => ⟨rfl, rfl⟩⟩
  have hgave : ChunkStream.Gave items [] (new options items).chunks :=
    ⟨rfl, rfl, rfl, rfl, fun x hx => absurd hx List.not_mem_nil⟩
  have hwork : AtWork options items [] (Yield.ofChunks options []) [] [] (new options items) :=
    ⟨hgave, rfl, rfl, hworking⟩
  exact ⟨fun k hk => absurd hk (Nat.not_lt_zero k), .working hwork rfl⟩

/-- Any number of polls keeps track. -/
theorem tracks_after (options : Options) (items : List Supply) (n : Nat) :
    Tracks options items ((new options items).answers n) ((new options items).after n) := by
  induction n with
  | zero => exact tracks_new options items
  | succ n ih =>
    rw [ValueStream.answers, results, Poll.answers_append]
    exact ih.poll

theorem Tracks.attemptsUpTo (h : Tracks options items answers s) (fuel : Nat) :
    ∀ v ∈ attemptsUpTo fuel s, Tracks options items answers v := by
  induction fuel generalizing s with
  | zero => exact fun v hv => absurd hv List.not_mem_nil
  | succ fuel ih =>
    intro v hv
    have hnext := h.attempt
    rw [ValueStream.attemptsUpTo] at hv
    rcases List.mem_cons.mp hv with rfl | hv
    · exact h
    · rcases hattempt : s.attempt with ⟨result | result, t⟩
      · rw [hattempt] at hv hnext
        exact ih ((List.append_nil answers) ▸ hnext) v hv
      · rw [hattempt] at hv
        exact absurd hv List.not_mem_nil

/-- So do the attempts that the polls make on the way. -/
theorem tracks_visits (options : Options) (items : List Supply) (n : Nat) :
    ∀ v ∈ (new options items).visits n, ∃ answers, Tracks options items answers v := by
  induction n with
  | zero => exact fun v hv => absurd hv List.not_mem_nil
  | succ n ih =>
    intro v hv
    rcases List.mem_append.mp hv with hv | hv
    · exact ih v hv
    · exact ⟨_, (tracks_after options items n).attemptsUpTo _ v hv⟩

end ValueStream

end StreamingJson
