import StreamingJson.Proofs.Pipeline.Runs
import StreamingJson.Proofs.Stream.Polling

/-!
# The results of a stream of values

Whatever chunks a stream of values is made of, and however often the next one is not there yet, it
returns what a pipeline under unbounded demand delivers: the values in order, then the error if
there is one, and then the end for ever. Parsing gives the same.

## Main definitions

- `Pipeline.suppliedRun` — a run with unbounded demand to the end or failure of the supply
- `Poll.outcome` — values and an error that may follow, as results
- `ValueStream.Gives` — a stream returns certain results, and then the end for ever

## Main statements

- `ValueStream.Tracks.exists_isPrefix` — what was returned so far
- `ValueStream.length_answers` — a poll without an answer takes an item of the stream of chunks
- `ValueStream.Gives.unique` — a stream returns at most one outcome
- `ValueStream.gives_supplied` — it returns what a run with unbounded demand delivers
-/

namespace StreamingJson

/-! ## The run with unbounded demand -/

/-- The terminal signal of a run that ends with an error, or in order. -/
def Signal.last : Option Error → Signal Value
  | none => .complete
  | some cause => .error cause

namespace Yield

theorem exists_closing (y : Yield Lexer) (failure : Option String) :
    ∃ cause, y.closing failure = some (Signal.last cause) := by
  have hlast {t : Signal Value} (ht : t.isTerminal = true) : ∃ cause, t = Signal.last cause := by
    cases t with
    | next v => cases ht
    | complete => exact ⟨none, rfl⟩
    | error cause => exact ⟨some cause, rfl⟩
  obtain ⟨t, ht⟩ := y.exists_verdict
  cases hverdict : y.verdict false with
  | some t =>
    obtain ⟨cause, rfl⟩ := hlast (verdict_isTerminal hverdict)
    exact ⟨cause, closing_of_verdict hverdict failure⟩
  | none =>
    cases failure with
    | none =>
      obtain ⟨cause, rfl⟩ := hlast (verdict_isTerminal ht)
      exact ⟨cause, by simp only [closing, hverdict, ht]⟩
    | some message => exact ⟨some (.supplier message), by simp only [closing, hverdict]; rfl⟩

theorem closing_none (y : Yield Lexer) : y.closing none = y.verdict true := by
  cases hverdict : y.verdict false with
  | some t => rw [closing_of_verdict hverdict, verdict_ended hverdict]
  | none => simp only [closing, hverdict]

end Yield

/-- The call that tells of the end of the supply, or of its failure. -/
def Call.supplyOver : Option String → Call
  | none => .supplyEnded
  | some message => .supplyFailed message

namespace Pipeline

/-- A new pipeline that is asked for everything, given the chunks, and told of the end of the supply
or of its failure. -/
def suppliedRun (options : Options) (chunks : List (List UInt8)) (failure : Option String) :
    Reaction Lexer :=
  andThen (unboundedRun options chunks) fun p => p.react (.supplyOver failure)

theorem signals_suppliedRun (options : Options) (chunks : List (List UInt8))
    (failure : Option String) :
    Event.signals (suppliedRun options chunks failure).2 =
      (Yield.ofChunks options chunks).through failure := by
  cases failure with
  | none =>
    rw [Yield.through, Yield.closing_none]
    exact signals_completedRun options chunks
  | some message =>
    have hconforms := conforms_unboundedRun options chunks
    rw [suppliedRun, andThen_snd, Event.signals_append, signals_unboundedRun, Yield.through,
      Call.supplyOver]
    by_cases hawaiting : (unboundedRun options chunks).1.awaiting = true
    · -- the failure comes while more is to be read
      obtain ⟨hending, -, -, houtlet, -, -, hrunning, -⟩ := hconforms.waiting_of_awaiting hawaiting
      have hverdict : (Yield.ofChunks options chunks).verdict false = none := by
        rw [Yield.verdict, hending]
        rfl
      have hfailure := (failSupply_of_running hrunning (by rw [houtlet]) message).1
      rw [Event.signals, react, hfailure, hverdict, Option.toList_none, List.append_nil]
      simp only [Yield.closing, hverdict]
      rfl
    · obtain ⟨hterminal, t, hverdict⟩ :=
        hconforms.finished_of_not_awaiting (Bool.eq_false_iff.mpr hawaiting)
      rw [react_of_isTerminal hterminal, Yield.closing_of_verdict hverdict, hverdict]
      exact List.append_nil _

end Pipeline

/-! ## What polls return -/

/-- A list that begins as another with copies of an element behind it does so with any number of
copies that reaches far enough. -/
theorem prefix_append_replicate {α : Type} {x : α} {l r : List α} {m n : Nat}
    (h : l <+: r ++ List.replicate m x) (hle : l.length ≤ n) : l <+: r ++ List.replicate n x := by
  have hextend (k : Nat) (hk : k ≤ m + n) :
      r ++ List.replicate k x <+: r ++ List.replicate (m + n) x := by
    refine (List.prefix_append_right_inj r).mpr ⟨List.replicate (m + n - k) x, ?_⟩
    rw [List.replicate_append_replicate, Nat.add_sub_cancel' hk]
  refine List.prefix_of_prefix_length_le (h.trans (hextend m (by omega))) (hextend n (by omega)) ?_
  rw [List.length_append, List.length_replicate]
  omega

/-- Values and the error that follows them, if one does, as results of polls. -/
def Poll.outcome (values : List Value) (cause : Option Error) : List Poll :=
  values.map (fun v => .item (.ok v)) ++ cause.toList.map fun e => .item (.error e)

/-- The value that a poll returns. -/
def Poll.value? : Poll → Option Value
  | .item (.ok v) => some v
  | .item (.error _) | .pending | .ended => none

/-- The error that a poll returns. -/
def Poll.cause? : Poll → Option Error
  | .item (.error cause) => some cause
  | .item (.ok _) | .pending | .ended => none

namespace ValueStream

/-- A stream of values returns the results, and then the end for ever: so far as polls return
anything they return these, and they go on to do so. -/
def Gives (s : ValueStream) (results : List Poll) : Prop :=
  (∀ n, s.answers n <+: results ++ List.replicate n .ended) ∧ ∀ k, ∃ n, k ≤ (s.answers n).length

variable {options : Options} {items : List Supply} {answers : List Poll} {s : ValueStream}

/-! ### The results are the right ones -/

/-- The results so far are among the first signals that the chunks call for. -/
theorem Tracks.exists_isPrefix (h : Tracks options items answers s) :
    ∃ late, answers <+:
      ((Yield.ofChunks options (Supply.chunks items)).through
        (Supply.failure? items)).map ofSignal ++ List.replicate late .ended := by
  cases h.stage with
  | @working fed y given queued hwork answered =>
    refine ⟨0, ?_⟩
    rw [answered, hwork.gave.chunks, Yield.ofChunks_append, hwork.yield, Yield.foldl_feed_prepend,
      Yield.through, Yield.prepend]
    simp only [List.map_append, List.append_assoc]
    exact List.prefix_append _ _
  | @ends sent late hend answered =>
    refine ⟨late, ?_⟩
    rw [answered, hend.signals]
    -- where something waits in the inbox the end was not returned yet
    rcases hend.fresh with hlate | hinbox
    · rw [hlate, List.replicate_zero, List.append_nil, List.append_nil, List.map_append]
      exact List.prefix_append _ _
    · simp only [hinbox, List.append_nil, List.prefix_rfl]

theorem map_ofSignal_through {y : Yield Lexer} {failure : Option String} {cause : Option Error}
    (h : y.closing failure = some (Signal.last cause)) (late : Nat) :
    (y.through failure).map ofSignal ++ List.replicate late .ended <+:
      Poll.outcome y.values cause ++ List.replicate (late + 1) .ended := by
  rw [Yield.through, h]
  cases cause with
  | none => simp [Poll.outcome, Signal.last, ofSignal, Function.comp_def, List.replicate_succ]
  | some cause =>
    simp [Poll.outcome, Signal.last, ofSignal, Function.comp_def, List.replicate_succ']

/-! ### There are enough of them -/

/-- A poll without an answer takes an item of the stream of chunks. -/
theorem Tracks.length_poll (h : Tracks options items answers s) :
    s.poll.2.chunks.items.length + 1 ≤
      s.chunks.items.length + (Poll.answers [s.poll.1]).length := by
  obtain ⟨t, ht, hle, hattempt⟩ := h.exists_last_attempt
  obtain ⟨y, htries⟩ := ht.tries
  rw [hattempt] at htries
  generalize s.poll = r at htries ⊢
  obtain ⟨result, next⟩ := r
  cases htries with
  | @returned signal later inbox =>
    show t.chunks.items.length + 1 ≤ s.chunks.items.length + (Poll.answers [ofSignal signal]).length
    rw [ofSignal_answers]
    exact Nat.succ_le_succ hle
  | ends inbox terminal => exact Nat.succ_le_succ hle
  | pending inbox working wanting supply =>
    have hlength := t.chunks.length_poll
    have hitems := ChunkStream.length_pos (c := t.chunks) (by rw [supply]; rfl)
    show t.chunks.poll.2.items.length + 1 ≤ s.chunks.items.length + 0
    omega

/-- So many polls return as many results as there are polls, but for those that took an item. -/
theorem length_answers (options : Options) (items : List Supply) (n : Nat) :
    n + ((new options items).after n).chunks.items.length ≤
      items.length + ((new options items).answers n).length := by
  induction n with
  | zero => exact Nat.le_of_eq (Nat.add_comm ..)
  | succ n ih =>
    have hpoll := (tracks_after options items n).length_poll
    rw [ValueStream.answers, results, Poll.answers_append, List.length_append]
    rw [ValueStream.answers] at ih
    rw [after]
    omega

theorem length_answers_le (s : ValueStream) (n : Nat) : (s.answers n).length ≤ n := by
  have hresults : (s.results n).length = n := by
    induction n with
    | zero => rfl
    | succ n ih => rw [results, List.length_append, ih, List.length_singleton]
  have hfilter : (s.answers n).length ≤ (s.results n).length := List.length_filter_le ..
  omega

/-! ### There is one outcome -/

/-- An outcome is read off results that reach as far. -/
theorem outcome_of_isPrefix {values : List Value} {cause : Option Error} {results : List Poll}
    {n : Nat} (h : results <+: Poll.outcome values cause ++ List.replicate n .ended)
    (hle : (Poll.outcome values cause).length ≤ results.length) :
    results.filterMap Poll.value? = values ∧ results.filterMap Poll.cause? = cause.toList := by
  obtain ⟨rest, rfl⟩ := List.prefix_of_prefix_length_le (List.prefix_append ..) h hle
  have hrest : ∀ r ∈ rest, r = .ended := fun r hr =>
    List.eq_of_mem_replicate (((List.prefix_append_right_inj _).mp h).subset hr)
  have hvalues : rest.filterMap Poll.value? = [] :=
    List.filterMap_eq_nil_iff.mpr fun r hr => by rw [hrest r hr]; rfl
  have hcauses : rest.filterMap Poll.cause? = [] :=
    List.filterMap_eq_nil_iff.mpr fun r hr => by rw [hrest r hr]; rfl
  rw [List.filterMap_append, List.filterMap_append, hvalues, hcauses, List.append_nil,
    List.append_nil]
  cases cause <;>
    simp [Poll.outcome, Poll.value?, Poll.cause?, List.filterMap_map, Function.comp_def]

/-- A stream returns at most one outcome. -/
theorem Gives.unique {vs ws : List Value} {c d : Option Error} (h : Gives s (Poll.outcome vs c))
    (h' : Gives s (Poll.outcome ws d)) : vs = ws ∧ c = d := by
  obtain ⟨n, hn⟩ := h.2 ((Poll.outcome vs c).length + (Poll.outcome ws d).length)
  obtain ⟨hvs, hc⟩ := outcome_of_isPrefix (h.1 n) (by omega)
  obtain ⟨hws, hd⟩ := outcome_of_isPrefix (h'.1 n) (by omega)
  refine ⟨hvs.symm.trans hws, ?_⟩
  have hlist : c.toList = d.toList := hc.symm.trans hd
  cases c <;> cases d <;> simp_all

/-! ### The outcome -/

theorem gives_outcome (options : Options) (items : List Supply) {cause : Option Error}
    (h : (Yield.ofChunks options (Supply.chunks items)).closing (Supply.failure? items) =
      some (Signal.last cause)) :
    Gives (new options items)
      (Poll.outcome (Yield.ofChunks options (Supply.chunks items)).values cause) := by
  refine ⟨fun n => ?_, fun k => ⟨k + items.length, ?_⟩⟩
  · obtain ⟨late, hbegins⟩ := (tracks_after options items n).exists_isPrefix
    exact prefix_append_replicate (hbegins.trans (map_ofSignal_through h late))
      (length_answers_le _ n)
  · have hlength := length_answers options items (k + items.length)
    omega

/-- Parsing collects the signals of the same run. -/
theorem parse_of_closing {chunks : List (List UInt8)} {cause : Option Error}
    (h : (Yield.ofChunks options chunks).closing none = some (Signal.last cause)) :
    parse options chunks =
      cause.elim (.ok (Yield.ofChunks options chunks).values) Except.error := by
  rw [Yield.closing_none] at h
  rw [parse_eq_outcome, ← Yield.collect_eq_outcome, h, Yield.collect_append]
  cases cause with
  | none => simp [Signal.last, collect, Except.map]
  | some cause => rfl

/-- A stream of values returns what a pipeline under unbounded demand delivers when it is given the
chunks before the end and told of that end: the values in order, then the error if the run ends with
one, and then the end for ever. The supply may be pending any number of times. Where the chunks do
not end with a failure, parsing gives the values exactly if the stream returns these and no error,
and it gives an error exactly if the stream returns that error after some values. -/
theorem gives_supplied (options : Options) (items : List Supply) :
    ∃ values cause,
      Event.signals
          (Pipeline.suppliedRun options (Supply.chunks items) (Supply.failure? items)).2 =
        values.map .next ++ [Signal.last cause] ∧
      Gives (new options items) (Poll.outcome values cause) ∧
      (Supply.failure? items = none →
        (∀ ns, parse options (Supply.chunks items) = .ok ns ↔
          Gives (new options items) (Poll.outcome ns none)) ∧
        ∀ e, parse options (Supply.chunks items) = .error e ↔
          ∃ ns, Gives (new options items) (Poll.outcome ns (some e))) := by
  obtain ⟨cause, hclosing⟩ :=
    (Yield.ofChunks options (Supply.chunks items)).exists_closing (Supply.failure? items)
  have hgives := gives_outcome options items hclosing
  refine ⟨_, cause, ?_, hgives, fun hfailure => ?_⟩
  · rw [Pipeline.signals_suppliedRun, Yield.through, hclosing]
    rfl
  rw [hfailure] at hclosing
  cases cause with
  | none =>
    rw [parse_of_closing hclosing, Option.elim]
    refine ⟨fun ns => ?_, fun e => ?_⟩
    · constructor
      · intro h
        obtain rfl := Except.ok.inj h
        exact hgives
      · intro h
        rw [(hgives.unique h).1]
    · constructor
      · intro h
        cases h
      · rintro ⟨ns, h⟩
        cases (hgives.unique h).2
  | some cause =>
    rw [parse_of_closing hclosing, Option.elim]
    refine ⟨fun ns => ?_, fun e => ?_⟩
    · constructor
      · intro h
        cases h
      · intro h
        cases (hgives.unique h).2
    · constructor
      · intro h
        obtain rfl := Except.error.inj h
        exact ⟨_, hgives⟩
      · rintro ⟨ns, h⟩
        cases (hgives.unique h).2
        rfl

/-- A value, a chunk that is late, and a value that is left incomplete. -/
example :
    (new {} [.chunk [0x5B, 0x5D], .pending, .chunk [0x5B]]).results 4 =
      [.item (.ok (.array [])), .pending, .item (.error (.truncated { line := 1, column := 2 })),
        .ended] := by
  cbv

end ValueStream

end StreamingJson
