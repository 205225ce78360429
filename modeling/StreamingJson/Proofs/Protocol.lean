import StreamingJson.Proofs.ErrorPlaces
import StreamingJson.Proofs.Pipeline.Violations
import StreamingJson.Proofs.Stream.Results

/-!
# The protocol is kept

The flag for an awaited chunk in a pipeline, the open requests that its driver counts, and the bytes
that the lexer has left to read are three accounts of one fact. They never disagree: parsing and
streams of values violate the protocol nowhere, parsing stops giving chunks only at the end of its
pipeline, and a stream of values never has to feign the end of its text.

## Main definitions

- `Session.Exhausted` — a session whose driver has no chunk to give

## Main statements

- `Session.exhausted_call` — at its end a pipeline leaves no request to take up
- `Session.exhausted_supplyAll` — giving chunks as long as they are asked for leads to that end
- `ValueStream.Tracks.wanted_eq`, `ValueStream.Tracks.wanted_ne_zero` — the accounts of a stream
  agree
- `protocol_kept` — violations are unreachable
-/

namespace StreamingJson

/-! ## Parsing -/

/-- The errors that have a place are those of the text. -/
theorem Error.cases_of_location? {cause : Error} {place : Location}
    (h : cause.location? = some place) :
    (∃ fault, cause = .lexical fault) ∨ (∃ structural place, cause = .malformed structural place) ∨
      ∃ place, cause = .truncated place := by
  cases cause with
  | lexical fault => exact .inl ⟨fault, rfl⟩
  | malformed structural location => exact .inr (.inl ⟨structural, location, rfl⟩)
  | truncated location => exact .inr (.inr ⟨location, rfl⟩)
  | supplier message | protocol violation => cases h

/-- The error that chunks call for has a place. -/
theorem Yield.exists_location {options : Options} {chunks : List (List UInt8)} {cause : Error}
    (h : (ofChunks options chunks).verdict true = some (.error cause)) :
    ∃ place, cause.location? = some place := by
  have hparse : parse options chunks = .error cause := by
    rw [parse_eq_outcome, ← collect_eq_outcome, collect_append, h]
    rfl
  obtain ⟨-, -, q, -, -, -, -, hplace, -⟩ := Pipeline.exists_findsError hparse
  exact ⟨_, hplace⟩

namespace Session

open Pipeline (Conforms Response)

variable {y : Yield Lexer} {s : Session Lexer}

/-- The driver of a session has no chunk to give: none is asked for, or it was told to stop. -/
def Exhausted (s : Session Lexer) : Prop :=
  s.takeRequest.1 = false

theorem exhausted_of_cancelled (h : s.subscription.cancelled = true) : s.Exhausted := by
  simp [Exhausted, takeRequest, Subscription.take, h]

theorem exhausted_of_wanted (h : s.subscription.wanted = 0) : s.Exhausted := by
  simp [Exhausted, takeRequest, Subscription.take, h]

theorem takeRequest_of_exhausted (h : s.Exhausted) : s.takeRequest.2 = s := by
  unfold Exhausted takeRequest Subscription.take at *
  by_cases hnone : (s.subscription.cancelled || s.subscription.wanted = 0) = true
  · rw [if_pos hnone]
  · rw [if_neg hnone] at h
    cases h

theorem observe_deliveries (values : List Value) (t : Subscription) :
    (deliveries values).foldl Subscription.observe t = t := by
  have hmap : deliveries values = (values.map Signal.next).map .deliver :=
    (List.map_map ..).symm
  rw [hmap, Pipeline.observe_deliver]

/-- A call with which a pipeline comes to its end leaves nothing to give: the supplier is told to
stop, unless it has ended, and then no request was open. -/
theorem exhausted_call (hserving : s.pipeline.Serving) (hsupply : s.pipeline.supplyDone = false)
    {c : Call} (hwanted : c.endsSupply = true → s.subscription.wanted = 0)
    (hterminal : (s.call c).pipeline.isTerminal = true) : (s.call c).Exhausted := by
  have hresponse := hserving.response_react c
  rw [call] at hterminal ⊢
  generalize s.pipeline.react c = r at hresponse hterminal ⊢
  cases hresponse with
  | cancelled call atEnd phase unasked =>
    rw [hsupply]
    exact exhausted_of_cancelled rfl
  | served progress =>
    rw [hsupply, Bool.false_or] at progress
    cases progress with
    | waits covers left serving => exact absurd hterminal (Bool.eq_false_iff.mp serving.running)
    | @ends q given t terminal covers left atEnd phase =>
      cases hends : c.endsSupply with
      | true =>
        refine exhausted_of_wanted ?_
        dsimp only
        rw [List.foldl_append, observe_deliveries]
        exact hwanted hends
      | false =>
        refine exhausted_of_cancelled ?_
        dsimp only
        rw [List.foldl_append, observe_deliveries]
        rfl

theorem serving_of_awaiting {demand : Nat} {p : Pipeline Lexer} {sent : List (Signal Value)}
    (h : Conforms y demand false p sent) (hle : demand ≤ Demand.unbounded)
    (hawaiting : p.awaiting = true) : p.Serving ∧ p.supplyDone = false := by
  obtain ⟨-, -, -, outlet, supply, rootOpen, running, -⟩ := h.waiting_of_awaiting hawaiting
  have hempty : p.isHolding = false := by rw [Pipeline.isHolding, Outlet.isBlocked, outlet]; rfl
  have hdemand : p.demand ≤ Demand.unbounded := by
    rw [Pipeline.demand, outlet]
    exact Demand.left_le hle _
  have hfree {q : Prop} : p.isHolding = true → q :=
    fun hholding => absurd hholding (Bool.eq_false_iff.mp hempty)
  refine ⟨⟨⟨by rw [outlet], hdemand, hfree, hfree, fun hdone => ?_⟩, running, rootOpen⟩, supply⟩
  rw [supply] at hdone
  cases hdone

theorem supplyAll_of_exhausted (h : s.Exhausted) (chunks : List (List UInt8)) :
    s.supplyAll chunks = s := by
  cases chunks with
  | nil => rw [supplyAll_nil, h, if_neg Bool.false_ne_true, takeRequest_of_exhausted h]
  | cons chunk rest => rw [supplyAll_cons, h, if_neg Bool.false_ne_true, takeRequest_of_exhausted h]

/-- Under unbounded demand the end of the supply is that of the pipeline. -/
theorem terminal_of_ended {p : Pipeline Lexer} {sent : List (Signal Value)}
    (h : Conforms y Demand.unbounded true p sent) : p.isTerminal = true := by
  cases h with
  | holding values met bounded => exact absurd rfl bounded
  | finished verdict covers outlet phase => exact Conforms.terminal_of_verdict phase
  | waiting ending read covers outlet phase awaiting supply unended => cases unended

/-- Chunks are given as long as they are asked for, and then the end, until the pipeline comes to
its own end. Then none is asked for. -/
theorem exhausted_supplyAll
    (h : Conforms y Demand.unbounded false s.pipeline s.inbox.signals) (hpaced : s.Paced)
    (hends : s.pipeline.isTerminal = true → s.Exhausted) (chunks : List (List UInt8)) :
    (s.supplyAll chunks).pipeline.isTerminal = true ∧ (s.supplyAll chunks).Exhausted := by
  induction chunks generalizing y s with
  | nil =>
    by_cases hawaiting : s.pipeline.awaiting = true
    · obtain ⟨hserving, hsupply⟩ := serving_of_awaiting h (Nat.le_refl _) hawaiting
      have hterminal : (s.takeRequest.2.call .supplyEnded).pipeline.isTerminal = true :=
        terminal_of_ended (h.endSupply (Nat.le_refl _))
      have htake := takeRequest_of_awaiting hpaced hserving.running hawaiting
      have hwanted : s.takeRequest.2.subscription.wanted = 0 := by rw [htake]
      rw [supplyAll_nil, if_pos (congrArg Prod.fst htake)]
      exact ⟨hterminal, exhausted_call (s := s.takeRequest.2) hserving hsupply (fun _ => hwanted)
        hterminal⟩
    · have hterminal := (h.finished_of_not_awaiting (Bool.eq_false_iff.mpr hawaiting)).1
      rw [supplyAll_of_exhausted (hends hterminal)]
      exact ⟨hterminal, hends hterminal⟩
  | cons chunk rest ih =>
    by_cases hawaiting : s.pipeline.awaiting = true
    · obtain ⟨hserving, hsupply⟩ := serving_of_awaiting h (Nat.le_refl _) hawaiting
      obtain ⟨htaken, hfed, hstays⟩ := supply_chunk h (Nat.le_refl _) hpaced hawaiting chunk
      rw [supplyAll_cons, if_pos htaken]
      exact ih hfed hstays (exhausted_call (s := s.takeRequest.2) hserving hsupply
        (fun hends => Bool.noConfusion hends))
    · have hterminal := (h.finished_of_not_awaiting (Bool.eq_false_iff.mpr hawaiting)).1
      rw [supplyAll_of_exhausted (hends hterminal)]
      exact ⟨hterminal, hends hterminal⟩

/-- The session of a parse when its driver has given what was asked for: it is at its end, and this
is the end that the result tells. -/
theorem supplied_parse (options : Options) (chunks : List (List UInt8)) :
    let s := ((Session.new options).call (.request Demand.unbounded)).supplyAll chunks
    s.pipeline.isTerminal = true ∧ s.Exhausted ∧
      ((∃ values, parse options chunks = .ok values) ↔ s.pipeline.phase = .completed) := by
  intro s
  have hstart := (Pipeline.conforms_new options).request (n := Demand.unbounded) (by decide)
    (.inr rfl)
  have hpaced : ((Session.new options).call (.request Demand.unbounded)).Paced :=
    Session.paced_call (s := Session.new options) rfl (fun _ => rfl) rfl rfl
  obtain ⟨hterminal, hexhausted⟩ := exhausted_supplyAll
    (s := (Session.new options).call (.request Demand.unbounded)) hstart hpaced
    (exhausted_call (s := Session.new options) (Pipeline.serving_new _ _) rfl
      fun hends => Bool.noConfusion hends) chunks
  refine ⟨hterminal, hexhausted, ?_⟩
  obtain ⟨ended, hconforms⟩ := conforms_supplyAll
    (s := (Session.new options).call (.request Demand.unbounded)) hstart hpaced chunks
  obtain ⟨t, hverdict, hphase, -⟩ := hconforms.verdict_of_terminal hterminal
  rw [← Yield.ofChunks_append, List.nil_append] at hverdict
  rw [parse_eq_outcome, ← Yield.collect_eq_outcome, Yield.collect_append, hverdict, hphase]
  cases t with
  | next v => exact ⟨fun _ => rfl, fun _ => ⟨_, rfl⟩⟩
  | complete => exact ⟨fun _ => rfl, fun _ => ⟨_, rfl⟩⟩
  | error cause =>
    refine ⟨?_, fun hcompleted => (by cases hcompleted)⟩
    rintro ⟨values, hvalues⟩
    cases hvalues

end Session

/-! ## Streams of values -/

namespace ValueStream

variable {options : Options} {items : List Supply} {answers : List Poll} {s : ValueStream}

/-- In every attempt before the end one request is open if a chunk is awaited, and none
otherwise. -/
theorem Tracks.wanted_eq (h : Tracks options items answers s)
    (hrunning : s.session.pipeline.isTerminal = false) :
    s.session.subscription.wanted = if s.session.pipeline.awaiting then 1 else 0 := by
  cases h.stage with
  | working atWork => exact (atWork.working.paced hrunning).2
  | ends atEnd => exact absurd atEnd.terminal (Bool.eq_false_iff.mp hrunning)

/-- Where there is demand a chunk was asked for. -/
theorem Tracks.wanted_ne_zero (h : Tracks options items answers s)
    (hrunning : s.session.pipeline.isTerminal = false) (hdemand : s.session.pipeline.demand ≠ 0) :
    s.session.subscription.wanted ≠ 0 := by
  cases h.stage with
  | working atWork =>
    rw [atWork.working.wanted_eq_one hdemand]
    exact Nat.one_ne_zero
  | ends atEnd => exact absurd atEnd.terminal (Bool.eq_false_iff.mp hrunning)

/-- The errors that a stream of values returns are those of the text and failures of the supply. -/
theorem exists_of_mem_results {n : Nat} {cause : Error}
    (h : .item (.error cause) ∈ (new options items).results n) :
    (∃ place, cause.location? = some place) ∨ ∃ message, cause = .supplier message := by
  have hanswer : .item (.error cause) ∈ (new options items).answers n :=
    List.mem_filter.mpr ⟨h, rfl⟩
  obtain ⟨late, hbegins⟩ := (tracks_after options items n).exists_isPrefix
  obtain ⟨signal, hsignal, hresult⟩ := List.mem_map.mp
    ((List.mem_append.mp (hbegins.subset hanswer)).resolve_right fun hlate =>
      Poll.noConfusion (List.eq_of_mem_replicate hlate))
  obtain rfl : signal = .error cause := by
    cases signal with
    | next v | complete => cases hresult
    | error e => rw [Except.error.inj (Poll.item.inj hresult)]
  have hclosing := Option.mem_toList.mp
    ((List.mem_append.mp hsignal).resolve_left (Signal.not_mem_map_next rfl _))
  unfold Yield.closing at hclosing
  split at hclosing
  next t failure hverdict =>
    exact .inl (Yield.exists_location (Yield.verdict_ended (hverdict.trans hclosing)))
  next => exact .inl (Yield.exists_location hclosing)
  next message hverdict hfailure =>
    exact .inr ⟨_, (Signal.error.inj (Option.some.inj hclosing)).symm⟩

end ValueStream

/-! ## All of it -/

/-- Violations of the protocol, and the branches that are there to cope with them, are out of reach.
Whatever the two sides call in whichever order, a pipeline over a lexer never reports that a chunk
was refused, and where each request asks for something and each chunk is awaited it reports no
violation. When parsing has given the chunks, and their end, as long as they are asked for, the
pipeline is at its end and nothing is asked for; the error of a parse is one of the text, and there
is none exactly if the pipeline completed. In no attempt at a result that a stream of values makes
before its end is there demand but no open request: one request is open if a chunk is awaited, and
none otherwise. No result is a violation. -/
theorem protocol_kept (options : Options) :
    (∀ calls : List Call,
        let start := Pipeline.new ({ depthLimit := options.depthLimit } : Lexer) options
        let signals := Event.signals (start.run calls).2
        (∀ refusal, .error (.protocol (.refusedChunk refusal)) ∉ signals) ∧
          ((∀ visit ∈ start.visits calls, visit.1.admits visit.2 = true) →
            ∀ violation, .error (.protocol violation) ∉ signals)) ∧
      (∀ chunks : List (List UInt8),
        let s := ((Session.new options).call (.request Demand.unbounded)).supplyAll chunks
        s.pipeline.isTerminal = true ∧ s.takeRequest.1 = false ∧
          (∀ cause, parse options chunks = .error cause →
            (∃ fault, cause = .lexical fault) ∨ (∃ structural place,
              cause = .malformed structural place) ∨ ∃ place, cause = .truncated place) ∧
          ((∃ values, parse options chunks = .ok values) ↔ s.pipeline.phase = .completed)) ∧
      ∀ (items : List Supply) (n : Nat),
        (∀ v ∈ (ValueStream.new options items).visits n,
          v.session.pipeline.isTerminal = false →
            v.session.subscription.wanted = (if v.session.pipeline.awaiting then 1 else 0) ∧
              (v.session.pipeline.demand ≠ 0 → v.session.subscription.wanted ≠ 0)) ∧
          ∀ violation, .item (.error (.protocol violation)) ∉
            (ValueStream.new options items).results n := by
  refine ⟨fun calls => ?_, fun chunks => ?_, fun items n => ⟨fun v hv hrunning => ?_, ?_⟩⟩
  · intro start signals
    have hrefused (refusal : UnreadInput) :
        .error (.protocol (.refusedChunk refusal)) ∉ signals := by
      intro hmem
      obtain ⟨⟨p, c⟩, hvisit, hrunning, hviolates⟩ := Pipeline.exists_violates hmem
      exact Pipeline.not_refused options hvisit hrunning refusal hviolates
    refine ⟨hrefused, fun hadmits violation hmem => ?_⟩
    obtain ⟨visit, hvisit, -, hviolates⟩ := Pipeline.exists_violates hmem
    obtain ⟨refusal, rfl⟩ := hviolates.exists_refusal (hadmits visit hvisit)
    exact hrefused refusal hmem
  · intro s
    obtain ⟨hterminal, hexhausted, hcompleted⟩ := Session.supplied_parse options chunks
    refine ⟨hterminal, hexhausted, fun cause hcause => ?_, hcompleted⟩
    obtain ⟨-, -, q, -, -, -, -, hplace, -⟩ := Pipeline.exists_findsError hcause
    exact Error.cases_of_location? hplace
  · obtain ⟨answers, htracks⟩ := ValueStream.tracks_visits options items n v hv
    exact ⟨htracks.wanted_eq hrunning, htracks.wanted_ne_zero hrunning⟩
  · intro violation hmem
    rcases ValueStream.exists_of_mem_results hmem with ⟨place, hplace⟩ | ⟨message, hmessage⟩
    · cases hplace
    · cases hmessage

/-- An array in two chunks, each asked for: all calls are admitted. Without the second chunk parsing
fails, and a stream of values makes an attempt with demand before its end. -/
theorem protocol_kept_array_in_two_chunks :
    let start := Pipeline.new ({ depthLimit := ({} : Options).depthLimit } : Lexer) {}
    let calls : List Call := [.request 1, .chunk [0x5B], .chunk [0x5D], .supplyEnded]
    let unfinished : Error := .truncated { line := 1, column := 2 }
    let attempt := (ValueStream.new {} [.chunk [0x5B]]).attempt.2
    ((∀ visit ∈ start.visits calls, visit.1.admits visit.2 = true) ∧
        ∀ violation, .error (.protocol violation) ∉ Event.signals (start.run calls).2) ∧
      (parse {} [[0x5B]] = .error unfinished ∧
        ((∃ fault, unfinished = .lexical fault) ∨
          (∃ structural place, unfinished = .malformed structural place) ∨
            ∃ place, unfinished = .truncated place)) ∧
      attempt ∈ (ValueStream.new {} [.chunk [0x5B]]).visits 1 ∧
      attempt.session.pipeline.isTerminal = false ∧ attempt.session.pipeline.demand ≠ 0 ∧
      attempt.session.subscription.wanted ≠ 0 := by
  intro start calls unfinished attempt
  have hadmits : ∀ visit ∈ start.visits calls, visit.1.admits visit.2 = true := by decide +kernel
  have hparse : parse {} [[0x5B]] = .error unfinished := by decide +kernel
  have hvisit : attempt ∈ (ValueStream.new {} [.chunk [0x5B]]).visits 1 :=
    List.mem_cons_of_mem _ List.mem_cons_self
  have hrunning : attempt.session.pipeline.isTerminal = false := by decide +kernel
  have hdemand : attempt.session.pipeline.demand ≠ 0 := by decide +kernel
  have hkept := protocol_kept {}
  exact ⟨⟨hadmits, (hkept.1 calls).2 hadmits⟩, ⟨hparse, (hkept.2.1 [[0x5B]]).2.2.1 _ hparse⟩,
    hvisit, hrunning, hdemand,
    (((hkept.2.2 [.chunk [0x5B]] 1).1 attempt hvisit hrunning).2 hdemand)⟩

end StreamingJson
