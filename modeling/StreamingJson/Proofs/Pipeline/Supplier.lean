import StreamingJson.Proofs.Pipeline.Serving

/-!
# What the supplier may rely on

Whatever the source and whatever the two sides do, in whichever order, a supplier is asked for one
chunk at a time and for the next one only when the last one came. It is told to stop exactly if the
pipeline came to its end before the supply did, and it is asked for nothing after either end. For
tokenizers that are no token sources see `Pipeline.supplier_of_returns`.

## Main definitions

- `Pipeline.taken`, `Pipeline.supplyEnds` — the chunks a pipeline took, and whether the supply ended
- `Pipeline.Supplied` — what the supplier was asked for and told

## Main statements

- `Pipeline.Supplied.react` — a call keeps that account
- `Pipeline.supplied_run` — it holds of every run
- `Pipeline.supplier_protocol` — what it means for the supplier
-/

namespace StreamingJson

/-- Whether the supplier is asked for chunks. -/
def Event.isAsk : Event → Bool
  | .askChunks _ => true
  | .deliver _ | .stopSupplier => false

namespace Pipeline

section

variable {σ : Type}

/-- The number of chunks that a pipeline awaited and was given. -/
def taken (visits : List (Pipeline σ × Call)) : Nat :=
  visits.countP fun (p, c) => !p.isTerminal && p.awaiting && c.isChunk

/-- Whether the supply ended before the pipeline did. -/
def supplyEnds (visits : List (Pipeline σ × Call)) : Bool :=
  visits.any fun (p, c) => !p.isTerminal && c.endsSupply

/-- What the supplier was asked for and told, and the state that belongs to it. -/
inductive Supplied (taken : Nat) (ended : Bool) : Pipeline σ → List Event → Prop where
  /-- As long as the supply has not ended, one request is open if a chunk is awaited, and none
  otherwise. -/
  | running {p : Pipeline σ} {events : List Event} (serving : p.Serving)
    (supply : p.supplyDone = ended) (unstopped : .stopSupplier ∉ events)
    (singly : ∀ count, .askChunks count ∈ events → count = 1)
    (paced : ended = false →
      events.countP Event.isAsk = taken + if p.awaiting then 1 else 0) :
    Supplied taken ended p events
  /-- The supplier was told to stop unless the supply had ended, and then asked for nothing. -/
  | parted {p : Pipeline σ} {events : List Event} (atEnd : p.AtEnd)
    (stopped : events.count .stopSupplier = if ended then 0 else 1)
    (singly : ∀ count, .askChunks count ∈ events → count = 1)
    (silent : events.Pairwise fun e f => e = .stopSupplier → f.isAsk = false) :
    Supplied taken ended p events

/-! ### Events -/

/-- Events with which a pipeline takes leave of its supplier: it asks for nothing more, and tells
the supplier to stop unless the supply has ended. -/
def IsParting (supplied : Bool) (events : List Event) : Prop :=
  (∀ e ∈ events, e.isAsk = false) ∧ events.count .stopSupplier = if supplied then 0 else 1

theorem isParting_farewell (supplied : Bool) : IsParting supplied (farewell supplied) := by
  cases supplied with
  | true => exact ⟨fun e he => (List.not_mem_nil he).elim, rfl⟩
  | false =>
    refine ⟨fun e he => ?_, rfl⟩
    rw [List.mem_singleton.mp he]
    rfl

theorem not_isAsk_of_mem_deliveries {values : List Value} {e : Event} (h : e ∈ deliveries values) :
    e.isAsk = false ∧ e ≠ .stopSupplier := by
  obtain ⟨v, -, rfl⟩ := List.mem_map.mp h
  exact ⟨rfl, Event.noConfusion⟩

theorem count_stopSupplier_deliveries (values : List Value) :
    (deliveries values).count .stopSupplier = 0 :=
  List.count_eq_zero_of_not_mem fun h => (not_isAsk_of_mem_deliveries h).2 rfl

theorem isParting_ends (supplied : Bool) (given : List Value) (t : Signal Value) :
    IsParting supplied (deliveries given ++ (farewell supplied ++ [.deliver t])) := by
  obtain ⟨hasks, hcount⟩ := isParting_farewell supplied
  constructor
  · intro e he
    rcases List.mem_append.mp he with he | he
    · exact (not_isAsk_of_mem_deliveries he).1
    · rcases List.mem_append.mp he with he | he
      · exact hasks e he
      · rw [List.mem_singleton.mp he]
        rfl
  · rw [List.count_append, List.count_append, count_stopSupplier_deliveries, hcount, Nat.zero_add]
    rfl

theorem stopSupplier_not_mem_waits (given : List Value) (before after : Bool) :
    .stopSupplier ∉ deliveries given ++ asking before after := by
  intro hmem
  rcases List.mem_append.mp hmem with hmem | hmem
  · exact (not_isAsk_of_mem_deliveries hmem).2 rfl
  · revert hmem
    cases before <;> cases after <;> decide

theorem eq_one_of_mem_waits {given : List Value} {before after : Bool} {count : Nat}
    (h : .askChunks count ∈ deliveries given ++ asking before after) : count = 1 := by
  rcases List.mem_append.mp h with hmem | hmem
  · cases (not_isAsk_of_mem_deliveries hmem).1
  · rw [asking] at hmem
    split at hmem
    · exact Event.askChunks.inj (List.mem_singleton.mp hmem)
    · exact (List.not_mem_nil hmem).elim

theorem countP_waits (given : List Value) (before after : Bool) :
    (deliveries given ++ asking before after).countP Event.isAsk =
      if after && !before then 1 else 0 := by
  have hgiven : (deliveries given).countP Event.isAsk = 0 :=
    List.countP_eq_zero.mpr fun e he =>
      Bool.eq_false_iff.mp (not_isAsk_of_mem_deliveries he).1
  rw [List.countP_append, hgiven, Nat.zero_add]
  cases before <;> cases after <;> rfl

/-- Where nobody was told to stop before, nothing is asked for after that. -/
theorem silent_append {es fs : List Event} (unstopped : .stopSupplier ∉ es)
    (silent : ∀ f ∈ fs, f.isAsk = false) :
    (es ++ fs).Pairwise fun e f => e = .stopSupplier → f.isAsk = false := by
  rw [List.pairwise_append]
  refine ⟨?_, ?_, ?_⟩
  · refine List.pairwise_of_forall_mem_list fun e he f _ hstop => ?_
    exact absurd (hstop ▸ he) unstopped
  · exact List.pairwise_of_forall_mem_list fun e _ f hf _ => silent f hf
  · intro e _ f hf _
    exact silent f hf

/-! ### Calls -/

variable {p : Pipeline σ} {total : Nat} {ended : Bool} {events : List Event}

/-- A pipeline that takes leave of its supplier, having asked for chunks one at a time. -/
theorem Supplied.parts {parting : List Event} (h : Supplied total ended p events)
    (hrunning : p.isTerminal = false) {q : Pipeline σ} (atEnd : q.AtEnd) {total' : Nat}
    {ended' : Bool} (hparting : IsParting ended' parting) :
    Supplied total' ended' q (events ++ parting) := by
  cases h with
  | running serving supply unstopped singly paced =>
    refine .parted atEnd ?_ ?_ (silent_append unstopped hparting.1)
    · rw [List.count_append, List.count_eq_zero_of_not_mem unstopped, Nat.zero_add]
      exact hparting.2
    · intro count hmem
      rcases List.mem_append.mp hmem with hmem | hmem
      · exact singly count hmem
      · cases hparting.1 _ hmem
  | parted atEnd => exact absurd atEnd.terminal (Bool.eq_false_iff.mp hrunning)

theorem Supplied.serving (h : Supplied total ended p events) (hrunning : p.isTerminal = false) :
    p.Serving ∧ p.supplyDone = ended := by
  cases h with
  | running serving supply => exact ⟨serving, supply⟩
  | parted atEnd => exact absurd atEnd.terminal (Bool.eq_false_iff.mp hrunning)

theorem Supplied.response {c : Call} {r : Reaction σ} (h : Supplied total ended p events)
    (hrunning : p.isTerminal = false) (hresponse : Response p c r) :
    Supplied (total + if p.awaiting && c.isChunk then 1 else 0) (ended || c.endsSupply) r.1
      (events ++ r.2) := by
  have hsupply := (h.serving hrunning).2
  cases hresponse with
  | cancelled call atEnd phase unasked =>
    refine h.parts hrunning atEnd ?_
    rw [call, hsupply]
    exact (Bool.or_false ended).symm ▸ isParting_farewell ended
  | served progress =>
    rw [hsupply] at progress
    cases progress with
    | ends terminal covers left atEnd phase =>
      exact h.parts hrunning atEnd (isParting_ends _ _ _)
    | @waits q given covers left serving supply keeps =>
      cases h with
      | parted atEnd => exact absurd atEnd.terminal (Bool.eq_false_iff.mp hrunning)
      | running _ _ unstopped singly paced =>
        refine .running serving supply ?_ ?_ ?_
        · intro hmem
          exact (List.mem_append.mp hmem).elim unstopped (stopSupplier_not_mem_waits _ _ _)
        · intro count hmem
          exact (List.mem_append.mp hmem).elim (singly count) eq_one_of_mem_waits
        · intro hended
          obtain ⟨hstill, hgoes⟩ := Bool.or_eq_false_iff.mp hended
          rw [List.countP_append, countP_waits, paced hstill]
          rw [hgoes] at keeps ⊢
          -- a chunk that came settles the request that was open, and a new one may follow
          revert keeps
          cases p.awaiting <;> cases c.isChunk <;> cases q.awaiting <;> simp

/-- Once the supply has ended nothing is asked for any more. -/
theorem Response.unasked {c : Call} {r : Reaction σ} (h : Response p c r)
    (hsupplied : (p.supplyDone || c.endsSupply) = true) : ∀ e ∈ r.2, e.isAsk = false := by
  cases h with
  | cancelled call atEnd phase unasked => exact (isParting_farewell _).1
  | served progress =>
    cases progress with
    | ends terminal covers left atEnd phase => exact (isParting_ends _ _ _).1
    | @waits q given covers left serving supply keeps =>
      have hidle : q.awaiting = false := serving.supplied (supply.trans hsupplied)
      intro e he
      rw [hidle] at he
      exact (List.mem_append.mp he).elim (fun he => (not_isAsk_of_mem_deliveries he).1)
        (fun he => (List.not_mem_nil he).elim)

/-! ### What that account says -/

theorem Supplied.singly (h : Supplied total ended p events) :
    ∀ count, .askChunks count ∈ events → count = 1 := by
  cases h with
  | running serving supply unstopped singly => exact singly
  | parted atEnd stopped singly => exact singly

/-- The requests are those for the chunks that came, and one more if a chunk is awaited. -/
theorem Supplied.paced (h : Supplied total ended p events) (hended : ended = false)
    (hstopped : .stopSupplier ∉ events) :
    events.countP Event.isAsk = total + if p.awaiting then 1 else 0 := by
  cases h with
  | running serving supply unstopped singly paced => exact paced hended
  | parted atEnd stopped =>
    rw [List.count_eq_zero_of_not_mem hstopped, hended] at stopped
    cases stopped

theorem Supplied.silent (h : Supplied total ended p events) :
    events.Pairwise fun e f => e = .stopSupplier → f.isAsk = false := by
  cases h with
  | running serving supply unstopped =>
    have hnothing : ∀ e ∈ ([] : List Event), e.isAsk = false :=
      fun e he => (List.not_mem_nil he).elim
    have hsilent := silent_append unstopped hnothing
    rwa [List.append_nil] at hsilent
  | parted atEnd stopped singly silent => exact silent

theorem Supplied.count_le_one (h : Supplied total ended p events) :
    events.count .stopSupplier ≤ 1 := by
  cases h with
  | running serving supply unstopped =>
    rw [List.count_eq_zero_of_not_mem unstopped]
    exact Nat.zero_le 1
  | parted atEnd stopped =>
    rw [stopped]
    cases ended <;> decide

theorem Supplied.stopped_iff (h : Supplied total ended p events) (hterminal : p.isTerminal = true) :
    .stopSupplier ∈ events ↔ ended = false := by
  cases h with
  | running serving => exact absurd hterminal (Bool.eq_false_iff.mp serving.running)
  | parted atEnd stopped =>
    rw [← List.count_pos_iff, stopped]
    cases ended <;> decide

/-! ### Runs -/

variable [TokenSource σ]

/-- A call keeps the account of what the supplier was asked for and told. -/
theorem Supplied.react (h : Supplied total ended p events) (c : Call) :
    Supplied (total + if !p.isTerminal && p.awaiting && c.isChunk then 1 else 0)
      (ended || (!p.isTerminal && c.endsSupply)) (p.react c).1 (events ++ (p.react c).2) := by
  cases hterminal : p.isTerminal with
  | true =>
    rw [react_of_isTerminal hterminal]
    simpa using h
  | false =>
    rw [Bool.not_false, Bool.true_and, Bool.true_and]
    exact h.response hterminal ((h.serving hterminal).1.response_react c)

theorem Supplied.run (h : Supplied total ended p events) (calls : List Call) :
    Supplied (total + taken (p.visits calls)) (ended || supplyEnds (p.visits calls))
      (p.run calls).1 (events ++ (p.run calls).2) := by
  induction calls generalizing p total ended events with
  | nil =>
    show Supplied total (ended || false) p (events ++ [])
    rwa [Bool.or_false, List.append_nil]
  | cons c cs ih =>
    have hlater := ih (h.react c)
    rw [List.append_assoc, Bool.or_assoc, Nat.add_assoc] at hlater
    have htaken : taken (p.visits (c :: cs)) =
        (if !p.isTerminal && p.awaiting && c.isChunk then 1 else 0) +
          taken ((p.react c).1.visits cs) := by
      rw [visits, taken, List.countP_cons, Nat.add_comm]
      rfl
    rw [htaken]
    exact hlater

theorem supplied_run (source : σ) (options : Options) (calls : List Call) :
    Supplied (taken ((new source options).visits calls))
      (supplyEnds ((new source options).visits calls)) ((new source options).run calls).1
      ((new source options).run calls).2 := by
  have hnew : Supplied 0 false (new source options) [] :=
    .running (serving_new source options) rfl List.not_mem_nil
      (fun _ h => (List.not_mem_nil h).elim) (fun _ => rfl)
  have hrun := hnew.run calls
  rwa [Nat.zero_add, List.nil_append, Bool.false_or] at hrun

/-- Once the supply has ended no later call makes the pipeline ask for anything. -/
theorem Supplied.run_unasked (h : Supplied total ended p events) {c : Call}
    (hended : (ended || c.endsSupply) = true) (calls : List Call) :
    ∀ e ∈ (p.run (c :: calls)).2, e.isAsk = false := by
  induction calls generalizing p total ended events c with
  | nil =>
    cases hterminal : p.isTerminal with
    | true =>
      rw [run_of_isTerminal hterminal]
      exact fun e he => (List.not_mem_nil he).elim
    | false =>
      obtain ⟨hserving, hsupply⟩ := h.serving hterminal
      rw [run_singleton]
      exact (hserving.response_react c).unasked (hsupply ▸ hended)
  | cons d ds ih =>
    cases hterminal : p.isTerminal with
    | true =>
      rw [run_of_isTerminal hterminal]
      exact fun e he => (List.not_mem_nil he).elim
    | false =>
      obtain ⟨hserving, hsupply⟩ := h.serving hterminal
      have hlater := h.react c
      rw [hterminal, Bool.not_false, Bool.true_and, Bool.true_and, hended] at hlater
      intro e he
      rcases List.mem_append.mp he with he | he
      · exact (hserving.response_react c).unasked (hsupply ▸ hended) e he
      · exact ih hlater (Bool.true_or _) e he

/-- Whatever the source and whatever the two sides call in whichever order: a supplier is asked for
one chunk at a time; as long as it has neither ended nor been told to stop, one request is open if
the pipeline awaits a chunk, and none otherwise; it is asked for nothing after either; it is told to
stop at most once, and at the end of the pipeline it has been told exactly if the pipeline came to
its end before the supply did. -/
theorem supplier_protocol (source : σ) (options : Options) (calls : List Call) :
    let run := (new source options).run calls
    let visits := (new source options).visits calls
    (∀ count, .askChunks count ∈ run.2 → count = 1) ∧
      (supplyEnds visits = false → .stopSupplier ∉ run.2 →
        run.2.countP Event.isAsk = taken visits + if run.1.awaiting then 1 else 0) ∧
      (∀ c later, c.endsSupply = true → ∀ e ∈ (run.1.run (c :: later)).2, e.isAsk = false) ∧
      (run.2.Pairwise fun e f => e = .stopSupplier → f.isAsk = false) ∧
      run.2.count .stopSupplier ≤ 1 ∧
      (run.1.isTerminal = true → (.stopSupplier ∈ run.2 ↔ supplyEnds visits = false)) := by
  intro run visits
  have hsupplied := supplied_run source options calls
  refine ⟨hsupplied.singly, hsupplied.paced, ?_, hsupplied.silent, hsupplied.count_le_one,
    hsupplied.stopped_iff⟩
  intro c later hends
  exact hsupplied.run_unasked (by rw [hends, Bool.or_true]) later

end

end Pipeline

end StreamingJson
