import StreamingJson.Proofs.Pipeline.Consumer
import StreamingJson.Proofs.Pipeline.Supplier

/-!
# Tokenizers without a bound

A tokenizer need not come to an end by itself, since a pipeline stops asking for tokens where demand
ends. With a ration of calls for a token it is a token source, and a ration that is not used up
plays no part in a run. So what consumer and supplier may rely on with every token source they may
rely on with every tokenizer, as long as each drain comes to an end.

## Main definitions

- `Tokenizer` — the operations of a token source without a bound on its tokens
- `Rationed` — a tokenizer that may be called for a token a limited number of times
- `Pipeline.enlarged` — the pipeline with a larger ration
- `Pipeline.Returns` — each drain of a run comes to an end

## Main statements

- `Pipeline.run_enlarged` — a run that leaves some of its ration is the same with a larger one
- `Pipeline.consumer_of_returns`, `Pipeline.supplier_of_returns` — what the two sides may rely on
-/

namespace StreamingJson

/-- The operations of a tokenizer, which may give any number of tokens without a new chunk. -/
structure Tokenizer (σ : Type) where
  feed : σ → List UInt8 → Except UnreadInput σ
  next : σ → Except LexicalFault (Option Token) × σ
  needsInput : σ → Bool
  isMidValue : σ → Bool
  location : σ → Location
  fresh : σ → σ

/-- A state of a tokenizer and the number of times that it may still be called for a token. -/
structure Rationed {σ : Type} (t : Tokenizer σ) where
  state : σ
  ration : Nat

namespace Rationed

variable {σ : Type} {t : Tokenizer σ}

/-- The next token, none if the ration is used up. -/
def next (s : Rationed t) : Except LexicalFault (Option Token) × Rationed t :=
  match s.ration with
  | 0 => (.ok none, s)
  | ration + 1 => ((t.next s.state).1, ⟨(t.next s.state).2, ration⟩)

theorem supply_next_lt (s : Rationed t) (token : Token) (s' : Rationed t)
    (h : s.next = (.ok (some token), s')) : s'.ration < s.ration := by
  rw [next] at h
  split at h
  · cases h
  next ration hration =>
    obtain ⟨-, rfl⟩ := Prod.mk.inj h
    rw [hration]
    exact Nat.lt_succ_self ration

instance : TokenSource (Rationed t) where
  feed s chunk := (t.feed s.state chunk).map fun state => { s with state }
  next := next
  needsInput s := t.needsInput s.state
  isMidValue s := t.isMidValue s.state
  location s := t.location s.state
  fresh s := { s with state := t.fresh s.state }
  supply := ration
  supply_next_lt := supply_next_lt

/-- The same state with a larger ration. -/
def enlarged (s : Rationed t) (extra : Nat) : Rationed t :=
  { s with ration := s.ration + extra }

theorem ration_next_le {s s' : Rationed t} {answer : Except LexicalFault (Option Token)}
    (h : TokenSource.next s = (answer, s')) : s'.ration ≤ s.ration := by
  obtain ⟨state, ration⟩ := s
  obtain ⟨-, rfl⟩ := Prod.mk.inj h.symm
  cases ration with
  | zero => exact Nat.le_refl 0
  | succ ration => exact Nat.le_succ ration

theorem next_enlarged {s : Rationed t} (h : 0 < s.ration) (extra : Nat) :
    TokenSource.next (s.enlarged extra) =
      ((TokenSource.next s).1, (TokenSource.next s).2.enlarged extra) := by
  obtain ⟨state, ration⟩ := s
  cases ration with
  | zero => cases h
  | succ ration =>
    show next ⟨state, ration + 1 + extra⟩ = _
    rw [Nat.add_right_comm]
    rfl

theorem feed_enlarged (s : Rationed t) (chunk : List UInt8) (extra : Nat) :
    TokenSource.feed (s.enlarged extra) chunk =
      (TokenSource.feed s chunk).map (·.enlarged extra) := by
  show (t.feed s.state chunk).map _ = ((t.feed s.state chunk).map _).map _
  cases t.feed s.state chunk <;> rfl

theorem accept_enlarged (s : Rationed t) (chunk : List UInt8) (extra : Nat) :
    TokenSource.accept (s.enlarged extra) chunk =
      (TokenSource.accept s chunk).map (·.enlarged extra) := by
  by_cases hclean : (TokenSource.needsInput s && !TokenSource.isMidValue s) = true
  · have hclean' : (TokenSource.needsInput (s.enlarged extra) &&
        !TokenSource.isMidValue (s.enlarged extra)) = true := hclean
    rw [TokenSource.accept, TokenSource.accept, if_pos hclean, if_pos hclean']
    exact feed_enlarged (TokenSource.fresh s) chunk extra
  · have hclean' : ¬(TokenSource.needsInput (s.enlarged extra) &&
        !TokenSource.isMidValue (s.enlarged extra)) = true := hclean
    rw [TokenSource.accept, TokenSource.accept, if_neg hclean, if_neg hclean']
    exact feed_enlarged s chunk extra

theorem ration_feed {s s' : Rationed t} {chunk : List UInt8}
    (h : TokenSource.feed s chunk = .ok s') : s'.ration = s.ration := by
  have hfeed : (t.feed s.state chunk).map (fun state => { s with state }) = .ok s' := h
  cases hstate : t.feed s.state chunk with
  | error refusal =>
    rw [hstate] at hfeed
    cases hfeed
  | ok state =>
    rw [hstate] at hfeed
    cases hfeed
    rfl

theorem ration_accept {s s' : Rationed t} {chunk : List UInt8}
    (h : TokenSource.accept s chunk = .ok s') : s'.ration = s.ration := by
  rw [TokenSource.accept] at h
  split at h
  · have hration := ration_feed h
    exact hration
  · exact ration_feed h

end Rationed

namespace Pipeline

variable {σ : Type} {t : Tokenizer σ}

/-- The pipeline with a larger ration. -/
def enlarged (p : Pipeline (Rationed t)) (extra : Nat) : Pipeline (Rationed t) :=
  { p with source := p.source.enlarged extra }

/-- The reaction of a pipeline with a larger ration. -/
def enlargedBy (extra : Nat) (r : Reaction (Rationed t)) : Reaction (Rationed t) :=
  (r.1.enlarged extra, r.2)

variable {p : Pipeline (Rationed t)}

/-! ### What is left of a ration -/

theorem ration_fail (p : Pipeline (Rationed t)) (cause : Error) :
    (p.fail cause).1.source.ration = p.source.ration := by
  obtain ⟨source, builder, outlet, phase, awaiting, supplyDone, rootClosed⟩ := p
  cases supplyDone <;> rfl

theorem ration_settle (p : Pipeline (Rationed t)) :
    p.settle.1.source.ration = p.source.ration := by
  rw [settle]
  split
  · rfl
  split
  · rw [releaseSupplier]
    split <;> rfl
  split
  · split
    · exact ration_fail p _
    · rfl
  split
  · rfl
  split <;> rfl

theorem ration_drainUpTo_le (fuel : Nat) (p : Pipeline (Rationed t)) :
    (drainUpTo fuel p).2.1.source.ration ≤ p.source.ration := by
  fun_induction drainUpTo fuel p with
  | case1 p => exact Nat.le_refl _
  | case2 fuel p hstopped => exact Nat.le_refl _
  | case3 fuel p hgoes fault source hnext => exact Rationed.ration_next_le hnext
  | case4 fuel p hgoes source hnext => exact Rationed.ration_next_le hnext
  | case5 fuel p hgoes token source hnext cause builder hpush =>
    exact Rationed.ration_next_le hnext
  | case6 fuel p hgoes token source hnext builder hpush ih =>
    exact Nat.le_trans ih (Rationed.ration_next_le hnext)
  | case7 fuel p hgoes token source hnext builder hpush ih =>
    exact Nat.le_trans ih (Rationed.ration_next_le hnext)
  | case8 fuel p hgoes token source hnext v builder hpush q events hoffer error q' later hlater
      ih =>
    obtain ⟨rfl, rfl⟩ := Prod.mk.inj hoffer
    rw [hlater] at ih
    exact Nat.le_trans ih (Rationed.ration_next_le hnext)

theorem ration_advance (p : Pipeline (Rationed t)) :
    p.advance.1.source.ration = p.drain.2.1.source.ration := by
  rcases hdrain : p.drain with ⟨_ | cause, r⟩
  · rw [advance_of_drain hdrain]
    exact ration_settle r.1
  · rw [advance_of_drain_error hdrain]
    exact ration_fail r.1 cause

theorem ration_intake {c : Call} {r : Reaction (Rationed t)} (h : p.intake c = some r) :
    r.1.source.ration = p.source.ration := by
  cases c with
  | request count =>
    rw [intake] at h
    split at h
    · cases h
    · obtain rfl := Option.some.inj h
      rfl
  | chunk bytes =>
    rw [intake] at h
    split at h
    · split at h
      next => cases h
      next source haccept =>
        obtain rfl := Option.some.inj h
        exact Rationed.ration_accept haccept
    · cases h
  | supplyEnded =>
    obtain rfl := Option.some.inj h
    rfl
  | cancel | supplyFailed message => cases h

theorem ration_react_le (p : Pipeline (Rationed t)) (c : Call) :
    (p.react c).1.source.ration ≤ p.source.ration := by
  by_cases hterminal : p.isTerminal = true
  · have hstill : (p.react c).1 = p := by rw [react_of_isTerminal hterminal]
    exact Nat.le_of_eq (congrArg (·.source.ration) hstill)
  have hreacts := reacts (Bool.eq_false_iff.mpr hterminal) c
  generalize p.react c = r at hreacts
  cases hreacts with
  | @taken _ r hintake =>
    have hadvance : (andThen r advance).1.source.ration ≤ r.1.source.ration := by
      rw [andThen_fst, ration_advance]
      exact ration_drainUpTo_le _ { r.1 with phase := .draining }
    rwa [ration_intake hintake] at hadvance
  | zeroDemand => exact Nat.le_of_eq (ration_fail _ _)
  | unrequested idle bytes => exact Nat.le_of_eq (ration_fail _ _)
  | refused awaits accept => exact Nat.le_of_eq (ration_fail _ _)
  | supplyFailed message => exact Nat.le_of_eq (ration_fail _ _)
  | cancelled =>
    rw [releaseSupplier]
    split <;> exact Nat.le_refl _

theorem ration_run_le (p : Pipeline (Rationed t)) (calls : List Call) :
    (p.run calls).1.source.ration ≤ p.source.ration := by
  induction calls generalizing p with
  | nil => exact Nat.le_refl _
  | cons c cs ih => exact Nat.le_trans (ih (p.react c).1) (ration_react_le p c)

/-! ### Larger rations -/

theorem releaseSupplier_enlarged (p : Pipeline (Rationed t)) (extra : Nat) :
    (p.enlarged extra).releaseSupplier = enlargedBy extra p.releaseSupplier := by
  obtain ⟨source, builder, outlet, phase, awaiting, supplyDone, rootClosed⟩ := p
  cases supplyDone <;> rfl

theorem fail_enlarged (p : Pipeline (Rationed t)) (cause : Error) (extra : Nat) :
    (p.enlarged extra).fail cause = enlargedBy extra (p.fail cause) := by
  obtain ⟨source, builder, outlet, phase, awaiting, supplyDone, rootClosed⟩ := p
  cases supplyDone <;> rfl

theorem settle_enlarged (p : Pipeline (Rationed t)) (extra : Nat) :
    (p.enlarged extra).settle = enlargedBy extra p.settle := by
  have hbranch (c : Bool) {r s r' s' : Reaction (Rationed t)} (hr : r' = enlargedBy extra r)
      (hs : s' = enlargedBy extra s) :
      (if c then r' else s') = enlargedBy extra (if c then r else s) := by
    cases c
    · exact hs
    · exact hr
  have hrelease : andThen (p.enlarged extra).releaseSupplier complete =
      enlargedBy extra (andThen p.releaseSupplier complete) := by
    obtain ⟨source, builder, outlet, phase, awaiting, supplyDone, rootClosed⟩ := p
    cases supplyDone <;> rfl
  rw [settle, settle]
  refine hbranch p.isHolding rfl (hbranch p.rootClosed hrelease (hbranch p.supplyDone ?_ ?_))
  · exact hbranch (TokenSource.isMidValue p.source || decide (p.builder.depth ≠ 0))
      (fail_enlarged p _ extra) rfl
  · exact hbranch p.awaiting rfl (hbranch (TokenSource.needsInput p.source &&
      (decide (p.demand ≠ 0) || TokenSource.isMidValue p.source)) rfl rfl)

/-- A drain that leaves some of the ration goes the same way with more. -/
theorem drainUpTo_enlarged {fuel : Nat} {p : Pipeline (Rationed t)}
    (hfuel : p.source.ration < fuel) (hleft : 0 < (drainUpTo fuel p).2.1.source.ration)
    (extra : Nat) :
    drainUpTo (fuel + extra) (p.enlarged extra) =
      ((drainUpTo fuel p).1, enlargedBy extra (drainUpTo fuel p).2) := by
  induction fuel generalizing p with
  | zero => cases hfuel
  | succ fuel ih =>
    rw [Nat.add_right_comm]
    by_cases hstopped : (p.isHolding || p.rootClosed) = true
    · rw [drainUpTo_stopped hstopped, drainUpTo_stopped (p := p.enlarged extra) hstopped]
      rfl
    have hgoes : (p.isHolding || p.rootClosed) = false := Bool.eq_false_iff.mpr hstopped
    have hgoes' : ((p.enlarged extra).isHolding || (p.enlarged extra).rootClosed) = false := hgoes
    have hration : 0 < p.source.ration := Nat.lt_of_lt_of_le hleft (ration_drainUpTo_le _ p)
    have henlarged := Rationed.next_enlarged hration extra
    rcases hnext : TokenSource.next p.source with ⟨fault | _ | token, s⟩ <;> rw [hnext] at henlarged
    · rw [drainUpTo_fault hgoes _ hnext, drainUpTo_fault hgoes' _ henlarged]
      rfl
    · rw [drainUpTo_none hgoes _ hnext, drainUpTo_none hgoes' _ henlarged]
      rfl
    · have hless : s.ration < fuel :=
        Nat.lt_of_lt_of_le (Rationed.supply_next_lt _ _ _ hnext) (Nat.lt_succ_iff.mp hfuel)
      rcases hpush : p.builder.push token with ⟨cause | _ | v | _, b⟩
      · rw [drainUpTo_refused hgoes _ hnext hpush, drainUpTo_refused hgoes' _ henlarged hpush]
        rfl
      · rw [drainUpTo_incomplete hgoes _ hnext hpush] at hleft ⊢
        rw [drainUpTo_incomplete hgoes' _ henlarged hpush]
        exact ih (p := { p with source := s, builder := b }) hless hleft
      · rw [drainUpTo_value hgoes _ hnext hpush] at hleft ⊢
        rw [drainUpTo_value hgoes' _ henlarged hpush]
        have hlater := ih (p := { p with
          source := s, builder := b, outlet := (p.outlet.offer v).1 }) hless hleft
        exact congrArg (fun r : Option Error × Reaction (Rationed t) =>
          (r.1, r.2.1, (p.outlet.offer v).2.map Event.deliver ++ r.2.2)) hlater
      · rw [drainUpTo_rootClosed hgoes _ hnext hpush] at hleft ⊢
        rw [drainUpTo_rootClosed hgoes' _ henlarged hpush]
        exact ih (p := { p with source := s, builder := b, rootClosed := true }) hless hleft

theorem drain_enlarged {p : Pipeline (Rationed t)} (hleft : 0 < p.drain.2.1.source.ration)
    (extra : Nat) : (p.enlarged extra).drain = (p.drain.1, enlargedBy extra p.drain.2) := by
  have hdrain : (p.enlarged extra).drain =
      drainUpTo (p.source.ration + 1 + extra) ({ p with phase := .draining }.enlarged extra) := by
    rw [Nat.add_right_comm]
    rfl
  rw [hdrain]
  exact drainUpTo_enlarged (Nat.lt_succ_self _) hleft extra

theorem advance_enlarged {p : Pipeline (Rationed t)} (hleft : 0 < p.advance.1.source.ration)
    (extra : Nat) : (p.enlarged extra).advance = enlargedBy extra p.advance := by
  rw [ration_advance] at hleft
  have henlarged := drain_enlarged hleft extra
  rcases hdrain : p.drain with ⟨_ | cause, r⟩ <;> rw [hdrain] at henlarged
  · rw [advance_of_drain hdrain, advance_of_drain henlarged]
    exact congrArg (fun s : Reaction (Rationed t) => (s.1, r.2 ++ s.2)) (settle_enlarged r.1 extra)
  · rw [advance_of_drain_error hdrain, advance_of_drain_error henlarged]
    exact congrArg (fun s : Reaction (Rationed t) => (s.1, r.2 ++ s.2))
      (fail_enlarged r.1 cause extra)

theorem intake_enlarged {p : Pipeline (Rationed t)} {c : Call} {r : Reaction (Rationed t)}
    (h : p.intake c = some r) (extra : Nat) :
    (p.enlarged extra).intake c = some (enlargedBy extra r) := by
  cases c with
  | request count =>
    rw [intake] at h ⊢
    split at h
    · cases h
    next hne =>
      obtain rfl := Option.some.inj h
      rw [if_neg hne]
      rfl
  | chunk bytes =>
    rw [intake] at h ⊢
    split at h
    next hawaiting =>
      have hawaiting' : (p.enlarged extra).awaiting = true := hawaiting
      have haccept := p.source.accept_enlarged bytes extra
      have haccept' : TokenSource.accept (p.enlarged extra).source bytes = _ := haccept
      rw [if_pos hawaiting', haccept']
      split at h
      next => cases h
      next source hsource =>
        obtain rfl := Option.some.inj h
        rw [hsource]
        rfl
    next => cases h
  | supplyEnded =>
    obtain rfl := Option.some.inj h
    rfl
  | cancel | supplyFailed message => cases h

/-- A reaction that leaves some of the ration is the same with more. -/
theorem react_enlarged {p : Pipeline (Rationed t)} {c : Call}
    (hleft : 0 < (p.react c).1.source.ration) (extra : Nat) :
    (p.enlarged extra).react c = enlargedBy extra (p.react c) := by
  by_cases hterminal : p.isTerminal = true
  · rw [react_of_isTerminal hterminal, react_of_isTerminal (p := p.enlarged extra) hterminal]
    rfl
  have hrunning : p.isTerminal = false := Bool.eq_false_iff.mpr hterminal
  have hrunning' : (p.enlarged extra).isTerminal = false := hrunning
  have hreacts := reacts hrunning c
  generalize hr : p.react c = r at hreacts hleft
  cases hreacts with
  | @taken _ r hintake =>
    rw [react_of_intake hrunning' (intake_enlarged hintake extra)]
    rw [andThen_fst] at hleft
    exact congrArg (fun s : Reaction (Rationed t) => (s.1, r.2 ++ s.2))
      (advance_enlarged hleft extra)
  | zeroDemand =>
    rw [react, request, if_neg (Bool.eq_false_iff.mp hrunning'), if_pos rfl]
    exact fail_enlarged p _ extra
  | unrequested idle bytes =>
    have hidle : (!(p.enlarged extra).awaiting) = true := by
      show (!p.awaiting) = true
      rw [idle]
      rfl
    rw [react, takeChunk, if_neg (Bool.eq_false_iff.mp hrunning'), if_pos hidle]
    exact fail_enlarged p _ extra
  | @refused bytes refusal awaits accept =>
    have hawaits : ¬(!(p.enlarged extra).awaiting) = true := by
      show ¬(!p.awaiting) = true
      rw [awaits]
      exact Bool.false_ne_true
    have haccept : TokenSource.accept (p.enlarged extra).source bytes = .error refusal := by
      have henlarged := p.source.accept_enlarged bytes extra
      rwa [accept] at henlarged
    rw [react, takeChunk, if_neg (Bool.eq_false_iff.mp hrunning'), if_neg hawaits]
    dsimp only
    rw [haccept]
    exact fail_enlarged { p with awaiting := false } _ extra
  | supplyFailed message =>
    rw [react, failSupply, if_neg (Bool.eq_false_iff.mp hrunning')]
    exact fail_enlarged { p with supplyDone := true, awaiting := false } _ extra
  | cancelled =>
    rw [react, cancel, if_neg (Bool.eq_false_iff.mp hrunning')]
    exact releaseSupplier_enlarged
      { p with phase := .cancelled, outlet := p.outlet.discard }.clear extra

/-- A run that leaves some of the ration is the same with more: the ration plays no part. -/
theorem run_enlarged {p : Pipeline (Rationed t)} {calls : List Call}
    (hleft : 0 < (p.run calls).1.source.ration) (extra : Nat) :
    (p.enlarged extra).run calls = enlargedBy extra (p.run calls) := by
  induction calls generalizing p with
  | nil => rfl
  | cons c cs ih =>
    have hreact := react_enlarged (Nat.lt_of_lt_of_le hleft (ration_run_le (p.react c).1 cs)) extra
    rw [run, run, andThen, andThen, hreact]
    exact congrArg (fun s : Reaction (Rationed t) => (s.1, (p.react c).2 ++ s.2)) (ih hleft)

/-! ### Runs without a ration -/

section

variable {state : σ} {options : Options} {calls : List Call}

/-- Each drain of the run comes to an end: there is a ration that the run does not use up. -/
def Returns (t : Tokenizer σ) (state : σ) (options : Options) (calls : List Call) : Prop :=
  ∃ ration, 0 < ((new (⟨state, ration⟩ : Rationed t) options).run calls).1.source.ration

/-- A ration that is enough stays enough, and more of it makes no difference. -/
theorem Returns.exists_enough (h : Returns t state options calls) :
    ∃ enough, ∀ ration, enough ≤ ration →
      (new (⟨state, ration⟩ : Rationed t) options).run calls =
        enlargedBy (ration - enough) ((new (⟨state, enough⟩ : Rationed t) options).run calls) := by
  obtain ⟨enough, hleft⟩ := h
  refine ⟨enough, fun ration hle => ?_⟩
  obtain ⟨extra, rfl⟩ := Nat.exists_eq_add_of_le hle
  rw [Nat.add_sub_cancel_left]
  exact run_enlarged hleft extra

/-- Whatever the tokenizer and whatever the two sides call in whichever order, as long as each drain
comes to an end: the events of a run and the state after it are the same with every ration from some
on, and they keep to what the consumer may rely on. -/
theorem consumer_of_returns (h : Returns t state options calls) :
    ∃ enough, ∀ ration, enough ≤ ration →
      let pipeline (ration : Nat) := new (⟨state, ration⟩ : Rationed t) options
      let run := (pipeline ration).run calls
      let signals := Event.signals run.2
      run = enlargedBy (ration - enough) ((pipeline enough).run calls) ∧
        (run.1.demand < Demand.unbounded → run.1.phase ≠ .cancelled →
          (Signal.values signals).length + run.1.demand =
            asked ((pipeline ration).visits calls)) ∧
        (run.1.demand = Demand.unbounded → ∀ later,
          (run.1.run later).1.demand = Demand.unbounded ∨
            .cancel ∈ later ∧ (run.1.run later).1.phase = .cancelled ∧
              (run.1.run later).1.demand = 0) ∧
        (run.1.isHolding = true → run.1.demand = 0) ∧
        (∃ (values : List Value) (last : List (Signal Value)),
          signals = values.map .next ++ last ∧ last.length ≤ 1 ∧
            ∀ t ∈ last, t.isTerminal = true) ∧
        (.complete ∈ signals ↔ run.1.phase = .completed) ∧
        ((∃ cause, .error cause ∈ signals) ↔ run.1.phase = .failed) ∧
        (run.1.isTerminal = true →
          run.1.isHolding = false ∧ run.1.awaiting = false ∧
            ∀ later, run.1.run later = (run.1, [])) := by
  obtain ⟨enough, hsame⟩ := h.exists_enough
  refine ⟨enough, fun ration hle => ?_⟩
  have hserved := served_run (⟨state, ration⟩ : Rationed t) options calls
  refine ⟨hsame ration hle, hserved.balance, hserved.run_of_unbounded, hserved.withheld,
    hserved.exists_last, hserved.complete_mem_iff, hserved.error_mem_iff, fun hterminal => ?_⟩
  have hover := hserved.atEnd hterminal
  exact ⟨hover.empty, hover.idle, run_of_isTerminal hterminal⟩

/-- With the same tokenizers the run keeps to what the supplier may rely on. -/
theorem supplier_of_returns (h : Returns t state options calls) :
    ∃ enough, ∀ ration, enough ≤ ration →
      let pipeline (ration : Nat) := new (⟨state, ration⟩ : Rationed t) options
      let run := (pipeline ration).run calls
      let visits := (pipeline ration).visits calls
      run = enlargedBy (ration - enough) ((pipeline enough).run calls) ∧
        (∀ count, .askChunks count ∈ run.2 → count = 1) ∧
        (supplyEnds visits = false → .stopSupplier ∉ run.2 →
          run.2.countP Event.isAsk = taken visits + if run.1.awaiting then 1 else 0) ∧
        (∀ c later, c.endsSupply = true → ∀ e ∈ (run.1.run (c :: later)).2, e.isAsk = false) ∧
        (run.2.Pairwise fun e f => e = .stopSupplier → f.isAsk = false) ∧
        run.2.count .stopSupplier ≤ 1 ∧
        (run.1.isTerminal = true → (.stopSupplier ∈ run.2 ↔ supplyEnds visits = false)) := by
  obtain ⟨enough, hsame⟩ := h.exists_enough
  refine ⟨enough, fun ration hle => ?_⟩
  have hsupplied := supplied_run (⟨state, ration⟩ : Rationed t) options calls
  refine ⟨hsame ration hle, hsupplied.singly, hsupplied.paced, fun c later hends => ?_,
    hsupplied.silent, hsupplied.count_le_one, hsupplied.stopped_iff⟩
  exact hsupplied.run_unasked (by rw [hends, Bool.or_true]) later

end

/-- A tokenizer that gives empty arrays for ever; its state tells whether one is open. -/
def emptyArrays : Tokenizer Bool where
  feed isOpen _ := .ok isOpen
  next isOpen := (.ok (some (if isOpen then .endArray else .startArray)), !isOpen)
  needsInput _ := false
  isMidValue isOpen := isOpen
  location _ := Location.start
  fresh _ := false

example : ((new (⟨false, 9⟩ : Rationed emptyArrays) {}).run [.request 2]).2 =
    deliveries [.array [], .array []] := by
  rfl

example : Returns emptyArrays false {} [.request 2] :=
  ⟨9, by decide⟩

end Pipeline

end StreamingJson
