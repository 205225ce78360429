import StreamingJson.Proofs.Pipeline.Drain
import StreamingJson.Proofs.Pipeline.Runs

/-!
# Serving the two sides

Whatever the source, a pipeline that makes progress delivers values as far as there is demand, and
then it either waits or comes to its end. It asks for a chunk only when it begins to wait for one,
and when it comes to its end it tells the supplier to stop, unless the supply has ended by itself.

## Main definitions

- `Pipeline.Sound` — what holds of a pipeline at work
- `Pipeline.Serving`, `Pipeline.AtEnd` — what holds between calls before the end, and at the end
- `Pipeline.Progress` — what making progress may do to the two sides
- `Pipeline.Response` — what the reaction to a call may do to them

## Main statements

- `Pipeline.Serving.progress_advance` — a pipeline that makes all progress does no more than that
- `Pipeline.Serving.response_react` — nor does one that reacts to a call
-/

namespace StreamingJson

theorem deliveries_append_append (vs ws : List Value) (events : List Event) :
    deliveries vs ++ (deliveries ws ++ events) = deliveries (vs ++ ws) ++ events := by
  rw [deliveries, deliveries, deliveries, List.map_append, List.append_assoc]

namespace Pipeline

/-- What the supplier hears at the end of a pipeline: to stop, unless the supply has ended. -/
def farewell (supplied : Bool) : List Event :=
  if supplied then [] else [.stopSupplier]

/-- What the supplier is asked for: one chunk, where a pipeline begins to wait for one. -/
def asking (before after : Bool) : List Event :=
  if after && !before then [.askChunks 1] else []

section

variable {σ : Type}

/-- What holds of a pipeline at work, also while tokens are turned into values. -/
structure Sound (p : Pipeline σ) : Prop where
  unclosed : p.outlet.closed = false
  bounded : p.demand ≤ Demand.unbounded
  withheld : p.isHolding = true → p.demand = 0
  /-- Behind the end of the root array no value is made that could be held back. -/
  rootOpen : p.isHolding = true → p.rootClosed = false
  supplied : p.supplyDone = true → p.awaiting = false

/-- What holds of a pipeline between calls as long as it is not at its end. -/
structure Serving (p : Pipeline σ) : Prop extends Sound p where
  running : p.isTerminal = false
  unfinished : p.rootClosed = false

/-- What holds of a pipeline at its end. -/
structure AtEnd (p : Pipeline σ) : Prop where
  terminal : p.isTerminal = true
  empty : p.isHolding = false
  idle : p.awaiting = false

/-- What a drain that delivers the given values leaves of a pipeline. -/
structure Spent (p : Pipeline σ) (given : List Value) (q : Pipeline σ) : Prop where
  sound : q.Sound
  covers : Demand.Covers p.demand given.length
  left : q.demand = Demand.left p.demand given.length
  awaiting : q.awaiting = p.awaiting
  supply : q.supplyDone = p.supplyDone

/-- What making progress may do to the two sides, given the demand, whether a chunk is awaited and
whether the supply has ended. -/
inductive Progress (demand : Nat) (awaiting supplied : Bool) : Reaction σ → Prop where
  /-- Values are delivered, and the pipeline waits for either side. -/
  | waits {p : Pipeline σ} {given : List Value} (covers : Demand.Covers demand given.length)
    (left : p.demand = Demand.left demand given.length) (serving : p.Serving)
    (supply : p.supplyDone = supplied) (keeps : awaiting = true → p.awaiting = true) :
    Progress demand awaiting supplied (p, deliveries given ++ asking awaiting p.awaiting)
  /-- Values are delivered, and then a terminal signal. -/
  | ends {p : Pipeline σ} {given : List Value} {t : Signal Value} (terminal : t.isTerminal = true)
    (covers : Demand.Covers demand given.length)
    (left : p.demand = Demand.left demand given.length) (atEnd : p.AtEnd)
    (phase : p.phase = phaseAfter t) :
    Progress demand awaiting supplied
      (p, deliveries given ++ (farewell supplied ++ [.deliver t]))

/-- What the reaction of a pipeline to a call may do to the two sides. -/
inductive Response (p : Pipeline σ) (c : Call) : Reaction σ → Prop where
  /-- Progress is made, once the call is taken account of. -/
  | served {r : Reaction σ}
    (progress : Progress (Demand.add p.demand c.asked)
      (p.awaiting && !c.isChunk && !c.endsSupply) (p.supplyDone || c.endsSupply) r) :
    Response p c r
  /-- The consumer wants nothing any more, and nothing is delivered. -/
  | cancelled {q : Pipeline σ} (call : c = .cancel) (atEnd : q.AtEnd) (phase : q.phase = .cancelled)
    (unasked : q.demand = 0) : Response p c (q, farewell p.supplyDone)

variable {p : Pipeline σ}

/-- A new pipeline serves its sides. -/
theorem serving_new (source : σ) (options : Options) : (new source options).Serving :=
  ⟨⟨rfl, Nat.zero_le _, fun _ => rfl, fun _ => rfl, fun _ => rfl⟩, rfl, rfl⟩

theorem Serving.withDemand (h : p.Serving) {demand : Nat} (hle : demand ≤ Demand.unbounded) :
    Serving { p with outlet := { demand } } :=
  ⟨⟨rfl, hle, fun hheld => absurd hheld Bool.false_ne_true, fun _ => h.unfinished, h.supplied⟩,
    h.running, h.unfinished⟩

/-- A pipeline that expects no chunk at the moment. -/
theorem Serving.withoutChunk (h : p.Serving) (source : σ) (supplyDone : Bool) :
    Serving { p with source, supplyDone, awaiting := false } :=
  ⟨⟨h.unclosed, h.bounded, h.withheld, h.rootOpen, fun _ => rfl⟩, h.running, h.unfinished⟩

theorem Sound.outlet_eq (h : p.Sound) (hempty : p.isHolding = false) :
    p.outlet = { demand := p.demand } := by
  obtain ⟨source, builder, ⟨demand, held, closed⟩, phase, awaiting, supplyDone, rootClosed⟩ := p
  obtain rfl : closed = false := h.unclosed
  obtain rfl : held = none := Option.not_isSome_iff_eq_none.mp (Bool.eq_false_iff.mp hempty)
  rfl

/-- A request adds to the demand and delivers the value that is held back, if any. -/
theorem Serving.deliver_request (h : p.Serving) {count : Nat} (hne : count ≠ 0) :
    ∃ given, p.deliver (p.outlet.request count) =
        ({ p with outlet :=
            { demand := Demand.left (Demand.add p.demand count) given.length } },
          deliveries given) ∧
      Demand.Covers (Demand.add p.demand count) given.length ∧
      (p.isHolding = false → given = []) := by
  by_cases hholding : p.isHolding = true
  · obtain ⟨v, hheld⟩ := Option.isSome_iff_exists.mp hholding
    have hpositive : 1 ≤ Demand.add p.demand count := by
      unfold Demand.add Demand.unbounded
      omega
    have hnonzero : Demand.add p.outlet.demand count ≠ 0 := Nat.ne_of_gt hpositive
    refine ⟨[v], ?_, .inr hpositive, fun hempty => absurd hholding (Bool.eq_false_iff.mp hempty)⟩
    rw [List.length_singleton, Demand.left_one (Demand.add_le _ _), deliver, Outlet.request,
      h.unclosed, if_neg Bool.false_ne_true, hheld]
    simp only [if_neg hnonzero]
    rfl
  · refine ⟨[], ?_, Demand.covers_zero _, fun _ => rfl⟩
    rw [h.outlet_eq (Bool.eq_false_iff.mpr hholding), List.length_nil, Demand.left_zero]
    rfl

/-! ### Kinds of progress -/

/-- Values can be delivered in front of progress. -/
theorem Progress.prepend {demand : Nat} {awaiting supplied : Bool} {r : Reaction σ}
    (given : List Value) (hle : demand ≤ Demand.unbounded)
    (covers : Demand.Covers demand given.length)
    (h : Progress (Demand.left demand given.length) awaiting supplied r) :
    Progress demand awaiting supplied (r.1, deliveries given ++ r.2) := by
  have hcovers {more : List Value}
      (h : Demand.Covers (Demand.left demand given.length) more.length) :
      Demand.Covers demand (given ++ more).length := by
    rw [List.length_append]
    exact covers.sum hle h
  have hleft (more : List Value) : Demand.left (Demand.left demand given.length) more.length =
      Demand.left demand (given ++ more).length := by
    rw [List.length_append, Demand.left_add hle]
  cases h with
  | waits covers' left serving supply keeps =>
    dsimp only
    rw [deliveries_append_append]
    exact .waits (hcovers covers') (left.trans (hleft _)) serving supply keeps
  | ends terminal covers' left atEnd phase =>
    dsimp only
    rw [deliveries_append_append]
    exact .ends terminal (hcovers covers') (left.trans (hleft _)) atEnd phase

/-- A pipeline that comes to its end with nothing to deliver but the terminal signal. -/
theorem Progress.ends_at_once {demand : Nat} {awaiting supplied : Bool} {t : Signal Value}
    (terminal : t.isTerminal = true) (left : p.demand = demand) (atEnd : p.AtEnd)
    (phase : p.phase = phaseAfter t) :
    Progress demand awaiting supplied (p, farewell supplied ++ [.deliver t]) := by
  have hends : Progress demand awaiting supplied
      (p, deliveries [] ++ (farewell supplied ++ [.deliver t])) :=
    .ends terminal (Demand.covers_zero _) (left.trans (Demand.left_zero _).symm) atEnd phase
  exact hends

theorem Sound.progress_waits (h : p.Sound) (hopen : p.rootClosed = false) {phase : Phase}
    (hphase : phase.isTerminal = false) :
    Progress p.demand p.awaiting p.supplyDone ({ p with phase }, []) := by
  have hasks : ([] : List Event) = deliveries [] ++ asking p.awaiting p.awaiting := by
    rw [asking]
    cases p.awaiting <;> rfl
  rw [hasks]
  exact .waits (p := { p with phase }) (Demand.covers_zero _) (Demand.left_zero _).symm
    ⟨⟨h.unclosed, h.bounded, h.withheld, h.rootOpen, h.supplied⟩, hphase, hopen⟩ rfl id

/-- The account that a response takes of a call, worked out. -/
theorem Response.of_progress {c : Call} {r : Reaction σ} {demand : Nat} {awaiting supplied : Bool}
    (hdemand : Demand.add p.demand c.asked = demand)
    (hawaiting : (p.awaiting && !c.isChunk && !c.endsSupply) = awaiting)
    (hsupplied : (p.supplyDone || c.endsSupply) = supplied)
    (progress : Progress demand awaiting supplied r) : Response p c r := by
  subst hdemand hawaiting hsupplied
  exact .served progress

/-! ### The end -/

theorem releaseSupplier_eq (p : Pipeline σ) :
    p.releaseSupplier =
      ({ p with awaiting := false, supplyDone := true }, farewell p.supplyDone) := by
  obtain ⟨source, builder, outlet, phase, awaiting, supplyDone, rootClosed⟩ := p
  cases supplyDone <;> rfl

theorem Sound.complete_eq (h : p.Sound) :
    p.complete =
      ({ p with phase := .completed, outlet := { demand := p.demand, closed := true } },
        [.deliver .complete]) := by
  rw [complete, Outlet.complete, h.unclosed]
  rfl

/-- At the end of the root array the supplier is told to stop, if there is any. -/
theorem Sound.progress_release (h : p.Sound) (awaiting : Bool) :
    Progress p.demand awaiting p.supplyDone (andThen p.releaseSupplier complete) := by
  have hsound : Sound { p with awaiting := false, supplyDone := true } :=
    ⟨h.unclosed, h.bounded, h.withheld, h.rootOpen, fun _ => rfl⟩
  rw [releaseSupplier_eq, andThen, hsound.complete_eq]
  exact .ends_at_once rfl rfl ⟨rfl, rfl, rfl⟩ rfl

/-- Where the supply has ended nobody has to be told. -/
theorem Sound.progress_complete (h : p.Sound) (hsupply : p.supplyDone = true) (awaiting : Bool) :
    Progress p.demand awaiting p.supplyDone p.complete := by
  rw [h.complete_eq, hsupply]
  exact .ends_at_once rfl rfl ⟨rfl, rfl, h.supplied hsupply⟩ rfl

end

section

variable {σ : Type} [TokenSource σ] {p : Pipeline σ}

theorem Sound.fail_eq (h : p.Sound) (cause : Error) :
    p.fail cause =
      ({ p.clear with
          phase := .failed, outlet := { demand := p.demand, closed := true }
          awaiting := false, supplyDone := true },
        farewell p.supplyDone ++ [.deliver (.error cause)]) := by
  rw [fail, releaseSupplier_eq, andThen, deliver]
  simp only [clear, Outlet.fail, h.unclosed]
  rfl

theorem Sound.progress_fail (h : p.Sound) (cause : Error) (awaiting : Bool) :
    Progress p.demand awaiting p.supplyDone (p.fail cause) := by
  rw [h.fail_eq]
  exact .ends_at_once rfl rfl ⟨rfl, rfl, rfl⟩ rfl

theorem Sound.progress_settle (h : p.Sound) :
    Progress p.demand p.awaiting p.supplyDone p.settle := by
  rw [settle]
  by_cases hholding : p.isHolding = true
  · rw [if_pos hholding]
    exact h.progress_waits (h.rootOpen hholding) rfl
  rw [if_neg hholding]
  by_cases hroot : p.rootClosed = true
  · rw [if_pos hroot]
    exact h.progress_release _
  rw [if_neg hroot]
  have hopen : p.rootClosed = false := Bool.eq_false_iff.mpr hroot
  by_cases hsupply : p.supplyDone = true
  · rw [if_pos hsupply]
    split
    · exact h.progress_fail _ _
    · exact h.progress_complete hsupply _
  rw [if_neg hsupply]
  by_cases hawaiting : p.awaiting = true
  · rw [if_pos hawaiting]
    exact h.progress_waits hopen rfl
  rw [if_neg hawaiting]
  split
  · -- a chunk is asked for, and from now on awaited
    have hasks : [Event.askChunks 1] = deliveries [] ++ asking p.awaiting true := by
      rw [asking, Bool.eq_false_iff.mpr hawaiting]
      rfl
    have hsupplied : p.supplyDone = true → true = false := fun hs => absurd hs hsupply
    rw [hasks]
    exact .waits (p := { p with phase := .awaitingChunk, awaiting := true }) (Demand.covers_zero _)
      (Demand.left_zero _).symm
      ⟨⟨h.unclosed, h.bounded, h.withheld, h.rootOpen, hsupplied⟩, rfl, hopen⟩ rfl (fun _ => rfl)
  · exact h.progress_waits hopen rfl

/-- A drain delivers values as far as there is demand, and leaves the supplier alone. -/
theorem Serving.exists_spent (h : p.Serving) :
    ∃ error q given, p.drain = (error, q, deliveries given) ∧ Spent p given q := by
  have hempty {q : Prop} : false = true → q := fun hfalse => absurd hfalse Bool.false_ne_true
  by_cases hholding : p.isHolding = true
  · have hstopped : (p.isHolding || p.rootClosed) = true := by rw [hholding, Bool.true_or]
    refine ⟨none, { p with phase := .draining }, [],
      drainUpTo_stopped (p := { p with phase := .draining }) hstopped _, ?_⟩
    exact ⟨⟨h.unclosed, h.bounded, h.withheld, h.rootOpen, h.supplied⟩, Demand.covers_zero _,
      (Demand.left_zero _).symm, rfl, rfl⟩
  · have houtlet := h.outlet_eq (Bool.eq_false_iff.mpr hholding)
    have hdrained : Drained { p with phase := .draining } (TokenSource.yield p.source p.builder)
        p.drain :=
      drained_drainUpTo (p := { p with phase := .draining }) (Nat.lt_succ_self _) houtlet h.bounded
        h.unfinished
    have hleft (given : List Value) : Demand.left p.demand given.length ≤ Demand.unbounded :=
      Demand.left_le h.bounded _
    generalize p.drain = r at hdrained ⊢
    -- in all cases nothing but source, builder and outlet has changed
    cases hdrained with
    | @held s b given v rest values met bounded =>
      have hbounded : p.demand ≠ Demand.unbounded := bounded
      have hmet : given.length = p.demand := met
      have hspent : 0 = Demand.left p.demand given.length := by
        rw [hmet, Demand.left, if_neg hbounded, Nat.sub_self]
      exact ⟨_, _, given, rfl,
        ⟨rfl, Nat.zero_le _, fun _ => rfl, fun _ => h.unfinished, h.supplied⟩,
        .inr (Nat.le_of_eq hmet), hspent, rfl, rfl⟩
    | failed ending covers | closed ending covers | dry ending covers =>
      exact ⟨_, _, _, rfl, ⟨rfl, hleft _, hempty, hempty, h.supplied⟩, covers, rfl, rfl, rfl⟩

theorem Serving.progress_advance (h : p.Serving) :
    Progress p.demand p.awaiting p.supplyDone p.advance := by
  obtain ⟨error, q, given, hdrain, hspent⟩ := h.exists_spent
  have hprepend {r : Reaction σ} (hr : Progress q.demand q.awaiting q.supplyDone r) :
      Progress p.demand p.awaiting p.supplyDone (r.1, deliveries given ++ r.2) := by
    rw [hspent.left, hspent.awaiting, hspent.supply] at hr
    exact hr.prepend given h.bounded hspent.covers
  cases error with
  | none =>
    rw [advance_of_drain hdrain]
    exact hprepend hspent.sound.progress_settle
  | some cause =>
    rw [advance_of_drain_error hdrain]
    exact hprepend (hspent.sound.progress_fail cause _)

/-! ### Calls -/

/-- A request delivers the value that is held back, if any, before progress is made. -/
theorem Serving.progress_request (h : p.Serving) {count : Nat} (hne : count ≠ 0) :
    Progress (Demand.add p.demand count) p.awaiting p.supplyDone
      (andThen (p.deliver (p.outlet.request count)) advance) := by
  have hle : Demand.add p.demand count ≤ Demand.unbounded := Demand.add_le _ _
  obtain ⟨given, hrequest, hcovers, -⟩ := h.deliver_request hne
  rw [hrequest]
  exact (h.withDemand (Demand.left_le hle given.length)).progress_advance.prepend given hle hcovers

/-- The reaction to a call before the end. -/
theorem Serving.response_react (h : p.Serving) (c : Call) : Response p c (p.react c) := by
  have hunasked : Demand.add p.demand 0 = p.demand := Nat.min_eq_left h.bounded
  have hsupply : (p.supplyDone || false) = p.supplyDone := Bool.or_false _
  have hnoChunk (b : Bool) : (p.awaiting && false && b) = false := by
    rw [Bool.and_false, Bool.false_and]
  have hreacts := reacts h.running c
  generalize p.react c = r at hreacts
  cases hreacts with
  | taken intake =>
    cases c with
    | request count =>
      rw [Pipeline.intake] at intake
      split at intake
      next => cases intake
      next hne =>
        obtain rfl := Option.some.inj intake
        have hawaiting : (p.awaiting && true && true) = p.awaiting := by
          rw [Bool.and_true, Bool.and_true]
        exact .of_progress rfl hawaiting hsupply (h.progress_request hne)
    | chunk bytes =>
      rw [Pipeline.intake] at intake
      split at intake
      next =>
        split at intake
        next => cases intake
        next source _ =>
          obtain rfl := Option.some.inj intake
          exact .of_progress hunasked (hnoChunk _) hsupply
            (h.withoutChunk source p.supplyDone).progress_advance
      next => cases intake
    | supplyEnded =>
      obtain rfl := Option.some.inj intake
      exact .of_progress hunasked (Bool.and_false _) (Bool.or_true _)
        (h.withoutChunk p.source true).progress_advance
    | cancel | supplyFailed message => cases intake
  | zeroDemand => exact .of_progress hunasked rfl hsupply (h.progress_fail _ _)
  | unrequested idle bytes => exact .of_progress hunasked rfl hsupply (h.progress_fail _ _)
  | refused awaits accept =>
    exact .of_progress hunasked rfl hsupply
      ((h.withoutChunk p.source p.supplyDone).progress_fail _ _)
  | supplyFailed message =>
    exact .of_progress hunasked rfl (Bool.or_true _)
      ((h.withoutChunk p.source true).progress_fail _ _)
  | cancelled =>
    rw [releaseSupplier_eq]
    exact .cancelled rfl ⟨rfl, rfl, rfl⟩ rfl rfl

/-- A pipeline that has reacted to a call serves its sides, unless it is at its end. -/
theorem Serving.react (h : p.Serving) {c : Call} (hrunning : (p.react c).1.isTerminal = false) :
    (p.react c).1.Serving := by
  have hresponse := h.response_react c
  generalize p.react c = r at hresponse hrunning
  cases hresponse with
  | served progress =>
    cases progress with
    | waits covers left serving => exact serving
    | ends terminal covers left atEnd => exact absurd atEnd.terminal (Bool.eq_false_iff.mp hrunning)
  | cancelled call atEnd => exact absurd atEnd.terminal (Bool.eq_false_iff.mp hrunning)

end

end Pipeline

end StreamingJson
