import StreamingJson.Proofs.Pipeline.Runs

/-!
# What every token keeps

Before the end of a pipeline its source and builder change by chunks that the source accepts and by
tokens that the builder takes, and by nothing else. So a property of the two that chunks and tokens
keep holds throughout, and whatever error reaches the consumer was found where it holds.

## Main definitions

- `Pipeline.Invariance` — a property of source and builder that chunks and tokens keep, and one of
  the errors that are found where it holds

## Main statements

- `Pipeline.Invariance.run` — both properties hold of every run
- `Pipeline.Invariance.settlesAt` — the first holds where a pipeline decides what to wait for
-/

namespace StreamingJson

namespace Pipeline

/-- The errors among events have a property. -/
def Reports (E : Error → Prop) (events : List Event) : Prop :=
  ∀ cause, .error cause ∈ Event.signals events → E cause

section

variable {E : Error → Prop} {es fs : List Event}

theorem reports_nil : Reports E [] :=
  fun _ h => (List.not_mem_nil h).elim

theorem Reports.append (h : Reports E es) (h' : Reports E fs) : Reports E (es ++ fs) := by
  intro cause hmem
  rw [Event.signals_append] at hmem
  exact (List.mem_append.mp hmem).elim (h cause) (h' cause)

theorem signals_map_deliver (signals : List (Signal Value)) :
    Event.signals (signals.map .deliver) = signals := by
  induction signals with
  | nil => rfl
  | cons s ss ih => exact congrArg (s :: ·) ih

/-- Delivering signals reports the errors among them. -/
theorem reports_deliver {signals : List (Signal Value)}
    (h : ∀ cause, .error cause ∈ signals → E cause) : Reports E (signals.map .deliver) := by
  intro cause hmem
  rw [signals_map_deliver] at hmem
  exact h cause hmem

end

/-- Source and builder have the property `I` at the beginning of a reaction only if they have it at
the end, and errors that are found where they have it have the property `E`. -/
structure Invariance {σ : Type} [TokenSource σ] (I : σ → Builder → Prop) (E : Error → Prop) :
    Prop where
  accept : ∀ {s s' : σ} {b : Builder} {chunk : List UInt8}, I s b →
    TokenSource.accept s chunk = .ok s' → I s' b
  dry : ∀ {s s' : σ} {b : Builder}, I s b → TokenSource.next s = (.ok none, s') → I s' b
  token : ∀ {s s' : σ} {b b' : Builder} {token : Token} {built : Built}, I s b →
    TokenSource.next s = (.ok (some token), s') → b.push token = (.ok built, b') → I s' b'
  lexical : ∀ {s s' : σ} {b : Builder} {fault : LexicalFault}, I s b →
    TokenSource.next s = (.error fault, s') → E (.lexical fault)
  malformed : ∀ {s s' : σ} {b b' : Builder} {token : Token} {cause : StructureError}, I s b →
    TokenSource.next s = (.ok (some token), s') → b.push token = (.error cause, b') →
    E (.malformed cause (TokenSource.location s'))
  truncated : ∀ {s : σ} {b : Builder}, I s b → E (.truncated (TokenSource.location s))
  /-- Errors that are none of the text. -/
  foreign : ∀ {cause : Error}, cause.location? = none → E cause

namespace Invariance

/-- What becomes of the two properties in a drain. -/
def Drains {σ : Type} (I : σ → Builder → Prop) (E : Error → Prop) :
    Option Error × Reaction σ → Prop
  | (none, q, events) => I q.source q.builder ∧ Reports E events
  | (some cause, _, events) => E cause ∧ Reports E events

/-- What becomes of the two properties in a reaction. -/
def Keeps {σ : Type} (I : σ → Builder → Prop) (E : Error → Prop) (r : Reaction σ) : Prop :=
  (r.1.isTerminal = false → I r.1.source r.1.builder) ∧ Reports E r.2

section

variable {σ : Type} {I : σ → Builder → Prop} {E : Error → Prop} {events : List Event}

theorem Drains.prepend {r : Option Error × Reaction σ} (h : Drains I E r)
    (hevents : Reports E events) : Drains I E (r.1, r.2.1, events ++ r.2.2) := by
  obtain ⟨_ | cause, q, later⟩ := r
  · exact ⟨h.1, hevents.append h.2⟩
  · exact ⟨h.1, hevents.append h.2⟩

theorem Keeps.prepend {r : Reaction σ} (h : Keeps I E r) (hevents : Reports E events) :
    Keeps I E (r.1, events ++ r.2) :=
  ⟨h.1, hevents.append h.2⟩

/-- At the end nothing is claimed of source and builder. -/
theorem keeps_of_isTerminal {r : Reaction σ} (hterminal : r.1.isTerminal = true)
    (hevents : Reports E r.2) : Keeps I E r :=
  ⟨fun hrunning => absurd hterminal (Bool.eq_false_iff.mp hrunning), hevents⟩

theorem reports_offer (o : Outlet Value) (v : Value) : Reports E ((o.offer v).2.map .deliver) := by
  refine reports_deliver fun cause hmem => ?_
  rw [Outlet.offer] at hmem
  split at hmem
  · cases hmem
  · split at hmem
    · cases List.mem_singleton.mp hmem
    · cases hmem

theorem reports_request (o : Outlet Value) (count : Nat) :
    Reports E ((o.request count).2.map .deliver) := by
  refine reports_deliver fun cause hmem => ?_
  rw [Outlet.request] at hmem
  split at hmem
  · cases hmem
  · dsimp only at hmem
    split at hmem
    · split at hmem
      · cases hmem
      · cases List.mem_singleton.mp hmem
    · cases hmem

theorem reports_releaseSupplier (p : Pipeline σ) : Reports E p.releaseSupplier.2 := by
  intro cause hmem
  rw [Event.signals, signals_releaseSupplier] at hmem
  cases hmem

theorem reports_complete (p : Pipeline σ) : Reports E p.complete.2 := by
  refine reports_deliver fun cause hmem => ?_
  rw [Outlet.complete] at hmem
  split at hmem
  · cases hmem
  · cases List.mem_singleton.mp hmem

end

variable {σ : Type} [TokenSource σ] {I : σ → Builder → Prop} {E : Error → Prop} {p q : Pipeline σ}
  {c : Call}

theorem keeps_fail {cause : Error} (hcause : E cause) (p : Pipeline σ) :
    Keeps I E (p.fail cause) := by
  apply keeps_of_isTerminal (isTerminal_fail p cause)
  refine (reports_releaseSupplier _).append (reports_deliver fun cause' hmem => ?_)
  rw [Outlet.fail] at hmem
  split at hmem
  · cases hmem
  · cases List.mem_singleton.mp hmem
    exact hcause

/-- Tokens keep the properties one by one, and so does a drain. -/
theorem drainUpTo (h : Invariance I E) (hI : I p.source p.builder) (fuel : Nat) :
    Drains I E (Pipeline.drainUpTo fuel p) := by
  fun_induction Pipeline.drainUpTo fuel p with
  | case1 p => exact ⟨hI, reports_nil⟩
  | case2 fuel p hstopped => exact ⟨hI, reports_nil⟩
  | case3 fuel p hgoes fault source hnext => exact ⟨h.lexical hI hnext, reports_nil⟩
  | case4 fuel p hgoes source hnext => exact ⟨h.dry hI hnext, reports_nil⟩
  | case5 fuel p hgoes token source hnext cause builder hpush =>
    exact ⟨h.malformed hI hnext hpush, reports_nil⟩
  | case6 fuel p hgoes token source hnext builder hpush ih => exact ih (h.token hI hnext hpush)
  | case7 fuel p hgoes token source hnext builder hpush ih => exact ih (h.token hI hnext hpush)
  | case8 fuel p hgoes token source hnext v builder hpush q events hoffer error q' later hlater
      ih =>
    obtain ⟨rfl, rfl⟩ := Prod.mk.inj hoffer
    have hdrains := (ih (h.token hI hnext hpush)).prepend (reports_offer p.outlet v)
    rwa [hlater] at hdrains

theorem settle (h : Invariance I E) (hI : I p.source p.builder) : Keeps I E p.settle := by
  have hwaits {phase : Phase} {awaiting : Bool} {events : List Event} (hevents : Reports E events) :
      Keeps I E ({ p with phase, awaiting }, events) := ⟨fun _ => hI, hevents⟩
  rw [Pipeline.settle]
  split
  · exact hwaits reports_nil
  split
  · exact keeps_of_isTerminal rfl ((reports_releaseSupplier p).append (reports_complete _))
  split
  · split
    · exact keeps_fail (h.truncated hI) p
    · exact keeps_of_isTerminal rfl (reports_complete p)
  split
  · exact hwaits reports_nil
  split
  · refine hwaits fun cause hmem => ?_
    cases hmem
  · exact hwaits reports_nil

theorem advance (h : Invariance I E) (hI : I p.source p.builder) : Keeps I E p.advance := by
  have hdrains : Drains I E p.drain := h.drainUpTo (p := { p with phase := .draining }) hI _
  rcases hdrain : p.drain with ⟨_ | cause, r⟩
  · rw [hdrain] at hdrains
    rw [advance_of_drain hdrain]
    exact (h.settle hdrains.1).prepend hdrains.2
  · rw [hdrain] at hdrains
    rw [advance_of_drain_error hdrain]
    exact (keeps_fail hdrains.1 r.1).prepend hdrains.2

/-- Taking in a call keeps the properties. -/
theorem intake (h : Invariance I E) (hI : I p.source p.builder) {r : Reaction σ}
    (hintake : p.intake c = some r) : I r.1.source r.1.builder ∧ Reports E r.2 := by
  cases c with
  | request count =>
    rw [Pipeline.intake] at hintake
    split at hintake
    · cases hintake
    · obtain rfl := Option.some.inj hintake
      exact ⟨hI, reports_request p.outlet count⟩
  | chunk bytes =>
    rw [Pipeline.intake] at hintake
    split at hintake
    · split at hintake
      next => cases hintake
      next source haccept =>
        obtain rfl := Option.some.inj hintake
        exact ⟨h.accept hI haccept, reports_nil⟩
    · cases hintake
  | supplyEnded =>
    obtain rfl := Option.some.inj hintake
    exact ⟨hI, reports_nil⟩
  | cancel | supplyFailed message => cases hintake

theorem react (h : Invariance I E) (hrunning : p.isTerminal = false)
    (hI : I p.source p.builder) (c : Call) : Keeps I E (p.react c) := by
  have hreacts := reacts hrunning c
  generalize p.react c = r at hreacts
  cases hreacts with
  | taken hintake =>
    obtain ⟨hI', hevents⟩ := h.intake hI hintake
    exact (h.advance hI').prepend hevents
  | zeroDemand => exact keeps_fail (h.foreign rfl) _
  | unrequested idle bytes => exact keeps_fail (h.foreign rfl) _
  | refused awaits accept => exact keeps_fail (h.foreign rfl) _
  | supplyFailed message => exact keeps_fail (h.foreign rfl) _
  | cancelled =>
    apply keeps_of_isTerminal ?_ (reports_releaseSupplier _)
    rw [isTerminal, phase_releaseSupplier]
    rfl

/-- Runs keep both properties. -/
theorem run (h : Invariance I E) (hI : p.isTerminal = false → I p.source p.builder)
    (calls : List Call) : Keeps I E (p.run calls) := by
  induction calls generalizing p with
  | nil => exact ⟨hI, reports_nil⟩
  | cons c cs ih =>
    by_cases hterminal : p.isTerminal = true
    · rw [run_of_isTerminal hterminal]
      exact keeps_of_isTerminal hterminal reports_nil
    · have hrunning : p.isTerminal = false := Bool.eq_false_iff.mpr hterminal
      have hreact := h.react hrunning (hI hrunning) c
      exact (ih hreact.1).prepend hreact.2

/-- The first property holds where a pipeline decides what to wait for. -/
theorem settlesAt (h : Invariance I E) (hI : I p.source p.builder)
    (hsettles : p.settlesAt c = some q) : I q.source q.builder := by
  obtain ⟨r, hintake, hdrain⟩ := Option.bind_eq_some_iff.mp hsettles
  obtain ⟨hI', -⟩ := h.intake hI hintake
  have hdrains : Drains I E r.1.drain := h.drainUpTo (p := { r.1 with phase := .draining }) hI' _
  rcases hr : r.1.drain with ⟨_ | cause, q', events⟩
  · rw [hr] at hdrains hdrain
    obtain rfl : q' = q := Option.some.inj hdrain
    exact hdrains.1
  · rw [hr] at hdrain
    cases hdrain

end Invariance

end Pipeline

end StreamingJson
