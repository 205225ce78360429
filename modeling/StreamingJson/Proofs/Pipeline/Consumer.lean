import StreamingJson.Proofs.Pipeline.Serving

/-!
# What the consumer may rely on

Whatever the source and whatever the two sides do, in whichever order, a consumer receives no more
values than it asked for, then at most one terminal signal, and nothing after that. The demand that
is left is what it asked for less what it received, as long as it is bounded. For tokenizers that
are no token sources, since they never run dry by themselves, see `Pipeline.consumer_of_returns`.

## Main definitions

- `Pipeline.asked` — the demand of all requests that come before the end
- `Pipeline.Served` — what the consumer has received

## Main statements

- `Pipeline.Served.react` — a call keeps that account
- `Pipeline.served_run` — it holds of every run
- `Pipeline.consumer_protocol` — what it means for the consumer
-/

namespace StreamingJson

namespace Pipeline

/-- The demand of all requests that a pipeline meets before its end. -/
def asked {σ : Type} : List (Pipeline σ × Call) → Nat
  | [] => 0
  | (p, c) :: visits => (if p.isTerminal then 0 else c.asked) + asked visits

theorem signals_farewell (supplied : Bool) : Event.signals (farewell supplied) = [] := by
  cases supplied <;> rfl

theorem signals_asking (before after : Bool) : Event.signals (asking before after) = [] := by
  cases before <;> cases after <;> rfl

/-- What the consumer has received, and the state that belongs to it. -/
inductive Served {σ : Type} (asked : Nat) : Pipeline σ → List (Signal Value) → Prop where
  /-- Values so far, and more may come. -/
  | running {p : Pipeline σ} {values : List Value} (serving : p.Serving)
    (balance : Demand.Balanced asked values.length p.demand) :
    Served asked p (values.map .next)
  /-- Values and the terminal signal. -/
  | ended {p : Pipeline σ} {values : List Value} {t : Signal Value} (atEnd : p.AtEnd)
    (terminal : t.isTerminal = true) (phase : p.phase = phaseAfter t)
    (balance : Demand.Balanced asked values.length p.demand) :
    Served asked p (values.map .next ++ [t])
  /-- Values, and nothing more, since the consumer cancelled. -/
  | cancelled {p : Pipeline σ} {values : List Value} (atEnd : p.AtEnd)
    (phase : p.phase = .cancelled) (unasked : p.demand = 0) : Served asked p (values.map .next)

section

variable {σ : Type} {p : Pipeline σ} {total : Nat} {signals : List (Signal Value)}

/-- Progress adds values to what the consumer has received, and perhaps a terminal signal. -/
theorem Served.progress {demand : Nat} {awaiting supplied : Bool} {r : Reaction σ}
    {values : List Value} (balance : Demand.Balanced total values.length demand)
    (h : Progress demand awaiting supplied r) :
    Served total r.1 (values.map .next ++ Event.signals r.2) := by
  have hbalance {given : List Value} (covers : Demand.Covers demand given.length) :
      Demand.Balanced total (values ++ given).length (Demand.left demand given.length) := by
    rw [List.length_append]
    exact balance.spent covers
  cases h with
  | @waits q given covers left serving supply keeps =>
    have hsignals : Event.signals (deliveries given ++ asking awaiting q.awaiting) =
        given.map .next := by
      rw [Event.signals_append, signals_asking, List.append_nil]
      exact signals_deliveries given
    show Served total q (values.map .next ++ Event.signals _)
    rw [hsignals, ← List.map_append]
    exact .running serving (left ▸ hbalance covers)
  | @ends q given t terminal covers left atEnd phase =>
    have hsignals : Event.signals (deliveries given ++ (farewell supplied ++ [.deliver t])) =
        given.map .next ++ [t] := by
      rw [Event.signals_append, Event.signals_append, signals_farewell, List.nil_append]
      exact congrArg (· ++ [t]) (signals_deliveries given)
    show Served total q (values.map .next ++ Event.signals _)
    rw [hsignals, ← List.append_assoc, ← List.map_append]
    exact .ended atEnd terminal phase (left ▸ hbalance covers)

theorem Served.serving (h : Served total p signals) (hrunning : p.isTerminal = false) :
    p.Serving := by
  cases h with
  | running serving => exact serving
  | ended atEnd | cancelled atEnd => exact absurd atEnd.terminal (Bool.eq_false_iff.mp hrunning)

theorem Served.atEnd (h : Served total p signals) (hterminal : p.isTerminal = true) : p.AtEnd := by
  cases h with
  | running serving => exact absurd hterminal (Bool.eq_false_iff.mp serving.running)
  | ended atEnd | cancelled atEnd => exact atEnd

theorem Served.withheld (h : Served total p signals) (hholding : p.isHolding = true) :
    p.demand = 0 := by
  cases h with
  | running serving => exact serving.withheld hholding
  | ended atEnd | cancelled atEnd => exact absurd hholding (Bool.eq_false_iff.mp atEnd.empty)

/-- As long as demand is bounded nothing of it is lost. -/
theorem Served.balance (h : Served total p signals) (hbounded : p.demand < Demand.unbounded)
    (hphase : p.phase ≠ .cancelled) : (Signal.values signals).length + p.demand = total := by
  have hne : p.demand ≠ Demand.unbounded := Nat.ne_of_lt hbounded
  cases h with
  | running serving balance =>
    rw [Signal.values_map_next]
    exact balance.resolve_left hne
  | @ended values t atEnd terminal phase balance =>
    have hlast : Signal.values [t] = [] := by
      cases t with
      | next item => cases terminal
      | complete | error cause => rfl
    rw [Signal.values_append, Signal.values_map_next, hlast, List.append_nil]
    exact balance.resolve_left hne
  | cancelled atEnd phase => exact absurd phase hphase

/-- Values come first, and then at most one terminal signal. -/
theorem Served.exists_last (h : Served total p signals) :
    ∃ (values : List Value) (last : List (Signal Value)),
      signals = values.map .next ++ last ∧ last.length ≤ 1 ∧ ∀ t ∈ last, t.isTerminal = true := by
  cases h with
  | @running values serving balance =>
    exact ⟨values, [], (List.append_nil _).symm, Nat.zero_le _, fun _ ht => nomatch ht⟩
  | @ended values t atEnd terminal phase balance =>
    refine ⟨values, [t], rfl, Nat.le_refl _, fun s hs => ?_⟩
    rw [List.mem_singleton.mp hs]
    exact terminal
  | @cancelled values atEnd phase unasked =>
    exact ⟨values, [], (List.append_nil _).symm, Nat.zero_le _, fun _ ht => nomatch ht⟩

/-- A terminal signal belongs to the phase. -/
theorem Served.phase_of_mem (h : Served total p signals) {t : Signal Value}
    (hterminal : t.isTerminal = true) (hmem : t ∈ signals) : p.phase = phaseAfter t := by
  cases h with
  | running serving => exact absurd hmem (Signal.not_mem_map_next hterminal _)
  | ended atEnd terminal phase balance =>
    have hlast := (List.mem_append.mp hmem).resolve_left (Signal.not_mem_map_next hterminal _)
    rw [List.mem_singleton.mp hlast]
    exact phase
  | cancelled atEnd phase => exact absurd hmem (Signal.not_mem_map_next hterminal _)

/-- A pipeline at its end has sent a terminal signal, unless the consumer cancelled. -/
theorem Served.exists_mem (h : Served total p signals)
    (hphase : p.phase = .completed ∨ p.phase = .failed) :
    ∃ t ∈ signals, t.isTerminal = true ∧ p.phase = phaseAfter t := by
  cases h with
  | running serving =>
    have hrunning := serving.running
    rcases hphase with hphase | hphase <;> (rw [isTerminal, hphase] at hrunning; cases hrunning)
  | ended atEnd terminal phase balance =>
    exact ⟨_, List.mem_append_right _ (List.mem_singleton_self _), terminal, phase⟩
  | cancelled atEnd phase =>
    rw [phase] at hphase
    rcases hphase with hphase | hphase <;> cases hphase

theorem Served.complete_mem_iff (h : Served total p signals) :
    .complete ∈ signals ↔ p.phase = .completed := by
  constructor
  · intro hmem
    exact h.phase_of_mem rfl hmem
  · intro hphase
    obtain ⟨t, hmem, hterminal, ht⟩ := h.exists_mem (.inl hphase)
    rw [hphase] at ht
    cases t with
    | next item => cases hterminal
    | complete => exact hmem
    | error cause => cases ht

theorem Served.error_mem_iff (h : Served total p signals) :
    (∃ cause, .error cause ∈ signals) ↔ p.phase = .failed := by
  constructor
  · rintro ⟨cause, hmem⟩
    exact h.phase_of_mem rfl hmem
  · intro hphase
    obtain ⟨t, hmem, hterminal, ht⟩ := h.exists_mem (.inr hphase)
    rw [hphase] at ht
    cases t with
    | next item => cases hterminal
    | complete => cases ht
    | error cause => exact ⟨cause, hmem⟩

/-- An unbounded demand stays unbounded, unless the consumer cancels. -/
theorem Response.demand_of_unbounded {c : Call} {r : Reaction σ} (h : Response p c r)
    (hdemand : p.demand = Demand.unbounded) :
    r.1.demand = Demand.unbounded ∨
      c = .cancel ∧ r.1.phase = .cancelled ∧ r.1.demand = 0 := by
  have hadd : Demand.add p.demand c.asked = Demand.unbounded := by
    rw [hdemand, Demand.add]
    omega
  cases h with
  | served progress =>
    rw [hadd] at progress
    cases progress with
    | waits covers left | ends terminal covers left =>
      rw [Demand.left_unbounded] at left
      exact .inl left
  | cancelled call atEnd phase unasked => exact .inr ⟨call, phase, unasked⟩

/-! ### Runs -/

variable [TokenSource σ]

/-- A call keeps the account of what the consumer has received. -/
theorem Served.react (h : Served total p signals) (c : Call) :
    Served (total + if p.isTerminal then 0 else c.asked) (p.react c).1
      (signals ++ Event.signals (p.react c).2) := by
  cases hterminal : p.isTerminal with
  | true =>
    rw [react_of_isTerminal hterminal, if_pos rfl]
    exact (List.append_nil signals).symm ▸ h
  | false =>
    rw [if_neg Bool.false_ne_true]
    cases h with
    | running serving balance =>
      have hresponse := serving.response_react c
      generalize p.react c = r at hresponse
      cases hresponse with
      | served progress => exact .progress (balance.add c.asked) progress
      | cancelled call atEnd phase unasked =>
        rw [signals_farewell, List.append_nil]
        exact .cancelled atEnd phase unasked
    | ended atEnd | cancelled atEnd =>
      exact absurd atEnd.terminal (Bool.eq_false_iff.mp hterminal)

theorem Served.run (h : Served total p signals) (calls : List Call) :
    Served (total + asked (p.visits calls)) (p.run calls).1
      (signals ++ Event.signals (p.run calls).2) := by
  induction calls generalizing p total signals with
  | nil => exact (List.append_nil signals).symm ▸ h
  | cons c cs ih =>
    have hlater := ih (h.react c)
    rw [Nat.add_assoc, List.append_assoc, ← Event.signals_append] at hlater
    exact hlater

/-- A run delivers what its calls call for. -/
theorem served_run (source : σ) (options : Options) (calls : List Call) :
    Served (asked ((new source options).visits calls)) ((new source options).run calls).1
      (Event.signals ((new source options).run calls).2) := by
  have hnew : Served 0 (new source options) (([] : List Value).map .next) :=
    .running (serving_new source options) (.inr rfl)
  have hrun := hnew.run calls
  rwa [Nat.zero_add, List.map_nil, List.nil_append] at hrun

theorem Served.run_of_unbounded (h : Served total p signals) (hdemand : p.demand = Demand.unbounded)
    (calls : List Call) :
    (p.run calls).1.demand = Demand.unbounded ∨
      .cancel ∈ calls ∧ (p.run calls).1.phase = .cancelled ∧ (p.run calls).1.demand = 0 := by
  induction calls generalizing p total signals with
  | nil => exact .inl hdemand
  | cons c cs ih =>
    by_cases hterminal : p.isTerminal = true
    · rw [run_of_isTerminal hterminal]
      exact .inl hdemand
    · have hserving := h.serving (Bool.eq_false_iff.mpr hterminal)
      show ((p.react c).1.run cs).1.demand = _ ∨
        _ ∧ ((p.react c).1.run cs).1.phase = _ ∧ ((p.react c).1.run cs).1.demand = 0
      rcases (hserving.response_react c).demand_of_unbounded hdemand with hunbounded | hcancelled
      · refine (ih (h.react c) hunbounded).imp_right ?_
        rintro ⟨hmem, hlater⟩
        exact ⟨List.mem_cons_of_mem c hmem, hlater⟩
      · obtain ⟨rfl, hphase, hzero⟩ := hcancelled
        have hover : (p.react .cancel).1.isTerminal = true := by rw [isTerminal, hphase]; rfl
        rw [run_of_isTerminal hover]
        exact .inr ⟨List.mem_cons_self, hphase, hzero⟩

/-- Whatever the source and whatever the two sides call in whichever order: as long as the demand is
bounded and the consumer did not cancel, the number of values delivered and the demand add up to
what was asked for, and an unbounded demand is taken back only by cancelling; a value is held back
only where there is no demand; the signals are values and then at most one terminal signal, which
tells the phase; and at the end nothing is held back or awaited, and no call has any effect. -/
theorem consumer_protocol (source : σ) (options : Options) (calls : List Call) :
    let run := (new source options).run calls
    let signals := Event.signals run.2
    (run.1.demand < Demand.unbounded → run.1.phase ≠ .cancelled →
        (Signal.values signals).length + run.1.demand =
          asked ((new source options).visits calls)) ∧
      (run.1.demand = Demand.unbounded → ∀ later,
        (run.1.run later).1.demand = Demand.unbounded ∨
          .cancel ∈ later ∧ (run.1.run later).1.phase = .cancelled ∧
            (run.1.run later).1.demand = 0) ∧
      (run.1.isHolding = true → run.1.demand = 0) ∧
      (∃ (values : List Value) (last : List (Signal Value)),
        signals = values.map .next ++ last ∧ last.length ≤ 1 ∧ ∀ t ∈ last, t.isTerminal = true) ∧
      (.complete ∈ signals ↔ run.1.phase = .completed) ∧
      ((∃ cause, .error cause ∈ signals) ↔ run.1.phase = .failed) ∧
      (run.1.isTerminal = true →
        run.1.isHolding = false ∧ run.1.awaiting = false ∧
          ∀ later, run.1.run later = (run.1, [])) := by
  intro run signals
  have hserved := served_run source options calls
  refine ⟨hserved.balance, hserved.run_of_unbounded, hserved.withheld, hserved.exists_last,
    hserved.complete_mem_iff, hserved.error_mem_iff, ?_⟩
  intro hterminal
  have hover := hserved.atEnd hterminal
  exact ⟨hover.empty, hover.idle, run_of_isTerminal hterminal⟩

end

end Pipeline

end StreamingJson
