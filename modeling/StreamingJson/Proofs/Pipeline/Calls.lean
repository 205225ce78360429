import StreamingJson.Proofs.Pipeline.Conformance

/-!
# Calls keep a pipeline conforming

Each call that the two sides may make takes a conforming pipeline to a conforming one: a request
adds to the demand, a chunk to the yield, and the end of the supply is noted. What a conforming
pipeline shows to the outside can be read off the yield, the demand and that note.

## Main definitions

- `Yield.sent` — the signals that a yield calls for under a demand
- `Yield.phase` — the phase it calls for

## Main statements

- `Pipeline.Conforms.request`, `Pipeline.Conforms.takeChunk`, `Pipeline.Conforms.endSupply` — calls
  keep conformance
- `Pipeline.Conforms.sent_eq`, `Pipeline.Conforms.phase_eq`, `Pipeline.Conforms.demand_eq`,
  `Pipeline.Conforms.isHolding_eq` — what a conforming pipeline shows
-/

namespace StreamingJson

namespace Yield

/-- The signals that a yield calls for under a total demand: the values as far as the demand
extends, and the terminal signal once they are all delivered. -/
def sent (y : Yield Lexer) (demand : Nat) (ended : Bool) : List (Signal Value) :=
  if Demand.Covers demand y.values.length then
    y.values.map .next ++ (y.verdict ended).toList
  else (y.values.take demand).map .next

/-- The phase that a yield calls for under a total demand. -/
def phase (y : Yield Lexer) (demand : Nat) (ended : Bool) : Pipeline.Phase :=
  if Demand.Covers demand y.values.length then
    match y.verdict ended, y.ending with
    | some t, _ => Pipeline.phaseAfter t
    | none, .dry l _ =>
      if Demand.left demand y.values.length ≠ 0 || l.isMidValue then .awaitingChunk else .idle
    | none, _ => .idle
  else .holding

end Yield

namespace Pipeline

namespace Conforms

variable {y : Yield Lexer} {demand : Nat} {ended : Bool} {p : Pipeline Lexer}
  {sent : List (Signal Value)}

/-! ### What a conforming pipeline shows -/

theorem not_covers_of_split {given rest : List Value} {v : Value}
    (values : y.values = given ++ v :: rest) (met : given.length = demand)
    (bounded : demand ≠ Demand.unbounded) : ¬Demand.Covers demand y.values.length := by
  rintro (h | h)
  · exact bounded h
  · rw [values, List.length_append, List.length_cons, met] at h
    omega

theorem sent_eq (h : Conforms y demand ended p sent) : sent = y.sent demand ended := by
  unfold Yield.sent
  cases h with
  | holding values met bounded =>
    rw [if_neg (not_covers_of_split values met bounded), values, ← met, List.take_left]
  | finished verdict covers =>
    rw [if_pos covers, verdict]
    rfl
  | waiting ending read covers outlet phase awaiting supply unended =>
    have hverdict : y.verdict ended = none := by simp [Yield.verdict, ending, unended]
    rw [if_pos covers, hverdict, Option.toList_none, List.append_nil]

theorem phase_eq (h : Conforms y demand ended p sent) : p.phase = y.phase demand ended := by
  unfold Yield.phase
  cases h with
  | holding values met bounded residue outlet phase =>
    rw [if_neg (not_covers_of_split values met bounded), phase]
  | finished verdict covers outlet phase =>
    rw [if_pos covers, verdict, phase]
  | waiting ending read covers outlet phase awaiting supply unended =>
    have hverdict : y.verdict ended = none := by simp [Yield.verdict, ending, unended]
    have hdemand : p.demand = Demand.left demand y.values.length := congrArg Outlet.demand outlet
    rw [if_pos covers, hverdict, ending, phase, awaiting, hdemand]

theorem demand_eq (h : Conforms y demand ended p sent) :
    p.demand = Demand.left demand y.values.length := by
  cases h with
  | holding values met bounded residue outlet =>
    rw [Demand.left_of_not_covers (not_covers_of_split values met bounded), Pipeline.demand, outlet]
  | finished verdict covers outlet => rw [Pipeline.demand, outlet]
  | waiting ending read covers outlet => rw [Pipeline.demand, outlet]

theorem isHolding_eq (h : Conforms y demand ended p sent) :
    p.isHolding = decide ¬Demand.Covers demand y.values.length := by
  unfold isHolding Outlet.isBlocked
  cases h with
  | holding values met bounded residue outlet =>
    simp [outlet, not_covers_of_split values met bounded]
  | finished verdict covers outlet => simp [outlet, covers]
  | waiting ending read covers outlet => simp [outlet, covers]

/-- A pipeline that waits for a chunk has delivered all values and no terminal signal. -/
theorem waiting_of_awaiting (h : Conforms y demand ended p sent) (hawaiting : p.awaiting = true) :
    y.ending = .dry p.source p.builder ∧ p.source.unread = [] ∧
      Demand.Covers demand y.values.length ∧
      p.outlet = { demand := Demand.left demand y.values.length } ∧ p.supplyDone = ended ∧
      p.rootClosed = false ∧ p.isTerminal = false ∧ sent = y.values.map .next := by
  cases h with
  | holding values met bounded residue outlet phase awaiting =>
    rw [awaiting] at hawaiting
    cases hawaiting
  | finished verdict covers outlet phase awaiting =>
    rw [awaiting] at hawaiting
    cases hawaiting
  | waiting ending read covers outlet phase awaiting supply unended rootOpen =>
    have hterminal : p.isTerminal = false := by
      simp [isTerminal, phase, hawaiting, Phase.isTerminal]
    exact ⟨ending, read, covers, outlet, supply, rootOpen, hterminal, rfl⟩

theorem terminal_of_verdict {t : Signal Value} (phase : p.phase = phaseAfter t) :
    p.isTerminal = true := by
  unfold isTerminal
  rw [phase]
  cases t <;> rfl

/-! ### Calls -/

/-- A request adds to the demand, unless all is over. -/
theorem request (h : Conforms y demand ended p sent) {n : Nat} (hn : 0 < n)
    (hsum : demand + n < Demand.unbounded ∨ demand = 0) :
    Conforms y (if p.isTerminal then demand else Demand.add demand n) ended (p.request n).1
      (sent ++ (p.request n).2.filterMap Event.signal?) := by
  have hle : demand ≤ Demand.unbounded := by
    unfold Demand.unbounded at *
    omega
  have hadd : Demand.add demand n ≤ Demand.unbounded := Demand.add_le demand n
  have hzero : n ≠ 0 := Nat.ne_of_gt hn
  cases h with
  | @holding given v rest values met bounded residue outlet phase awaiting supply rootOpen =>
    -- the value that waits goes out first, and the rest is made under what demand remains
    have hterminal : p.isTerminal = false := by simp [isTerminal, phase, Phase.isTerminal]
    have hcovers : Demand.Covers (Demand.add demand n) (given ++ [v]).length := by
      rw [List.length_append, List.length_singleton, met]
      exact Demand.Covers.succ_add hn (by omega)
    have hrequest : p.request n =
        andThen ({ p with outlet := { demand := Demand.spend (Demand.add 0 n) } },
          [.deliver (.next v)]) advance := by
      have hne : Demand.add 0 n ≠ 0 := by
        unfold Demand.add Demand.unbounded
        omega
      simp [Pipeline.request, hterminal, hzero, deliver, Outlet.request, outlet, hne]
    have hspend : Demand.spend (Demand.add 0 n) =
        Demand.left (Demand.add demand n) (given ++ [v]).length := by
      have hfirst : Demand.left demand given.length = 0 := by
        rw [met, Demand.left, if_neg bounded, Nat.sub_self]
      have hsplit := Demand.left_add hadd given.length 1
      rw [← Demand.add_left (.inr (Nat.le_of_eq met)) hsum, hfirst,
        Demand.left_one (Demand.add_le 0 n)] at hsplit
      rw [List.length_append, List.length_singleton, hsplit]
    have hvalues : y.values = (given ++ [v]) ++ rest := by
      rw [values, List.append_assoc]
      rfl
    have hconforms := conforms_advance
      (p := { p with outlet := { demand := Demand.spend (Demand.add 0 n) } }) hvalues residue
      hcovers hadd (by rw [hspend]) supply rootOpen (fun h => by rw [awaiting] at h; cases h)
    rw [hrequest, hterminal, andThen_fst, andThen_snd, List.filterMap_append]
    simpa [Event.signal?] using hconforms
  | @finished t verdict covers outlet phase awaiting =>
    have hterminal := terminal_of_verdict phase
    have hrequest : p.request n = (p, []) := by simp [Pipeline.request, hterminal]
    rw [hrequest, hterminal, List.filterMap_nil, List.append_nil]
    exact .finished verdict covers outlet phase awaiting
  | waiting ending read covers outlet phase awaiting supply unended rootOpen =>
    have hterminal : p.isTerminal = false := by
      rw [isTerminal, phase]
      split <;> rfl
    have hleft := Demand.add_left covers hsum
    have hrequest : p.request n =
        andThen
          ({ p with outlet := { demand := Demand.left (Demand.add demand n) y.values.length } }, [])
          advance := by
      simp [Pipeline.request, hterminal, hzero, deliver, Outlet.request, outlet, hleft]
    -- a chunk that is awaited was asked for rightly, since there is demand
    have hne : Demand.left (Demand.add demand n) y.values.length ≠ 0 := by
      rw [← hleft]
      unfold Demand.add Demand.unbounded
      omega
    have hconforms := conforms_advance
      (p := { p with outlet := { demand := Demand.left (Demand.add demand n) y.values.length } })
      (List.append_nil y.values).symm (by rw [ending]; exact Lexer.yield_of_unread read _)
      (covers.add_demand n) hadd rfl supply rootOpen (fun _ => ⟨unended, read, .inl hne⟩)
    rw [hrequest, hterminal, andThen_fst, andThen_snd, List.nil_append]
    exact hconforms

/-- A chunk that was asked for adds to the yield. -/
theorem takeChunk (h : Conforms y demand ended p sent) (hle : demand ≤ Demand.unbounded)
    (hawaiting : p.awaiting = true) (chunk : List UInt8) :
    Conforms (y.feed chunk) demand ended (p.takeChunk chunk).1
      (sent ++ (p.takeChunk chunk).2.filterMap Event.signal?) := by
  obtain ⟨ending, read, covers, outlet, supply, rootOpen, hterminal, rfl⟩ :=
    h.waiting_of_awaiting hawaiting
  have hchunk : p.takeChunk chunk =
      { p with awaiting := false, source := p.source.renewed.loaded chunk }.advance := by
    simp [Pipeline.takeChunk, hterminal, hawaiting, Lexer.accept_of_unread read]
  have hfeed : y.feed chunk =
      (TokenSource.yield (p.source.renewed.loaded chunk) p.builder).prepend y.values := by
    rw [Yield.feed, ending]
  rw [hchunk, hfeed]
  exact conforms_advance rfl rfl covers hle outlet supply rootOpen (fun h => by cases h)

theorem endSupply (h : Conforms y demand ended p sent) (hle : demand ≤ Demand.unbounded) :
    Conforms y demand true p.endSupply.1 (sent ++ p.endSupply.2.filterMap Event.signal?) := by
  cases h with
  | @holding given v rest values met bounded residue outlet phase awaiting supply rootOpen =>
    -- a value waits, so that nothing happens but for the note
    have hholding : (p.isHolding || p.rootClosed) = true := by
      simp [isHolding, Outlet.isBlocked, outlet]
    have hterminal : p.isTerminal = false := by simp [isTerminal, phase, Phase.isTerminal]
    have hdrain : { p with supplyDone := true, awaiting := false }.drain =
        (none, { p with supplyDone := true, awaiting := false, phase := .draining }, []) :=
      drainUpTo_stopped (p := { p with supplyDone := true, awaiting := false, phase := .draining })
        hholding _
    have hend : p.endSupply =
        ({ p with supplyDone := true, awaiting := false, phase := .holding }, []) := by
      simp only [Pipeline.endSupply, hterminal, Bool.false_eq_true, if_false]
      rw [advance_of_drain hdrain]
      simp [andThen, settle, isHolding, Outlet.isBlocked, outlet]
    rw [hend, List.filterMap_nil, List.append_nil]
    exact .holding values met bounded residue outlet rfl rfl rfl rootOpen
  | @finished t verdict covers outlet phase awaiting =>
    have hterminal := terminal_of_verdict phase
    have hend : p.endSupply = (p, []) := by simp [Pipeline.endSupply, hterminal]
    have hverdict : y.verdict true = some t := by
      cases ended with
      | true => exact verdict
      | false => exact Yield.verdict_ended verdict
    rw [hend, List.filterMap_nil, List.append_nil]
    exact .finished hverdict covers outlet phase awaiting
  | waiting ending read covers outlet phase awaiting supply unended rootOpen =>
    have hterminal : p.isTerminal = false := by
      rw [isTerminal, phase]
      split <;> rfl
    have hend : p.endSupply = { p with supplyDone := true, awaiting := false }.advance := by
      simp [Pipeline.endSupply, hterminal]
    rw [hend]
    exact conforms_advance (p := { p with supplyDone := true, awaiting := false })
      (List.append_nil y.values).symm (by rw [ending]; exact Lexer.yield_of_unread read _) covers
      hle outlet rfl rootOpen (fun h => by cases h)

end Conforms

end Pipeline

end StreamingJson
