import StreamingJson.Proofs.Outcome

/-!
# Sessions at work

Whoever drives a session takes the signals out of its inbox. What the session has still to give is
then a yield of its own: the rest of what the chunks yield, to which the pipeline conforms as if
nothing had been delivered before. Here each call to such a session is described by the yield that
it had and by what it puts into the inbox. No bound on the demand made so far is needed, since only
the demand that is left counts.

## Main definitions

- `Yield.early` — the signals that a yield calls for while more chunks may come
- `Yield.closing` — the terminal signal that it calls for once they have ended or failed
- `Session.Working` — a session whose pipeline has still to deliver a yield
- `Session.Comes` — a session that has just made all the progress it can towards a yield

## Main statements

- `Session.comes_of_conforms` — such progress leaves a session at its end or at work on the rest
- `Session.Working.request`, `Session.Working.chunk`, `Session.Working.supplyEnded`,
  `Session.Working.supplyFailed` — what calls do to a session at work
-/

namespace StreamingJson

namespace Yield

/-- The signals that a yield calls for under unbounded demand, while more chunks may come. -/
def early (y : Yield Lexer) : List (Signal Value) :=
  y.values.map .next ++ (y.verdict false).toList

/-- The terminal signal that a yield calls for once the supply has ended or has failed. An end that
was reached before stands. -/
def closing (y : Yield Lexer) (failure : Option String) : Option (Signal Value) :=
  match y.verdict false, failure with
  | some t, _ => some t
  | none, none => y.verdict true
  | none, some message => some (.error (.supplier message))

theorem closing_of_verdict {y : Yield Lexer} {t : Signal Value} (h : y.verdict false = some t)
    (failure : Option String) : y.closing failure = some t := by
  simp only [closing, h]

theorem early_prepend (y : Yield Lexer) (vs : List Value) :
    (y.prepend vs).early = vs.map .next ++ y.early := by
  simp [early, prepend, verdict]

theorem early_dry (l : Lexer) (b : Builder) : early ⟨[], .dry l b⟩ = [] := rfl

end Yield

namespace Session

open Pipeline (Conforms)

variable {y : Yield Lexer} {s : Session Lexer}

/-- A session at work: its pipeline has still to deliver the yield, and none of it is delivered. -/
structure Working (y : Yield Lexer) (s : Session Lexer) : Prop where
  conforms : Conforms y s.pipeline.demand false s.pipeline []
  bounded : s.pipeline.demand ≤ Demand.unbounded
  paced : s.Paced

/-- What a session comes to that makes all the progress it can towards a yield, under the given
demand and with an inbox that was empty. -/
inductive Comes (y : Yield Lexer) (demand : Nat) (s : Session Lexer) : Prop where
  /-- All of it is delivered, and the session is at its end. -/
  | ends {t : Signal Value} (verdict : y.verdict false = some t)
    (inbox : s.inbox.signals = y.values.map .next ++ [t])
    (terminal : s.pipeline.isTerminal = true)
  /-- Some values are delivered, and the session is at work on the rest. -/
  | goes {given rest : List Value} (values : y.values = given ++ rest)
    (inbox : s.inbox.signals = given.map .next)
    (left : s.pipeline.demand = Demand.left demand given.length)
    (working : Working ⟨rest, y.ending⟩ s)

/-- A conforming pipeline conforms to what is left of its yield, as if that were all of it. -/
theorem comes_of_conforms {demand : Nat}
    (h : Conforms y demand false s.pipeline s.inbox.signals) (hle : demand ≤ Demand.unbounded)
    (hpaced : s.Paced) : Comes y demand s := by
  generalize hinbox : s.inbox.signals = sent at h
  cases h with
  | @holding given v rest values met bounded residue outlet phase awaiting supply rootOpen =>
    have hdemand : s.pipeline.demand = 0 := congrArg Outlet.demand outlet
    have hleft : Demand.left demand given.length = 0 := by
      rw [met, Demand.left, if_neg bounded, Nat.sub_self]
    have hconforms : Conforms ⟨v :: rest, y.ending⟩ 0 false s.pipeline
        (([] : List Value).map .next) :=
      .holding rfl rfl (by decide) residue outlet phase awaiting supply rootOpen
    exact .goes values hinbox (hdemand.trans hleft.symm)
      ⟨hdemand ▸ hconforms, by omega, hpaced⟩
  | finished verdict covers outlet phase =>
    exact .ends verdict hinbox (Conforms.terminal_of_verdict phase)
  | waiting ending read covers outlet phase awaiting supply unended rootOpen =>
    have hdemand : s.pipeline.demand = Demand.left demand y.values.length :=
      congrArg Outlet.demand outlet
    have houtlet : s.pipeline.outlet = { demand := Demand.left s.pipeline.demand 0 } := by
      rw [hdemand, Demand.left_zero, outlet]
    have hconforms : Conforms ⟨[], y.ending⟩ s.pipeline.demand false s.pipeline
        (([] : List Value).map .next) :=
      .waiting ending read (Demand.covers_zero _) houtlet phase awaiting supply rfl rootOpen
    have hbounded : s.pipeline.demand ≤ Demand.unbounded := by
      rw [hdemand]
      exact Demand.left_le hle _
    exact .goes (List.append_nil _).symm hinbox hdemand ⟨hconforms, hbounded, hpaced⟩

namespace Working

/-- A pipeline that has delivered nothing has delivered no terminal signal. -/
theorem running (h : Working y s) :
    s.pipeline.isTerminal = false ∧ s.pipeline.rootClosed = false ∧
      s.pipeline.outlet.closed = false := by
  have hconforms := h.conforms
  generalize hsent : ([] : List (Signal Value)) = sent at hconforms
  cases hconforms with
  | holding values met bounded residue outlet phase awaiting supply rootOpen =>
    exact ⟨by rw [Pipeline.isTerminal, phase]; rfl, rootOpen, by rw [outlet]⟩
  | finished => exact absurd hsent (by simp)
  | waiting ending read covers outlet phase awaiting supply unended rootOpen =>
    refine ⟨?_, rootOpen, by rw [outlet]⟩
    rw [Pipeline.isTerminal, phase]
    split <;> rfl

/-- Where demand is left nothing is: all bytes are read, and a chunk was asked for. -/
theorem wants (h : Working y s) (hne : s.pipeline.demand ≠ 0) :
    y = ⟨[], .dry s.pipeline.source s.pipeline.builder⟩ ∧ s.pipeline.source.unread = [] ∧
      s.pipeline.isHolding = false ∧ s.pipeline.awaiting = true := by
  have hconforms := h.conforms
  generalize hsent : ([] : List (Signal Value)) = sent at hconforms
  cases hconforms with
  | holding values met bounded residue outlet =>
    exact absurd (congrArg Outlet.demand outlet) hne
  | finished => exact absurd hsent (by simp)
  | waiting ending read covers outlet phase awaiting =>
    have hvalues : y.values = [] := List.map_eq_nil_iff.mp hsent.symm
    have hyield : y = ⟨y.values, y.ending⟩ := rfl
    refine ⟨by rw [hyield, hvalues, ending], read, ?_, ?_⟩
    · rw [Pipeline.isHolding, Outlet.isBlocked, outlet]
      rfl
    · rw [awaiting]
      simp [hne]

/-- The request that a session at work has open where demand is left. -/
theorem wanted_eq_one (h : Working y s) (hne : s.pipeline.demand ≠ 0) :
    s.subscription.wanted = 1 := by
  obtain ⟨-, hwanted⟩ := h.paced h.running.1
  rw [hwanted, (h.wants hne).2.2.2, if_pos rfl]

/-- A request where no demand is left. -/
theorem request (h : Working y s) (hinbox : s.inbox.signals = [])
    (hdemand : s.pipeline.demand = 0) : Comes y 1 (s.call (.request 1)) := by
  obtain ⟨hcancelled, hwanted⟩ := h.paced h.running.1
  have hconforms := h.conforms.request (n := 1) (by decide) (.inr hdemand)
  rw [h.running.1, if_neg Bool.false_ne_true, hdemand] at hconforms
  have hreact : s.pipeline.react (.request 1) =
      Pipeline.andThen (s.pipeline.deliver (s.pipeline.outlet.request 1)) Pipeline.advance := by
    simp [Pipeline.react, Pipeline.request, h.running.1]
  have hsignals : (s.call (.request 1)).inbox.signals =
      [] ++ (s.pipeline.react (.request 1)).2.filterMap Event.signal? := by
    rw [← hinbox]
    rfl
  refine comes_of_conforms (by rw [hsignals]; exact hconforms) (by decide) ?_
  exact paced_call hreact (Pipeline.observe_deliver _) hcancelled hwanted

/-- A chunk that is asked for. -/
theorem chunk (h : Working y s) (hinbox : s.inbox.signals = []) (hne : s.pipeline.demand ≠ 0)
    (bytes : List UInt8) :
    Comes (y.feed bytes) s.pipeline.demand (s.takeRequest.2.call (.chunk bytes)) := by
  have hconforms := h.conforms
  rw [← hinbox] at hconforms
  obtain ⟨-, hfed, hpaced⟩ :=
    supply_chunk hconforms h.bounded h.paced (h.wants hne).2.2.2 bytes
  exact comes_of_conforms hfed h.bounded hpaced

/-- The end of the supply where a chunk is asked for. -/
theorem supplyEnded (h : Working y s) (hinbox : s.inbox.signals = [])
    (hne : s.pipeline.demand ≠ 0) :
    ∃ t, y.verdict true = some t ∧
      (s.takeRequest.2.call .supplyEnded).inbox.signals = [t] ∧
      (s.takeRequest.2.call .supplyEnded).pipeline.isTerminal = true := by
  obtain ⟨hyield, -⟩ := h.wants hne
  have hended := h.conforms.endSupply h.bounded
  have hsignals : (s.takeRequest.2.call .supplyEnded).inbox.signals =
      [] ++ s.pipeline.endSupply.2.filterMap Event.signal? := by
    rw [← hinbox]
    rfl
  rw [← hsignals] at hended
  -- with the end of the supply nothing is waited for
  generalize (s.takeRequest.2.call .supplyEnded).inbox.signals = sent at hended ⊢
  cases hended with
  | holding values => exact absurd values (by simp [hyield])
  | @finished t verdict covers outlet phase =>
    exact ⟨t, verdict, by simp [hyield], Conforms.terminal_of_verdict phase⟩
  | waiting ending read covers outlet phase awaiting supply unended => cases unended

/-- The failure of the supply. -/
theorem supplyFailed (h : Working y s) (hinbox : s.inbox.signals = []) (message : String) :
    (s.takeRequest.2.call (.supplyFailed message)).inbox.signals = [.error (.supplier message)] ∧
      (s.takeRequest.2.call (.supplyFailed message)).pipeline.isTerminal = true := by
  obtain ⟨hrunning, -, hopen⟩ := h.running
  obtain ⟨hsignals, hterminal⟩ := Pipeline.failSupply_of_running hrunning hopen message
  refine ⟨?_, hterminal⟩
  have hreceived : (s.takeRequest.2.call (.supplyFailed message)).inbox.signals =
      [] ++ (s.pipeline.failSupply message).2.filterMap Event.signal? := by
    rw [← hinbox]
    rfl
  rw [hreceived, hsignals, List.nil_append]

end Working

end Session

end StreamingJson
