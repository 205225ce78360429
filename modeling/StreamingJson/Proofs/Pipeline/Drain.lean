import StreamingJson.Pipeline
import StreamingJson.Proofs.Demand
import StreamingJson.Proofs.Pipeline.Yield

/-!
# Draining under demand

A pipeline turns tokens into values one at a time and stops as soon as a value has to wait for
demand. Here one call of the drain is described by the yield of the source and the builder and by
the demand: it delivers the yield as far as the demand extends, and holds the next value back.

## Main definitions

- `Pipeline.Drained` — what a drain does with a yield

## Main statements

- `Pipeline.drained_drainUpTo` — the drain does that, whatever the source
- `Pipeline.drainUpTo_stopped` — where a value is held back the drain does nothing
-/

namespace StreamingJson

/-- The events that deliver values. -/
def deliveries (values : List Value) : List Event :=
  values.map fun v => .deliver (.next v)

@[simp]
theorem signals_deliveries (values : List Value) :
    (deliveries values).filterMap Event.signal? = values.map .next := by
  induction values with
  | nil => rfl
  | cons v vs ih => simpa [deliveries, Event.signal?] using ih

namespace Pipeline

variable {σ : Type} [TokenSource σ]

/-- What a drain of the pipeline `p` does where its source and builder yield `y`. Outside source,
builder and outlet nothing changes, but for the mark that the root array is closed. -/
inductive Drained (p : Pipeline σ) (y : Yield σ) : Option Error × Reaction σ → Prop where
  /-- Demand ends before the values do: the next value is held back. -/
  | held {s : σ} {b : Builder} {given : List Value} {v : Value} {rest : List Value}
    (values : y.values = given ++ v :: rest) (met : given.length = p.outlet.demand)
    (bounded : p.outlet.demand ≠ Demand.unbounded)
    (residue : TokenSource.yield s b = ⟨rest, y.ending⟩) :
    Drained p y (none,
      { p with source := s, builder := b, outlet := { demand := 0, held := some v } },
      deliveries given)
  /-- All values are delivered before an error. -/
  | failed {s : σ} {b : Builder} {cause : Error} (ending : y.ending = .failed cause)
    (covers : Demand.Covers p.outlet.demand y.values.length) :
    Drained p y (some cause,
      { p with
        source := s, builder := b
        outlet := { demand := Demand.left p.outlet.demand y.values.length } },
      deliveries y.values)
  /-- All values are delivered before the streamed root array closes. -/
  | closed {s : σ} {b : Builder} (ending : y.ending = .closed)
    (covers : Demand.Covers p.outlet.demand y.values.length) :
    Drained p y (none,
      { p with
        source := s, builder := b
        outlet := { demand := Demand.left p.outlet.demand y.values.length }
        rootClosed := true },
      deliveries y.values)
  /-- All values are delivered and the source runs dry. -/
  | dry {s : σ} {b : Builder} (ending : y.ending = .dry s b)
    (covers : Demand.Covers p.outlet.demand y.values.length) :
    Drained p y (none,
      { p with
        source := s, builder := b
        outlet := { demand := Demand.left p.outlet.demand y.values.length } },
      deliveries y.values)

namespace Drained

variable {p : Pipeline σ} {y : Yield σ} {r : Option Error × Reaction σ}

/-- Draining does not depend on source and builder other than by what they yield. -/
theorem of_advanced {s : σ} {b : Builder} (h : Drained { p with source := s, builder := b } y r) :
    Drained p y r := by
  cases h with
  | held values met bounded residue => exact .held values met bounded residue
  | failed ending covers => exact .failed ending covers
  | closed ending covers => exact .closed ending covers
  | dry ending covers => exact .dry ending covers

theorem of_delivered {s : σ} {b : Builder} {v : Value} (hne : p.outlet.demand ≠ 0)
    (hle : p.outlet.demand ≤ Demand.unbounded)
    (h : Drained
      { p with source := s, builder := b, outlet := { demand := Demand.spend p.outlet.demand } }
      y r) :
    Drained p (y.prepend [v]) (r.1, r.2.1, .deliver (.next v) :: r.2.2) := by
  have hleft := Demand.left_succ hle y.values.length
  cases h with
  | @held s b given w rest values met bounded residue =>
    have hvalues : (y.prepend [v]).values = (v :: given) ++ w :: rest :=
      congrArg (v :: ·) values
    -- the bound is not met, so that one item was in fact taken off the demand
    refine .held hvalues ?_ ?_ residue
    · rw [List.length_cons, met]
      simp only [Demand.spend] at bounded ⊢
      split at bounded
      · contradiction
      next hd => rw [if_neg hd, Nat.sub_add_cancel (Nat.pos_of_ne_zero hne)]
    · intro hd
      exact bounded (by simp [Demand.spend, hd])
  | failed ending covers =>
    dsimp only
    rw [← hleft]
    exact .failed ending (covers.succ hne hle)
  | closed ending covers =>
    dsimp only
    rw [← hleft]
    exact .closed ending (covers.succ hne hle)
  | dry ending covers =>
    dsimp only
    rw [← hleft]
    exact .dry ending (covers.succ hne hle)

end Drained

/-- Where a value is held back or the root array is closed the drain does nothing. -/
theorem drainUpTo_stopped {p : Pipeline σ} (h : (p.isHolding || p.rootClosed) = true) (fuel : Nat) :
    drainUpTo fuel p = (none, p, []) := by
  cases fuel with
  | zero => rfl
  | succ fuel => simp only [drainUpTo, h, if_true]

section

variable {p : Pipeline σ} {s : σ} {b : Builder} {token : Token}
  (hgoes : (p.isHolding || p.rootClosed) = false) (fuel : Nat)

include hgoes

theorem drainUpTo_fault {fault : LexicalFault}
    (hnext : TokenSource.next p.source = (.error fault, s)) :
    drainUpTo (fuel + 1) p = (some (.lexical fault), { p with source := s }, []) := by
  simp only [drainUpTo, hgoes, hnext, Bool.false_eq_true, if_false]

theorem drainUpTo_none (hnext : TokenSource.next p.source = (.ok none, s)) :
    drainUpTo (fuel + 1) p = (none, { p with source := s }, []) := by
  simp only [drainUpTo, hgoes, hnext, Bool.false_eq_true, if_false]

variable (hnext : TokenSource.next p.source = (.ok (some token), s))

include hnext

theorem drainUpTo_refused {cause : StructureError}
    (hpush : p.builder.push token = (.error cause, b)) :
    drainUpTo (fuel + 1) p = (some (.malformed cause (TokenSource.location s)),
      { p with source := s, builder := b }, []) := by
  simp only [drainUpTo, hgoes, hnext, hpush, Bool.false_eq_true, if_false]

theorem drainUpTo_incomplete (hpush : p.builder.push token = (.ok .incomplete, b)) :
    drainUpTo (fuel + 1) p = drainUpTo fuel { p with source := s, builder := b } := by
  simp only [drainUpTo, hgoes, hnext, hpush, Bool.false_eq_true, if_false]

theorem drainUpTo_rootClosed (hpush : p.builder.push token = (.ok .rootClosed, b)) :
    drainUpTo (fuel + 1) p =
      drainUpTo fuel { p with source := s, builder := b, rootClosed := true } := by
  simp only [drainUpTo, hgoes, hnext, hpush, Bool.false_eq_true, if_false]

theorem drainUpTo_value {v : Value} (hpush : p.builder.push token = (.ok (.value v), b)) :
    drainUpTo (fuel + 1) p =
      ((drainUpTo fuel { p with source := s, builder := b, outlet := (p.outlet.offer v).1 }).1,
        andThen
          ({ p with source := s, builder := b, outlet := (p.outlet.offer v).1 },
            (p.outlet.offer v).2.map .deliver)
          fun q => (drainUpTo fuel q).2) := by
  simp only [drainUpTo, hgoes, hnext, hpush, Bool.false_eq_true, if_false]
  rfl

end

/-- The drain delivers what source and builder yield as far as demand extends. -/
theorem drained_drainUpTo {fuel : Nat} {p : Pipeline σ} (hfuel : TokenSource.supply p.source < fuel)
    {demand : Nat} (houtlet : p.outlet = { demand }) (hle : demand ≤ Demand.unbounded)
    (hopen : p.rootClosed = false) :
    Drained p (TokenSource.yield p.source p.builder) (drainUpTo fuel p) := by
  induction fuel generalizing p demand with
  | zero => exact absurd hfuel (Nat.not_lt_zero _)
  | succ fuel ih =>
    have hgoes : (p.isHolding || p.rootClosed) = false := by
      simp [isHolding, Outlet.isBlocked, houtlet, hopen]
    have hcovers : Demand.Covers p.outlet.demand ([] : List Value).length :=
      Demand.covers_zero p.outlet.demand
    have hsame : { demand := Demand.left p.outlet.demand ([] : List Value).length } = p.outlet := by
      simp [houtlet]
    rw [drainUpTo, hgoes]
    simp only [Bool.false_eq_true, if_false]
    -- the cases are the answers of the source, and those of the builder to a token
    rcases hnext : TokenSource.next p.source with ⟨fault | _ | token, s⟩
    · rw [TokenSource.yield_of_fault hnext]
      have hdrained := Drained.failed (p := p) (s := s) (b := p.builder)
        (y := ⟨[], .failed (.lexical fault)⟩) rfl hcovers
      rwa [hsame] at hdrained
    · rw [TokenSource.yield_of_none hnext]
      have hdrained := Drained.dry (p := p) (y := ⟨[], .dry s p.builder⟩) rfl hcovers
      rwa [hsame] at hdrained
    · have hless : TokenSource.supply s < fuel :=
        Nat.lt_of_lt_of_le (TokenSource.supply_next_lt _ _ _ hnext) (Nat.lt_succ_iff.mp hfuel)
      rcases hpush : p.builder.push token with ⟨cause | _ | v | _, b⟩
      · rw [TokenSource.yield_of_refused hnext hpush]
        simp only [hpush]
        have hdrained := Drained.failed (p := p) (s := s) (b := b)
          (y := ⟨[], .failed (.malformed cause (TokenSource.location s))⟩) rfl hcovers
        rwa [hsame] at hdrained
      · rw [TokenSource.yield_of_incomplete hnext hpush]
        simp only [hpush]
        exact (ih (p := { p with source := s, builder := b }) hless houtlet hle hopen).of_advanced
      · rw [TokenSource.yield_of_value hnext hpush]
        simp only [hpush, deliver, houtlet, Outlet.offer]
        by_cases hzero : demand = 0
        · -- no demand is left, and the value waits
          have hbounded : p.outlet.demand ≠ Demand.unbounded := by
            simp [houtlet, hzero, Demand.unbounded]
          have hmet : ([] : List Value).length = p.outlet.demand := by simp [houtlet, hzero]
          have hdrained := Drained.held (p := p) (s := s) (b := b) (v := v)
            (y := (TokenSource.yield s b).prepend [v]) rfl hmet hbounded rfl
          simp only [hzero]
          rw [drainUpTo_stopped (by simp [isHolding, Outlet.isBlocked])]
          exact hdrained
        · have hne : p.outlet.demand ≠ 0 := by rwa [houtlet]
          have hdrained := ih
            (p := { p with source := s, builder := b, outlet := { demand := Demand.spend demand } })
            hless rfl (Demand.spend_le hle) hopen
          simpa [hzero] using Drained.of_delivered (p := p) (s := s) (b := b) (v := v) hne
            (by rwa [houtlet]) (by rwa [houtlet])
      · rw [TokenSource.yield_of_rootClosed hnext hpush]
        simp only [hpush]
        rw [drainUpTo_stopped (by simp)]
        have hdrained := Drained.closed (p := p) (s := s) (b := b) (y := ⟨[], .closed⟩) rfl hcovers
        rwa [hsame] at hdrained

end Pipeline

end StreamingJson
