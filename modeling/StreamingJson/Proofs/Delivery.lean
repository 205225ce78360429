import StreamingJson.Proofs.Demand

/-!
# What an outlet delivers

An outlet may be used in any order, also where it should not be: an item may be offered while
another is held back, and anything may be done once it is closed. What it has delivered, what it
holds back and what is left of the demand always account for what it was given. An outlet here is
one of a build without debug assertions. With them, an offer or an orderly end while an item is held
back stops the program, and what is stated here holds of the uses up to that point.

## Main definitions

- `Outlet.Use`, `Outlet.use`, `Outlet.run` — what can be done with an outlet, singly and in a row
- `Outlet.offered`, `Outlet.asked` — the items and the demand that it was given before its end
- `Outlet.Orderly` — uses that offer no item while another is held back
- `Outlet.Sound` — what holds of an outlet at any time

## Main statements

- `Outlet.sound_use`, `Outlet.sublist_use`, `Outlet.balanced_use` — what one use keeps
- `Outlet.sublist_run`, `Outlet.values_run`, `Outlet.balanced_run` — what a row of uses keeps
- `Outlet.demand_run_of_mem_discard` — nothing is asked for once an outlet is discarded
- `Outlet.accounts_run` — what that means for the consumer
-/

namespace StreamingJson

namespace Outlet

variable {α : Type}

/-- What can be done with an outlet. -/
inductive Use (α : Type) where
  /-- The consumer asks for more items. -/
  | request (count : Nat)
  /-- An item is offered. -/
  | offer (item : α)
  /-- The delivery ends in order. -/
  | complete
  /-- The delivery ends with an error. -/
  | fail (cause : Error)
  /-- The delivery ends without a signal. -/
  | discard
deriving DecidableEq, Repr

namespace Use

/-- Whether it closes the outlet. -/
def closes : Use α → Bool
  | .request _ | .offer _ => false
  | .complete | .fail _ | .discard => true

/-- The item that it offers. -/
def item? : Use α → Option α
  | .offer item => some item
  | .request _ | .complete | .fail _ | .discard => none

/-- The demand that it adds. -/
def asked : Use α → Nat
  | .request count => count
  | .offer _ | .complete | .fail _ | .discard => 0

end Use

/-- What one use makes of an outlet, and the signals that it sends. -/
def use (o : Outlet α) : Use α → Outlet α × List (Signal α)
  | .request count => o.request count
  | .offer item => o.offer item
  | .complete => o.complete
  | .fail cause => o.fail cause
  | .discard => (o.discard, [])

/-- What uses make of an outlet one after the other, and all signals that they send. -/
def run (o : Outlet α) : List (Use α) → Outlet α × List (Signal α)
  | [] => (o, [])
  | u :: uses => (((o.use u).1.run uses).1, (o.use u).2 ++ ((o.use u).1.run uses).2)

/-- The items that are offered before the first use that closes an outlet. -/
def offered : List (Use α) → List α
  | [] => []
  | u :: uses => if u.closes then [] else u.item?.toList ++ offered uses

/-- The demand that is added before the first use that closes an outlet. -/
def asked : List (Use α) → Nat
  | [] => 0
  | u :: uses => if u.closes then 0 else u.asked + asked uses

/-- No item is offered while another is held back. -/
def Orderly (o : Outlet α) : List (Use α) → Prop
  | [] => True
  | u :: uses => (o.isBlocked = true → u.item? = none) ∧ (o.use u).1.Orderly uses

/-- What holds of an outlet at any time. -/
structure Sound (o : Outlet α) : Prop where
  bounded : o.demand ≤ Demand.unbounded
  withheld : o.isBlocked = true → o.demand = 0
  /-- A closed outlet holds nothing back. -/
  empty : o.closed = true → o.held = none

variable {o : Outlet α} {u : Use α} {uses : List (Use α)}

/-- Where nothing is held back only the demand matters. -/
theorem sound_of_held (h : o.held = none) (hdemand : o.demand ≤ Demand.unbounded) : o.Sound := by
  refine ⟨hdemand, fun hblocked => ?_, fun _ => h⟩
  rw [isBlocked, h] at hblocked
  cases hblocked

theorem sound_new : ({} : Outlet α).Sound :=
  sound_of_held rfl (Nat.zero_le _)

/-! ### One use -/

/-- A closed outlet sends nothing and stays closed. -/
theorem use_of_closed (h : o.closed = true) (u : Use α) :
    (o.use u).2 = [] ∧ (o.use u).1.closed = true := by
  cases u with
  | request count => simp [use, request, h]
  | offer item => simp [use, offer, h]
  | complete => simp [use, complete, h]
  | fail cause => simp [use, fail, h]
  | discard => exact ⟨rfl, rfl⟩

theorem closed_use (o : Outlet α) (u : Use α) : (o.use u).1.closed = (o.closed || u.closes) := by
  obtain ⟨demand, held, closed⟩ := o
  cases closed with
  | true => rw [(use_of_closed rfl u).2, Bool.true_or]
  | false =>
    cases u with
    | request count =>
      cases held with
      | none => rfl
      | some item =>
        simp only [use, request, Bool.false_eq_true, if_false]
        split <;> rfl
    | offer item =>
      simp only [use, offer, Bool.false_eq_true, if_false]
      split <;> rfl
    | complete | fail | discard => rfl

theorem sound_use (h : o.Sound) (u : Use α) : (o.use u).1.Sound := by
  obtain ⟨demand, held, closed⟩ := o
  cases closed with
  | true =>
    obtain rfl : held = none := h.empty rfl
    cases u with
    | discard => exact sound_of_held rfl (Nat.zero_le _)
    | request | offer | complete | fail => exact h
  | false =>
    cases u with
    | request count =>
      have hadd := Demand.add_le demand count
      cases held with
      | none => exact sound_of_held rfl hadd
      | some item =>
        simp only [use, request, Bool.false_eq_true, if_false]
        split
        next hzero => exact ⟨hadd, fun _ => hzero, fun h => absurd h Bool.false_ne_true⟩
        next => exact sound_of_held rfl (Demand.spend_le hadd)
    | offer item =>
      simp only [use, offer, Bool.false_eq_true, if_false]
      split
      next hfree =>
        obtain rfl : held = none := by simpa using (Bool.and_eq_true_iff.mp hfree).1
        exact sound_of_held rfl (Demand.spend_le h.bounded)
      next hblocked =>
        -- held back for want of demand, or in the place of an item that was
        refine ⟨h.bounded, fun _ => ?_, fun h => absurd h Bool.false_ne_true⟩
        cases held with
        | none => simpa using hblocked
        | some known => exact h.withheld rfl
    | complete => exact sound_of_held rfl h.bounded
    | fail cause => exact sound_of_held rfl h.bounded
    | discard => exact sound_of_held rfl (Nat.zero_le _)

/-- What a use delivers and then holds back is what was held back and what it offers; only an item
that was held back may be lost, where another is offered. -/
theorem values_use (hopen : o.closed = false) (hu : u.closes = false)
    (horderly : o.isBlocked = true → u.item? = none) :
    Signal.values (o.use u).2 ++ (o.use u).1.held.toList = o.held.toList ++ u.item?.toList := by
  obtain ⟨demand, held, closed⟩ := o
  obtain rfl : closed = false := hopen
  cases u with
  | request count =>
    cases held with
    | none => rfl
    | some item =>
      simp only [use, request, Bool.false_eq_true, if_false]
      split <;> rfl
  | offer item =>
    cases held with
    | some known => cases horderly rfl
    | none =>
      simp only [use, offer, Bool.false_eq_true, if_false]
      split <;> rfl
  | complete | fail | discard => cases hu

theorem sublist_use (hopen : o.closed = false) (hu : u.closes = false) :
    (Signal.values (o.use u).2 ++ (o.use u).1.held.toList).Sublist
      (o.held.toList ++ u.item?.toList) := by
  by_cases horderly : o.isBlocked = true → u.item? = none
  · exact (values_use hopen hu horderly) ▸ List.Sublist.refl _
  · -- the item offered takes the place of the one that is held back
    rw [Classical.not_imp] at horderly
    obtain ⟨hblocked, hitem⟩ := horderly
    cases u with
    | offer item =>
      have hheld : o.held.isNone = false := by
        rw [Option.isNone_eq_false_iff]
        exact hblocked
      simp only [use, offer, hopen, Bool.false_eq_true, if_false, hheld, Bool.false_and]
      exact List.sublist_append_right _ _
    | request | complete | fail | discard => exact absurd rfl hitem

/-- A use that closes an open outlet delivers no item. -/
theorem values_of_closes (hu : u.closes = true) (o : Outlet α) :
    Signal.values (o.use u).2 = [] := by
  cases u with
  | request | offer => cases hu
  | complete =>
    rw [use, complete]
    split <;> rfl
  | fail cause =>
    rw [use, fail]
    split <;> rfl
  | discard => rfl

/-- Unless it is discarded, the demand that is left of an outlet is what was asked for less what was
given. -/
theorem balanced_use {total given : Nat} (hsound : o.Sound)
    (h : Demand.Balanced total given o.demand) (hu : u ≠ .discard) :
    Demand.Balanced (total + if o.closed then 0 else u.asked)
      (given + (Signal.values (o.use u).2).length) (o.use u).1.demand := by
  obtain ⟨demand, held, closed⟩ := o
  have hspent {total d : Nat} (hd : d ≤ Demand.unbounded) (hne : d ≠ 0)
      (h : Demand.Balanced total given d) :
      Demand.Balanced total (given + 1) (Demand.spend d) := by
    rw [← Demand.left_one hd]
    exact h.spent (.inr (Nat.pos_of_ne_zero hne))
  cases closed with
  | true =>
    cases u with
    | discard => exact absurd rfl hu
    | request | offer | complete | fail => exact h
  | false =>
    cases u with
    | request count =>
      have hadd := h.add count
      cases held with
      | none => exact hadd
      | some item =>
        simp only [use, request, Bool.false_eq_true, if_false]
        split
        · exact hadd
        next hne => exact hspent (Demand.add_le _ _) hne hadd
    | offer item =>
      simp only [use, offer, Bool.false_eq_true, if_false]
      split
      next hfree => exact hspent hsound.bounded (by simpa using (Bool.and_eq_true_iff.mp hfree).2) h
      next => exact h
    | complete => exact h
    | fail cause => exact h
    | discard => exact absurd rfl hu

theorem demand_use_of_unbounded (h : o.demand = Demand.unbounded) (hu : u ≠ .discard) :
    (o.use u).1.demand = Demand.unbounded := by
  have hadd (count : Nat) : Demand.add o.demand count = Demand.unbounded := by
    rw [h, Demand.add]
    omega
  have hspend : Demand.spend Demand.unbounded = Demand.unbounded := if_pos rfl
  cases u with
  | request count =>
    rw [use, request]
    split
    · exact h
    · dsimp only
      rw [hadd]
      split
      · split
        · rfl
        · exact hspend
      · rfl
  | offer item =>
    rw [use, offer]
    split
    · exact h
    · split
      · exact (congrArg Demand.spend h).trans hspend
      · exact h
  | complete =>
    rw [use, complete]
    split <;> exact h
  | fail cause =>
    rw [use, fail]
    split <;> exact h
  | discard => exact absurd rfl hu

/-- Only a use that closes an open outlet sends a terminal signal, and it sends no more than one. -/
theorem countP_isTerminal_use (o : Outlet α) (u : Use α) :
    (o.use u).2.countP Signal.isTerminal ≤ if !o.closed && u.closes then 1 else 0 := by
  obtain ⟨demand, held, closed⟩ := o
  cases closed with
  | true =>
    rw [(use_of_closed rfl u).1]
    exact Nat.zero_le _
  | false =>
    cases u with
    | request count =>
      cases held with
      | none => exact Nat.zero_le _
      | some item =>
        simp only [use, request, Bool.false_eq_true, if_false]
        split <;> exact Nat.zero_le _
    | offer item =>
      simp only [use, offer, Bool.false_eq_true, if_false]
      split <;> exact Nat.zero_le _
    | complete => exact Nat.le_refl 1
    | fail cause => exact Nat.le_refl 1
    | discard => exact Nat.zero_le _

/-! ### Uses in a row -/

theorem sound_run (h : o.Sound) (uses : List (Use α)) : (o.run uses).1.Sound := by
  induction uses generalizing o with
  | nil => exact h
  | cons u uses ih => exact ih (sound_use h u)

/-- A closed outlet sends nothing any more. -/
theorem run_of_closed (h : o.closed = true) (uses : List (Use α)) :
    (o.run uses).2 = [] ∧ (o.run uses).1.closed = true := by
  induction uses generalizing o with
  | nil => exact ⟨rfl, h⟩
  | cons u uses ih =>
    obtain ⟨hsilent, hclosed⟩ := use_of_closed h u
    obtain ⟨hlater, hend⟩ := ih hclosed
    refine ⟨?_, hend⟩
    rw [run, hsilent, hlater]
    rfl

/-- The items that an open outlet delivers are some of those that it held back and was offered, in
this order. -/
theorem sublist_run (h : o.closed = false) (uses : List (Use α)) :
    (Signal.values (o.run uses).2).Sublist (o.held.toList ++ offered uses) := by
  induction uses generalizing o with
  | nil => exact List.nil_sublist _
  | cons u uses ih =>
    have hclosed := closed_use o u
    rw [run, Signal.values_append, offered]
    cases hu : u.closes with
    | true =>
      rw [hu, Bool.or_true] at hclosed
      rw [values_of_closes hu, (run_of_closed hclosed uses).1]
      exact List.nil_sublist _
    | false =>
      rw [h, hu, Bool.or_false] at hclosed
      rw [if_neg Bool.false_ne_true, ← List.append_assoc]
      refine .trans ((List.Sublist.refl _).append (ih hclosed)) ?_
      rw [← List.append_assoc]
      exact (sublist_use h hu).append (List.Sublist.refl _)

/-- As long as no item is offered while another is held back none is lost. -/
theorem values_run (h : o.closed = false) (horderly : o.Orderly uses)
    (huses : ∀ u ∈ uses, u.closes = false) :
    Signal.values (o.run uses).2 ++ (o.run uses).1.held.toList =
      o.held.toList ++ uses.filterMap Use.item? := by
  induction uses generalizing o with
  | nil => exact (List.append_nil _).symm
  | cons u uses ih =>
    obtain ⟨hu, hlater⟩ := List.forall_mem_cons.mp huses
    have hopen : (o.use u).1.closed = false := by rw [closed_use, h, hu, Bool.or_false]
    have hitems : (u :: uses).filterMap Use.item? =
        u.item?.toList ++ uses.filterMap Use.item? := by
      rw [List.filterMap_cons]
      cases u.item? <;> rfl
    rw [run, Signal.values_append, List.append_assoc, ih hopen horderly.2 hlater, hitems,
      ← List.append_assoc, values_use h hu horderly.1, List.append_assoc]

/-- Unless an outlet is discarded, the demand that is left is what was asked for less what was
given. -/
theorem balanced_run {total given : Nat} (hsound : o.Sound)
    (h : Demand.Balanced total given o.demand) (huses : .discard ∉ uses) :
    Demand.Balanced (total + if o.closed then 0 else asked uses)
      (given + (Signal.values (o.run uses).2).length) (o.run uses).1.demand := by
  induction uses generalizing o total given with
  | nil =>
    rw [asked, ite_self]
    exact h
  | cons u uses ih =>
    rw [List.mem_cons, not_or] at huses
    have hlater := ih (sound_use hsound u) (balanced_use hsound h (Ne.symm huses.1)) huses.2
    have htotal : (total + (if o.closed then 0 else u.asked) +
        if (o.use u).1.closed then 0 else asked uses) =
          total + if o.closed then 0 else asked (u :: uses) := by
      rw [closed_use, asked, Nat.add_assoc]
      cases o.closed with
      | true => rfl
      | false =>
        cases u with
        | request | offer => rfl
        | complete | fail | discard => rfl
    rw [htotal, Nat.add_assoc, ← List.length_append, ← Signal.values_append] at hlater
    exact hlater

theorem demand_run_of_unbounded (h : o.demand = Demand.unbounded) (huses : .discard ∉ uses) :
    (o.run uses).1.demand = Demand.unbounded := by
  induction uses generalizing o with
  | nil => exact h
  | cons u uses ih =>
    rw [List.mem_cons, not_or] at huses
    exact ih (demand_use_of_unbounded h (Ne.symm huses.1)) huses.2

/-- A discarded outlet is not changed by any use. -/
theorem run_discard (o : Outlet α) (uses : List (Use α)) : (o.discard.run uses).1 = o.discard := by
  have huse (u : Use α) : (o.discard.use u).1 = o.discard := by cases u <;> rfl
  induction uses with
  | nil => rfl
  | cons u uses ih => rw [run, huse, ih]

/-- Once an outlet is discarded there is no demand any more, whatever is asked for later. -/
theorem demand_run_of_mem_discard (h : .discard ∈ uses) (o : Outlet α) :
    (o.run uses).1.demand = 0 := by
  induction uses generalizing o with
  | nil => cases h
  | cons u uses ih =>
    rcases List.mem_cons.mp h with rfl | hlater
    · exact congrArg Outlet.demand (run_discard o uses)
    · exact ih hlater (o.use u).1

theorem countP_isTerminal_run (o : Outlet α) (uses : List (Use α)) :
    (o.run uses).2.countP Signal.isTerminal ≤ if o.closed then 0 else 1 := by
  induction uses generalizing o with
  | nil => exact Nat.zero_le _
  | cons u uses ih =>
    have hfirst := countP_isTerminal_use o u
    have hlater := ih (o.use u).1
    rw [closed_use] at hlater
    rw [run, List.countP_append]
    generalize List.countP _ (o.use u).2 = m at hfirst ⊢
    generalize List.countP _ ((o.use u).1.run uses).2 = n at hlater ⊢
    cases hclosed : o.closed <;> cases hu : u.closes <;> simp [hclosed, hu] at hfirst hlater ⊢ <;>
      omega

/-- Whatever is done with an outlet in whichever order: an item is held back only where there is no
demand; the items delivered are some of those offered before the end, in order, and unless one is
offered while another is held back they are, with the one held back, all of them; unless the outlet
is discarded, the number of items delivered and the demand add up to what was asked for before the
end as long as the demand is bounded, and an unbounded demand stays so; once it is discarded there
is no demand; there is at most one terminal signal; and whatever is done after the outlet is closed,
no signal is sent and nothing is held back. -/
theorem accounts_run (uses : List (Use α)) :
    let r := ({} : Outlet α).run uses
    (r.1.isBlocked = true → r.1.demand = 0) ∧
      (Signal.values r.2).Sublist (offered uses) ∧
      (({} : Outlet α).Orderly uses → (∀ u ∈ uses, u.closes = false) →
        Signal.values r.2 ++ r.1.held.toList = uses.filterMap Use.item?) ∧
      (.discard ∉ uses → r.1.demand < Demand.unbounded →
        (Signal.values r.2).length + r.1.demand = asked uses) ∧
      (r.1.demand = Demand.unbounded → ∀ later, .discard ∉ later →
        (r.1.run later).1.demand = Demand.unbounded) ∧
      (.discard ∈ uses → r.1.demand = 0) ∧
      r.2.countP Signal.isTerminal ≤ 1 ∧
      ∀ u : Use α, u.closes = true → ∀ later,
        ((r.1.use u).1.run later).2 = [] ∧ ((r.1.use u).1.run later).1.isBlocked = false := by
  intro r
  have hsound : r.1.Sound := sound_run sound_new uses
  refine ⟨hsound.withheld, sublist_run rfl uses, values_run rfl, ?_, ?_,
    fun hdiscarded => demand_run_of_mem_discard hdiscarded {}, countP_isTerminal_run {} uses, ?_⟩
  · intro hkept hbounded
    have hbalanced := balanced_run sound_new (.inr rfl : Demand.Balanced 0 0 0) hkept
    rw [Nat.zero_add, Nat.zero_add] at hbalanced
    exact hbalanced.resolve_left (Nat.ne_of_lt hbounded)
  · intro hunbounded later hlater
    exact demand_run_of_unbounded hunbounded hlater
  · intro u hu later
    have hclosed : (r.1.use u).1.closed = true := by rw [closed_use, hu, Bool.or_true]
    obtain ⟨hsilent, hend⟩ := run_of_closed hclosed later
    have hempty := (sound_run (sound_use hsound u) later).empty hend
    exact ⟨hsilent, Option.isSome_eq_false_iff.mpr (Option.isNone_iff_eq_none.mpr hempty)⟩

example : (({} : Outlet Nat).run [.offer 1, .offer 2, .request 1, .complete, .offer 3]).2 =
    [.next 2, .complete] := by
  decide

end Outlet

end StreamingJson
