import StreamingJson.Outlet

/-!
# Demand and signals

How far a demand extends, what is left of it, and which items there are among signals. This is what
outlets and pipelines account with.

## Main definitions

- `Demand.Covers`, `Demand.left` — how far a demand extends, and what is left of it
- `Demand.Balanced` — what is left is what was asked for less what was given
- `Signal.values` — the items among signals

## Main statements

- `Demand.left_add` — items can be given in two parts
- `Demand.add_left` — a further demand may come before or after some items
- `Demand.Balanced.add`, `Demand.Balanced.spent` — what asking and giving keep
-/

namespace StreamingJson

namespace Demand

/-- Whether a demand extends to `count` items. -/
def Covers (demand count : Nat) : Prop :=
  demand = unbounded ∨ count ≤ demand

/-- What is left of a demand after `count` items. -/
def left (demand count : Nat) : Nat :=
  if demand = unbounded then unbounded else demand - count

@[simp]
theorem left_zero (demand : Nat) : left demand 0 = demand := by
  unfold left
  split
  next h => exact h.symm
  next => exact Nat.sub_zero demand

@[simp]
theorem left_unbounded (count : Nat) : left unbounded count = unbounded := by
  simp [left]

instance (demand count : Nat) : Decidable (Covers demand count) :=
  inferInstanceAs (Decidable (demand = unbounded ∨ count ≤ demand))

theorem left_le {demand : Nat} (h : demand ≤ unbounded) (count : Nat) :
    left demand count ≤ unbounded := by
  unfold left
  split <;> omega

theorem spend_le {demand : Nat} (h : demand ≤ unbounded) : spend demand ≤ unbounded := by
  unfold spend
  split <;> omega

theorem left_succ {demand : Nat} (h : demand ≤ unbounded) (count : Nat) :
    left demand (count + 1) = left (spend demand) count := by
  unfold left spend
  by_cases hd : demand = unbounded
  · simp [hd]
  · have : demand - 1 ≠ unbounded := by omega
    simp only [hd, this, if_false]
    omega

theorem left_one {demand : Nat} (h : demand ≤ unbounded) : left demand 1 = spend demand := by
  rw [left_succ h 0, left_zero]

theorem left_add {demand : Nat} (h : demand ≤ unbounded) (m n : Nat) :
    left demand (m + n) = left (left demand m) n := by
  unfold left
  by_cases hd : demand = unbounded
  · simp [hd]
  · have : demand - m ≠ unbounded := by omega
    simp only [hd, this, if_false]
    omega

theorem covers_zero (demand : Nat) : Covers demand 0 :=
  .inr (Nat.zero_le demand)

theorem covers_unbounded (count : Nat) : Covers unbounded count :=
  .inl rfl

theorem Covers.succ {demand count : Nat} (hne : demand ≠ 0) (hle : demand ≤ unbounded)
    (h : Covers (spend demand) count) : Covers demand (count + 1) := by
  unfold Covers spend at *
  split at h <;> omega

theorem Covers.sum {demand m n : Nat} (h : Covers demand m) (hle : demand ≤ unbounded)
    (hleft : Covers (left demand m) n) : Covers demand (m + n) := by
  unfold Covers left at *
  split at hleft <;> omega

theorem Covers.add_left {demand count : Nat} (h : Covers demand count)
    (hne : left demand count ≠ unbounded) : count + left demand count = demand := by
  have hd : demand ≠ unbounded := fun hd => hne (by rw [hd, left_unbounded])
  have hcount := h.resolve_left hd
  rw [left, if_neg hd]
  omega

theorem left_of_not_covers {demand count : Nat} (h : ¬Covers demand count) :
    left demand count = 0 := by
  unfold Covers at h
  rw [left, if_neg (fun hd => h (.inl hd))]
  omega

theorem add_le (demand n : Nat) : add demand n ≤ unbounded :=
  Nat.min_le_right _ _

/-- A further demand does not depend on how much of the first is used up, as long as the sum is
bounded or nothing is used up. -/
theorem add_left {demand count n : Nat} (h : Covers demand count)
    (hsum : demand + n < unbounded ∨ demand = 0) :
    add (left demand count) n = left (add demand n) count := by
  rcases hsum with hsum | rfl
  · have hd : demand ≠ unbounded := by omega
    have hn : demand + n ≠ unbounded := by omega
    have hcount := h.resolve_left hd
    rw [left, if_neg hd, add, add, Nat.min_eq_left (by omega), Nat.min_eq_left (by omega), left,
      if_neg hn]
    omega
  · have hcount : count = 0 := by
      rcases h with h | h
      · exact absurd h (by decide)
      · omega
    rw [hcount, left_zero, left_zero]

theorem Covers.add_demand {demand count : Nat} (h : Covers demand count) (n : Nat) :
    Covers (add demand n) count := by
  unfold Covers add at *
  omega

/-- Demand for another item where what was asked for before is all used up. -/
theorem Covers.succ_add {demand n : Nat} (hn : 0 < n) (hle : demand < unbounded) :
    Covers (add demand n) (demand + 1) := by
  unfold Covers add
  omega

/-! ### The account of a demand -/

/-- What is left of a demand is what was asked for less what was given, unless it is unbounded. -/
def Balanced (asked given left : Nat) : Prop :=
  left = unbounded ∨ given + left = asked

namespace Balanced

variable {asked given left : Nat}

theorem add (h : Balanced asked given left) (n : Nat) :
    Balanced (asked + n) given (Demand.add left n) := by
  unfold Balanced Demand.add at *
  omega

theorem spent {count : Nat} (h : Balanced asked given left) (covers : Covers left count) :
    Balanced asked (given + count) (Demand.left left count) := by
  by_cases hne : Demand.left left count = unbounded
  · exact .inl hne
  · have hleft := covers.add_left hne
    have hbounded : left ≠ unbounded := by
      rintro rfl
      exact hne (left_unbounded count)
    have hgiven := h.resolve_left hbounded
    exact .inr (by omega)

end Balanced

end Demand

/-! ### Signals -/

/-- The item that a signal delivers. -/
def Signal.value? {α : Type} : Signal α → Option α
  | .next item => some item
  | .complete | .error _ => none

/-- The items that signals deliver. -/
def Signal.values {α : Type} (signals : List (Signal α)) : List α :=
  signals.filterMap Signal.value?

@[simp]
theorem Signal.values_map_next {α : Type} (items : List α) :
    Signal.values (items.map .next) = items := by
  induction items with
  | nil => rfl
  | cons item items ih =>
    rw [List.map_cons]
    exact congrArg (item :: ·) ih

theorem Signal.values_append {α : Type} (ss ts : List (Signal α)) :
    Signal.values (ss ++ ts) = Signal.values ss ++ Signal.values ts :=
  List.filterMap_append

theorem Signal.not_mem_map_next {α : Type} {t : Signal α} (h : t.isTerminal = true)
    (items : List α) : t ∉ items.map Signal.next := by
  intro hmem
  obtain ⟨item, -, rfl⟩ := List.mem_map.mp hmem
  cases h

end StreamingJson
