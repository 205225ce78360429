import StreamingJson.Error

/-!
# Delivery under demand

An outlet delivers items only as far as the consumer has asked for them. It holds back at most one
item, and it sends at most one terminal signal, after which it sends nothing.

To offer an item or to end the delivery in order while an item is held back is a misuse, which debug
assertions catch. This is the outlet of a build without them: there an offer replaces the item that
is held back, and the orderly end drops it.

## Main definitions

- `Signal` — what a consumer receives
- `Demand.unbounded`, `Demand.add` — demand that saturates at a bound meaning "everything"
- `Outlet` — the demand that is left and the item that is held back
- `Outlet.request`, `Outlet.offer`, `Outlet.complete`, `Outlet.fail`, `Outlet.discard` — its
  operations, each with the signals it sends
-/

namespace StreamingJson

/-- What a consumer receives: items and then at most one of the other two. -/
inductive Signal (α : Type) where
  | next (item : α)
  | complete
  | error (cause : Error)
deriving DecidableEq, Repr

/-- Whether a signal is the last one. -/
def Signal.isTerminal {α : Type} : Signal α → Bool
  | .next _ => false
  | .complete | .error _ => true

namespace Demand

/-- A demand for all items. It is the largest number of 64 bits and is never used up. -/
def unbounded : Nat := 0xFFFFFFFFFFFFFFFF

/-- The sum of two demands. A sum past the bound is unbounded. -/
def add (m n : Nat) : Nat :=
  min (m + n) unbounded

/-- The demand that is left after one item. -/
def spend (n : Nat) : Nat :=
  if n = unbounded then n else n - 1

end Demand

/-- An outlet for items of type `α`. -/
structure Outlet (α : Type) where
  /-- How many more items the consumer has asked for. -/
  demand : Nat := 0
  /-- An item that waits for demand. -/
  held : Option α := none
  /-- Whether nothing is to be sent any more. -/
  closed : Bool := false
deriving DecidableEq, Repr

namespace Outlet

variable {α : Type}

/-- Whether an item waits for demand. -/
def isBlocked (o : Outlet α) : Bool :=
  o.held.isSome

/-- Adds to the demand and delivers the item that waits for it. -/
def request (o : Outlet α) (n : Nat) : Outlet α × List (Signal α) :=
  if o.closed then (o, [])
  else
    let demand := Demand.add o.demand n
    match o.held with
    | some item =>
      if demand = 0 then ({ o with demand }, [])
      else ({ o with demand := Demand.spend demand, held := none }, [.next item])
    | none => ({ o with demand }, [])

/-- Delivers an item if there is demand, and holds it back otherwise. An item offered while another
is held back takes its place. -/
def offer (o : Outlet α) (item : α) : Outlet α × List (Signal α) :=
  if o.closed then (o, [])
  else if o.held.isNone && o.demand ≠ 0 then
    ({ o with demand := Demand.spend o.demand }, [.next item])
  else ({ o with held := some item }, [])

/-- Ends the delivery in order. An item held back is dropped. -/
def complete (o : Outlet α) : Outlet α × List (Signal α) :=
  if o.closed then (o, []) else ({ o with closed := true, held := none }, [.complete])

/-- Ends the delivery with an error. An item held back is dropped. -/
def fail (o : Outlet α) (cause : Error) : Outlet α × List (Signal α) :=
  if o.closed then (o, []) else ({ o with closed := true, held := none }, [.error cause])

/-- Ends the delivery without a signal and drops item and demand. -/
def discard (_ : Outlet α) : Outlet α :=
  { demand := 0, held := none, closed := true }

end Outlet

end StreamingJson
