import StreamingJson.Outlet
import StreamingJson.TokenSource

/-!
# The pipeline from chunks to values

A pipeline stands between a supplier of chunks and a consumer of values. It asks the supplier for
one chunk at a time, and only when every byte is read and either the consumer has asked for a value
or a value is begun; it delivers values as the consumer asks for them. It reacts to calls of either
side by a new state and a list of events, in the order in which they happen.

## Main definitions

- `Pipeline` — the state of a pipeline over a token source
- `Pipeline.Phase` — what a pipeline waits for
- `Event` — what a pipeline does to its two sides
- `Call`, `Pipeline.react` — what the two sides do to a pipeline
- `Pipeline.drain` — turns tokens into values until tokens, demand or the root array are at an end
-/

namespace StreamingJson

/-- What a pipeline does to its two sides. -/
inductive Event where
  /-- The consumer receives a signal. -/
  | deliver (signal : Signal Value)
  /-- The supplier is asked for chunks. -/
  | askChunks (count : Nat)
  /-- The supplier is told to stop. -/
  | stopSupplier
deriving DecidableEq, Repr

/-- The signal that an event delivers. -/
def Event.signal? : Event → Option (Signal Value)
  | .deliver signal => some signal
  | .askChunks _ | .stopSupplier => none

/-- What the two sides do to a pipeline. -/
inductive Call where
  /-- The consumer asks for more values. -/
  | request (count : Nat)
  /-- The consumer wants nothing any more. -/
  | cancel
  /-- The supplier gives a chunk. -/
  | chunk (bytes : List UInt8)
  /-- The supplier has no more chunks. -/
  | supplyEnded
  /-- The supplier failed. -/
  | supplyFailed (message : String)
deriving DecidableEq, Repr

namespace Pipeline

/-- What a pipeline waits for. -/
inductive Phase where
  /-- For demand, with nothing begun. -/
  | idle
  /-- For the chunk it asked for. -/
  | awaitingChunk
  /-- For nothing: tokens are being turned into values. -/
  | draining
  /-- For demand, with a value held back. -/
  | holding
  /-- For nothing: the consumer was told that all is delivered. -/
  | completed
  /-- For nothing: the consumer was told of an error. -/
  | failed
  /-- For nothing: the consumer cancelled. -/
  | cancelled
deriving DecidableEq, Repr

/-- Whether a phase is never left. -/
def Phase.isTerminal : Phase → Bool
  | .completed | .failed | .cancelled => true
  | .idle | .awaitingChunk | .draining | .holding => false

end Pipeline

/-- The state of a pipeline over a source of tokens. -/
structure Pipeline (σ : Type) where
  source : σ
  builder : Builder
  outlet : Outlet Value := {}
  phase : Pipeline.Phase := .idle
  /-- Whether a chunk was asked for and has not come. -/
  awaiting : Bool := false
  /-- Whether the supplier has ended, has failed or was told to stop. -/
  supplyDone : Bool := false
  /-- Whether the streamed root array is closed. -/
  rootClosed : Bool := false

namespace Pipeline

variable {σ : Type} [TokenSource σ]

/-- A pipeline over the given source. -/
def new (source : σ) (options : Options) : Pipeline σ :=
  { source, builder := Builder.new options }

/-- How many more values the consumer has asked for. -/
def demand (p : Pipeline σ) : Nat :=
  p.outlet.demand

/-- Whether a value waits for demand. -/
def isHolding (p : Pipeline σ) : Bool :=
  p.outlet.isBlocked

/-- Whether nothing will happen any more. -/
def isTerminal (p : Pipeline σ) : Bool :=
  p.phase.isTerminal

/-- A reaction: the new state and what happened on the way to it. -/
abbrev Reaction (σ : Type) := Pipeline σ × List Event

/-- Takes over a change of the outlet and delivers its signals. -/
def deliver (p : Pipeline σ) (sent : Outlet Value × List (Signal Value)) : Reaction σ :=
  ({ p with outlet := sent.1 }, sent.2.map .deliver)

/-- Follows a reaction by another. -/
def andThen (r : Reaction σ) (f : Pipeline σ → Reaction σ) : Reaction σ :=
  let r' := f r.1
  (r'.1, r.2 ++ r'.2)

/-- Expects no more chunks, and tells the supplier so if it may still send some. -/
def releaseSupplier (p : Pipeline σ) : Reaction σ :=
  if p.supplyDone then ({ p with awaiting := false }, [])
  else ({ p with awaiting := false, supplyDone := true }, [.stopSupplier])

/-- Drops all that is read in part. -/
def clear (p : Pipeline σ) : Pipeline σ :=
  { p with source := TokenSource.fresh p.source, builder := p.builder.reset }

/-- Ends with an error. -/
def fail (p : Pipeline σ) (cause : Error) : Reaction σ :=
  andThen ({ p with phase := .failed }.clear.releaseSupplier) fun p =>
    p.deliver (p.outlet.fail cause)

/-- Ends in order. -/
def complete (p : Pipeline σ) : Reaction σ :=
  { p with phase := .completed }.deliver p.outlet.complete

/-- Turns at most `fuel` tokens into values. It stops before that when a value is held back, the
streamed root array closes, the bytes at hand complete no further token, or an error is found. -/
def drainUpTo : Nat → Pipeline σ → Option Error × Reaction σ
  | 0, p => (none, p, [])
  | fuel + 1, p =>
    if p.isHolding || p.rootClosed then (none, p, [])
    else
      match TokenSource.next p.source with
      | (.error fault, source) => (some (.lexical fault), { p with source }, [])
      | (.ok none, source) => (none, { p with source }, [])
      | (.ok (some token), source) =>
        match p.builder.push token with
        | (.error cause, builder) =>
          (some (.malformed cause (TokenSource.location source)), { p with source, builder }, [])
        | (.ok .incomplete, builder) => drainUpTo fuel { p with source, builder }
        | (.ok .rootClosed, builder) =>
          drainUpTo fuel { p with source, builder, rootClosed := true }
        | (.ok (.value value), builder) =>
          let (p, events) := { p with source, builder }.deliver (p.outlet.offer value)
          let (error, p, later) := drainUpTo fuel p
          (error, p, events ++ later)

/-- Turns tokens into values as far as tokens and demand go. The supply of the source bounds the
number of tokens, so the bound is never met. -/
def drain (p : Pipeline σ) : Option Error × Reaction σ :=
  drainUpTo (TokenSource.supply p.source + 1) { p with phase := .draining }

/-- Decides what a pipeline waits for when no further token can be used. -/
def settle (p : Pipeline σ) : Reaction σ :=
  if p.isHolding then ({ p with phase := .holding }, [])
  else if p.rootClosed then andThen p.releaseSupplier complete
  else if p.supplyDone then
    if TokenSource.isMidValue p.source || p.builder.depth ≠ 0 then
      p.fail (.truncated (TokenSource.location p.source))
    else p.complete
  else if p.awaiting then ({ p with phase := .awaitingChunk }, [])
  else if TokenSource.needsInput p.source
      && (p.demand ≠ 0 || TokenSource.isMidValue p.source) then
    ({ p with phase := .awaitingChunk, awaiting := true }, [.askChunks 1])
  else ({ p with phase := .idle }, [])

/-- Makes all progress that bytes and demand allow. -/
def advance (p : Pipeline σ) : Reaction σ :=
  let (error, r) := p.drain
  match error with
  | some cause => andThen r fun p => p.fail cause
  | none => andThen r settle

/-- The consumer asks for more values. -/
def request (p : Pipeline σ) (count : Nat) : Reaction σ :=
  if p.isTerminal then (p, [])
  else if count = 0 then p.fail (.protocol .zeroDemand)
  else andThen (p.deliver (p.outlet.request count)) advance

/-- The consumer wants nothing any more. It receives no signal. -/
def cancel (p : Pipeline σ) : Reaction σ :=
  if p.isTerminal then (p, [])
  else { p with phase := .cancelled, outlet := p.outlet.discard }.clear.releaseSupplier

/-- The supplier gives a chunk. -/
def takeChunk (p : Pipeline σ) (bytes : List UInt8) : Reaction σ :=
  if p.isTerminal then (p, [])
  else if !p.awaiting then p.fail (.protocol .unrequestedChunk)
  else
    let p := { p with awaiting := false }
    match TokenSource.accept p.source bytes with
    | .error refusal => p.fail (.protocol (.refusedChunk refusal))
    | .ok source => { p with source }.advance

/-- The supplier has no more chunks. -/
def endSupply (p : Pipeline σ) : Reaction σ :=
  if p.isTerminal then (p, []) else { p with supplyDone := true, awaiting := false }.advance

/-- The supplier failed. A value held back is dropped. -/
def failSupply (p : Pipeline σ) (message : String) : Reaction σ :=
  if p.isTerminal then (p, [])
  else { p with supplyDone := true, awaiting := false }.fail (.supplier message)

/-- Reacts to a call of either side. -/
def react (p : Pipeline σ) : Call → Reaction σ
  | .request count => p.request count
  | .cancel => p.cancel
  | .chunk bytes => p.takeChunk bytes
  | .supplyEnded => p.endSupply
  | .supplyFailed message => p.failSupply message

/-- Reacts to calls one after the other. -/
def run (p : Pipeline σ) : List Call → Reaction σ
  | [] => (p, [])
  | call :: calls => andThen (p.react call) fun p => p.run calls

end Pipeline

end StreamingJson
