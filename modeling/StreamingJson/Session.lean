import StreamingJson.Pipeline
import StreamingJson.Lexer.Progress

/-!
# Sessions

A pipeline together with simple stand-ins for its two sides: a queue of the signals that were
delivered and a count of the chunks that were asked for. Whoever drives the session takes signals
and requests from them.

## Main definitions

- `Inbox` — the delivered signals, oldest first
- `Subscription` — what the supplier was asked for
- `Session` — a pipeline with an inbox and a subscription
- `Session.call` — passes a call to the pipeline and records what happens
- `Session.takeRequest`, `Session.pop`, `Session.drain` — what the driver takes away
-/

namespace StreamingJson

/-- The delivered signals that nobody has taken, oldest first. -/
structure Inbox where
  signals : List (Signal Value) := []
  /-- Whether a terminal signal has come, taken or not. -/
  terminated : Bool := false
deriving DecidableEq, Repr

/-- Queues further signals. -/
def Inbox.receive (inbox : Inbox) (signals : List (Signal Value)) : Inbox :=
  { signals := inbox.signals ++ signals
    terminated := inbox.terminated || signals.any Signal.isTerminal }

/-- What the supplier of chunks was asked for. -/
structure Subscription where
  /-- Chunks asked for and not taken up. -/
  wanted : Nat := 0
  /-- How many times the supplier was asked. -/
  requests : Nat := 0
  /-- Whether it was told to stop. -/
  cancelled : Bool := false
deriving DecidableEq, Repr

/-- Records what an event means to the supplier. -/
def Subscription.observe (s : Subscription) : Event → Subscription
  | .deliver _ => s
  | .askChunks count =>
    { s with requests := s.requests + 1, wanted := Demand.add s.wanted count }
  | .stopSupplier => { s with cancelled := true }

/-- Takes up one request, if there is one and the supplier was not told to stop. -/
def Subscription.take (s : Subscription) : Bool × Subscription :=
  if s.cancelled || s.wanted = 0 then (false, s) else (true, { s with wanted := s.wanted - 1 })

/-- A pipeline, the signals it delivered and the chunks it asked for. -/
structure Session (σ : Type) where
  pipeline : Pipeline σ
  inbox : Inbox := {}
  subscription : Subscription := {}

namespace Session

variable {σ : Type} [TokenSource σ]

/-- A session of a lexer. -/
def new (options : Options) : Session Lexer :=
  { pipeline := Pipeline.new { depthLimit := options.depthLimit } options }

/-- Passes a call to the pipeline and records what happens. -/
def call (s : Session σ) (call : Call) : Session σ :=
  let (pipeline, events) := s.pipeline.react call
  { pipeline
    inbox := s.inbox.receive (events.filterMap Event.signal?)
    subscription := events.foldl Subscription.observe s.subscription }

/-- Takes up one request for a chunk. -/
def takeRequest (s : Session σ) : Bool × Session σ :=
  let (taken, subscription) := s.subscription.take
  (taken, { s with subscription })

/-- Takes the oldest signal. -/
def pop (s : Session σ) : Option (Signal Value) × Session σ :=
  match s.inbox.signals with
  | [] => (none, s)
  | signal :: later => (some signal, { s with inbox := { s.inbox with signals := later } })

/-- Takes all signals. -/
def drain (s : Session σ) : List (Signal Value) × Session σ :=
  (s.inbox.signals, { s with inbox := { s.inbox with signals := [] } })

end Session

end StreamingJson
