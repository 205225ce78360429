import StreamingJson.Session

/-!
# Streams of values

A stream of values on top of a stream of chunks. It is polled: each poll gives a value, the error
that ends the stream, the end itself, or the news that the chunks are not there yet.

## Main definitions

- `Supply` — what one poll of the stream of chunks gives
- `ChunkStream` — a stream of chunks that gives what a list says
- `ValueStream` — a session that takes its chunks from such a stream
- `ValueStream.poll` — the next result
-/

namespace StreamingJson

/-- What one poll of a stream of chunks gives. -/
inductive Supply where
  | chunk (bytes : List UInt8)
  /-- The stream failed. -/
  | failure (message : String)
  /-- Nothing is there yet. -/
  | pending
  /-- The stream is at its end. -/
  | ended
deriving DecidableEq, Repr

/-- A stream of chunks: what its next polls give, after which it is at its end, and how often it was
polled. -/
structure ChunkStream where
  items : List Supply
  polls : Nat := 0
deriving DecidableEq, Repr

/-- Polls a stream of chunks. -/
def ChunkStream.poll (c : ChunkStream) : Supply × ChunkStream :=
  match c.items with
  | [] => (.ended, { c with polls := c.polls + 1 })
  | item :: rest => (item, { items := rest, polls := c.polls + 1 })

/-- What one poll of a stream of values gives. -/
inductive Poll where
  /-- No chunk is there yet that would complete a value. -/
  | pending
  /-- A value, or the error that ends the stream. -/
  | item (result : Except Error Value)
  /-- The stream is at its end. -/
  | ended

/-- A session and the stream that its chunks come from. -/
structure ValueStream where
  chunks : ChunkStream
  session : Session Lexer

namespace ValueStream

/-- The values in a stream of chunks. -/
def new (options : Options) (items : List Supply) : ValueStream :=
  { chunks := { items }, session := Session.new options }

/-- What a signal is to whoever polls. -/
def ofSignal : Signal Value → Poll
  | .next value => .item (.ok value)
  | .error cause => .item (.error cause)
  | .complete => .ended

/-- Passes a call to the session. -/
def call (s : ValueStream) (c : Call) : ValueStream :=
  { s with session := s.session.call c }

/-- Takes the next item from the stream of chunks and passes it on, unless it is pending. -/
def pull (s : ValueStream) : Option Poll × ValueStream :=
  let (item, chunks) := s.chunks.poll
  let s := { s with chunks }
  let taken := { s with session := s.session.takeRequest.2 }
  match item with
  | .pending => (some .pending, s)
  | .chunk bytes => (none, taken.call (.chunk bytes))
  | .failure message => (none, taken.call (.supplyFailed message))
  | .ended => (none, taken.call .supplyEnded)

/-- One attempt at a result: a queued signal, the end, or else one step towards a signal. Demand
that no chunk was asked for can never be met, and counts as the end of the text. -/
def attempt (s : ValueStream) : Option Poll × ValueStream :=
  match s.session.pop with
  | (some signal, session) => (some (ofSignal signal), { s with session })
  | (none, _) =>
    if s.session.pipeline.isTerminal then (some .ended, s)
    else if s.session.pipeline.demand = 0 then (none, s.call (.request 1))
    else if s.session.subscription.wanted = 0 then (none, s.call .supplyEnded)
    else s.pull

/-- At most `fuel` attempts at a result. -/
def pollUpTo : Nat → ValueStream → Poll × ValueStream
  | 0, s => (.pending, s)
  | fuel + 1, s =>
    match s.attempt with
    | (some result, s) => (result, s)
    | (none, s) => pollUpTo fuel s

/-- The next result. One request, each item of the stream of chunks, its end and the result take one
attempt each, so that the bound on the attempts is never met. -/
def poll (s : ValueStream) : Poll × ValueStream :=
  pollUpTo (s.chunks.items.length + 3) s

/-- Whether all further polls give the end. -/
def isTerminated (s : ValueStream) : Bool :=
  s.session.pipeline.isTerminal && s.session.inbox.signals.isEmpty

end ValueStream

end StreamingJson
