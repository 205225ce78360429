import StreamingJson.Session

/-!
# Parsing a whole text

The values of a text that comes in any number of chunks, all of them at once.

## Main definitions

- `parse` — the values of a text, or the first error
- `Session.supplyAll` — gives chunks to a session as long as it asks for them
-/

namespace StreamingJson

/-- Gives the chunks to a session one by one as long as it asks for them, and tells it of the end
when it asks for more. -/
def Session.supplyAll (s : Session Lexer) : List (List UInt8) → Session Lexer
  | [] =>
    let (taken, s) := s.takeRequest
    if taken then s.call .supplyEnded else s
  | chunk :: rest =>
    let (taken, s) := s.takeRequest
    if taken then (s.call (.chunk chunk)).supplyAll rest else s

/-- The values among the signals up to the terminal one, or the error that ends them. -/
def collect : List (Signal Value) → Except Error (List Value)
  | [] | .complete :: _ => .ok []
  | .error cause :: _ => .error cause
  | .next value :: rest => (collect rest).map (value :: ·)

/-- The values of the text that the chunks make up, or the first error in it. -/
def parse (options : Options) (chunks : List (List UInt8)) : Except Error (List Value) :=
  let s := ((Session.new options).call (.request Demand.unbounded)).supplyAll chunks
  let s := if s.pipeline.isTerminal then s else s.call .supplyEnded
  collect s.inbox.signals

end StreamingJson
