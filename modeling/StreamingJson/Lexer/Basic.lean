import StreamingJson.Lexer.Scanner
import StreamingJson.TokenSource
import StreamingJson.Utf8

/-!
# The lexer

A scanner together with the bytes it has yet to read and the place it has come to. It is the token
source for JSON, and a `Machine` does what it does.

## Main definitions

- `Lexer` — a scanner over the unread bytes of a chunk
- `Lexer.feed` — takes a chunk
- `Lexer.takeRun` — takes a run of like bytes in one go
- `Lexer.next` — reads up to the next token
- `Lexer.supply_next_lt` — a token uses up a byte or ends a number read before
-/

namespace StreamingJson

/-- A scanner, its place in the text and the unread bytes of the last chunk. -/
structure Lexer where
  depthLimit : Nat
  scanner : Scanner := {}
  location : Location := Location.start
  unread : List UInt8 := []
deriving DecidableEq, Repr

namespace Lexer

/-- Whether every byte fed is read. -/
def needsInput (l : Lexer) : Bool :=
  l.unread.isEmpty

/-- Whether a value is begun and not complete. -/
def isMidValue (l : Lexer) : Bool :=
  l.scanner.isMidValue

/-- The number of open containers. -/
def depth (l : Lexer) : Nat :=
  l.scanner.frames.length

/-- A lexer with the same limit that has read nothing. -/
def fresh (l : Lexer) : Lexer :=
  { depthLimit := l.depthLimit }

/-- Takes a chunk, unless bytes of the last one are unread. -/
def feed (l : Lexer) (chunk : List UInt8) : Except UnreadInput Lexer :=
  if l.needsInput then .ok { l with unread := chunk } else .error ⟨l.unread.length⟩

/-- What a call hands back for a completed token or a fault. -/
def handBack (l : Lexer) : Except LexicalError Token → Except LexicalFault (Option Token) × Lexer
  | .ok token => (.ok (some token), l)
  | .error cause => (.error ⟨cause, l.location⟩, l)

/-- Takes the run of bytes in front of `bytes` that the token read in part takes as they come. None
of them ends a line. -/
def takeRun (l : Lexer) (bytes : List UInt8) : Lexer :=
  let run := bytes.takeWhile l.scanner.lexeme.repeats
  { l with
    scanner := { l.scanner with lexeme := l.scanner.lexeme.append run }
    location := l.location.right run.length }

/-- Reads the given bytes up to the next token or fault. A byte that completes nothing may begin a
run of digits or of bytes in a string, which is taken in one go. -/
def scan (l : Lexer) : List UInt8 → Except LexicalFault (Option Token) × Lexer
  | [] => (.ok none, { l with unread := [] })
  | b :: rest =>
    match l.scanner.step l.depthLimit (Utf8.leading (b :: rest)) b with
    | .shift next =>
      let l := { l with scanner := next, location := l.location.past b }
      (l.takeRun rest).scan (rest.dropWhile next.lexeme.repeats)
    | .consume result next =>
      handBack { l with scanner := next, location := l.location.past b, unread := rest } result
    | .leave result next => handBack { l with scanner := next, unread := b :: rest } result
termination_by bytes => bytes.length
decreasing_by exact Nat.lt_succ_of_le (List.dropWhile_sublist _).length_le

/-- Reads up to the next token or fault, or to the end of the chunk. -/
def next (l : Lexer) : Except LexicalFault (Option Token) × Lexer :=
  l.scan l.unread

/-- A bound on the tokens that the unread bytes complete: one for each, and one for a number that
ends before the first of them. -/
def supply (l : Lexer) : Nat :=
  l.unread.length + if l.scanner.lexeme = .between then 0 else 1

end Lexer

end StreamingJson
