import StreamingJson.Lexer.Error
import StreamingJson.Token

/-!
# Token sources

What turns chunks of bytes into tokens: chunks go in, one at a time, and tokens come out until the
bytes at hand give no further one. A source keeps what it has read of a token, so that a text may be
cut anywhere.

## Main definitions

- `TokenSource` — the operations of a source
- `TokenSource.accept` — takes a chunk, starting anew where no value is begun
-/

namespace StreamingJson

/-- The operations of a source of tokens, and a bound on the tokens it gives without a new chunk. -/
class TokenSource (σ : Type) where
  /-- Takes the next chunk, or refuses it. -/
  feed : σ → List UInt8 → Except UnreadInput σ
  /-- The next token, none if the bytes at hand complete no further one, or a fault. -/
  next : σ → Except LexicalFault (Option Token) × σ
  /-- Whether every byte fed is read. -/
  needsInput : σ → Bool
  /-- Whether a value is begun and not complete. -/
  isMidValue : σ → Bool
  /-- The place of the next unread byte. -/
  location : σ → Location
  /-- A source that has read nothing, with the same settings. -/
  fresh : σ → σ
  /-- A bound on the number of tokens that come before the next chunk. -/
  supply : σ → Nat
  /-- Every token uses up some of the supply. -/
  supply_next_lt : ∀ s token s', next s = (.ok (some token), s') → supply s' < supply s

namespace TokenSource

variable {σ : Type} [TokenSource σ]

/-- Takes a chunk. Where every byte is read and no value is begun a new source takes it, so that
locations count from the start of that chunk and nothing of earlier values is kept. -/
def accept (s : σ) (chunk : List UInt8) : Except UnreadInput σ :=
  if needsInput s && !isMidValue s then feed (fresh s) chunk else feed s chunk

end TokenSource

end StreamingJson
