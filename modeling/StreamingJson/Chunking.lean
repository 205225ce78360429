/-!
# Cutting a text into chunks

Two ways to cut a sequence of bytes: into chunks of equal size, and at given offsets. The cuts may
fall inside characters.

## Main definitions

- `Chunking.ofSize` — chunks of a given size
- `Chunking.share` — how much falls to each of a number of parts, in arithmetic of 64 bits
- `Chunking.evenly` — at most a given number of chunks of equal size
- `Chunking.cutPoints`, `Chunking.slices` — where offsets cut, and what stands between cuts
- `Chunking.atOffsets` — chunks that begin at given offsets
-/

namespace StreamingJson.Chunking

variable {α : Type}

/-- Why a sequence cannot be cut. -/
inductive ChunkingError where
  /-- A sequence cannot be cut into no parts. -/
  | noParts
  /-- A number is too large for 64 bits. -/
  | overflow
deriving DecidableEq, Repr

/-- The wording of an error. -/
def ChunkingError.message : ChunkingError → String
  | .noParts => "assertion failed: parts > 0"
  | .overflow => "attempt to add with overflow"

/-- Chunks of `size` elements, the last one perhaps shorter. A size of zero counts as one. -/
def ofSize (size : Nat) : List α → List (List α)
  | [] => []
  | first :: rest => (first :: rest.take (size - 1)) :: ofSize size (rest.drop (size - 1))
termination_by elements => elements.length
decreasing_by simp only [List.length_drop, List.length_cons]; omega

/-- The number after `n`, unless `n` is the largest number of 64 bits. -/
def successor (n : Nat) : Except ChunkingError Nat :=
  if n < 0xFFFFFFFFFFFFFFFF then .ok (n + 1) else .error .overflow

/-- How much of `length` falls to each of `parts` parts, rounded up. The quotient is counted up where
something remains. To round up by adding `parts - 1` first would take a sum that 64 bits may not
hold. -/
def share (length parts : Nat) : Except ChunkingError Nat :=
  if length % parts = 0 then .ok (length / parts) else successor (length / parts)

/-- Cuts a sequence into at most `parts` chunks of equal size, the last one perhaps shorter. -/
def evenly (elements : List α) (parts : Nat) : Except ChunkingError (List (List α)) :=
  if parts = 0 then .error .noParts
  else (share elements.length parts).map fun size => ofSize (max 1 size) elements

/-- The places where the given offsets cut a sequence of `length` elements: the offsets inside it,
in order, each once. -/
def cutPoints (length : Nat) (offsets : List Nat) : List Nat :=
  ((offsets.filter fun offset => 0 < offset && offset < length).mergeSort).eraseReps

/-- What stands in a sequence from `start` on, cut at the given places. -/
def slices (elements : List α) (start : Nat) : List Nat → List (List α)
  | [] => if start < elements.length then [elements.drop start] else []
  | cut :: cuts => elements.extract start cut :: slices elements cut cuts

/-- Cuts a sequence at the given offsets. Offsets may come in any order and repeat; those that lie
at an end or outside cut nothing. -/
def atOffsets (elements : List α) (offsets : List Nat) : List (List α) :=
  slices elements 0 (cutPoints elements.length offsets)

end StreamingJson.Chunking
