import StreamingJson.Proofs.Lexer.Partial
import StreamingJson.Proofs.Lexer.Steps

/-!
# Sound scanners

However many faults a scanner has met, no more containers are open than are allowed, and a token
that is read in part stands where it may stand.

## Main definitions

- `Scanner.Sound` — what every byte keeps up of a scanner

## Main statements

- `Scanner.Sound.turn` — a byte keeps a scanner sound, also if it meets a fault
- `Scanner.sound_of_proceeds` — a scanner that comes through a text from its start is sound
-/

namespace StreamingJson

namespace Scanner

/-- No more containers are open than are allowed, and what is read in part of a value or a name
stands where it may stand. -/
structure Sound (limit : Nat) (s : Scanner) : Prop where
  depth : s.frames.length ≤ limit
  placed : s.Placed

variable {limit : Nat}

theorem Sound.step {s : Scanner} (h : s.Sound limit) (shown : List UInt8) (b : UInt8) :
    (s.step limit shown b).next.Sound limit := by
  have hturns : s.TurnsBy limit (s.step limit shown b) := turns_step limit shown s b
  exact ⟨hturns.length_le h.depth, placed_step h.placed⟩

/-- A byte keeps a scanner sound, also if it meets a fault. -/
theorem Sound.turn {c d : Scanner × List UInt8} (h : c.1.Sound limit) (hturn : Turn limit c d) :
    d.1.Sound limit := by
  cases hturn with
  | @shift s next b rest shown hstep
  | @consume s next b rest shown result hstep
  | @leave s next b rest shown result hstep =>
    have hnext := h.step shown b
    rwa [hstep] at hnext

/-- A scanner that comes through a text from its start is sound. -/
theorem sound_of_proceeds {text : List UInt8} {c : Scanner × List UInt8}
    (h : Proceeds limit ({}, text) c) : c.1.Sound limit := by
  induction h with
  | refl => exact ⟨Nat.zero_le limit, trivial⟩
  | tail _ hturn ih => exact ih.turn hturn

end Scanner

end StreamingJson
