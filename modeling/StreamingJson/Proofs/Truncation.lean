import Mathlib.Control.Monad.Basic
import StreamingJson.Proofs.Cuts
import StreamingJson.Proofs.Streaming

/-!
# Texts that are cut short

An error in a text is final, whatever follows; only the error that the text ends inside a value can
be made up for by more of it. So a text without an error has no other error in any of its
beginnings, and the values of a beginning are the first of its own.

## Main statements

- `Yield.outcome_feed_of_error` — more text does not make up for an error
- `Yield.outcome_of_feed` — the outcome of a text whose continuation has no error
- `parse_beginning` — the results of parsing a text, its continuations and its beginnings
-/

namespace StreamingJson

namespace Yield

variable {y z : Yield Lexer} {values : List Value}

/-- More text does not make up for an error other than that the text ends inside a value. -/
theorem outcome_feed_of_error {cause : Error} (h : y.outcome = .error cause)
    (hfinal : cause.isTruncated = false) (more : List (List UInt8)) :
    (more.foldl feed y).outcome = .error cause := by
  obtain ⟨own, ending⟩ := y
  rw [outcome] at h
  cases ending with
  | failed cause' =>
    rw [foldl_feed_of_verdict rfl, outcome]
    exact h
  | closed => cases h
  | dry l b =>
    dsimp only at h
    split at h
    · cases h
      cases hfinal
    · cases h

/-- Places and quotations play no part in an outcome that is no error. -/
theorem outcome_unplaced_eq_ok_iff (y : Yield Lexer) :
    y.unplaced.outcome = .ok values ↔ y.outcome = .ok values := by
  obtain ⟨own, ending⟩ := y
  cases ending with
  | failed cause => simp [unplaced, Ending.unplaced, outcome]
  | closed => rfl
  | dry l b =>
    have hmid : l.unplaced.isMidValue = l.isMidValue := rfl
    simp only [unplaced, Ending.unplaced, outcome, hmid]
    split <;> simp

theorem outcome_ok_congr (h : y.unplaced = z.unplaced) (hy : y.outcome = .ok values) :
    z.outcome = .ok values := by
  rw [← outcome_unplaced_eq_ok_iff, ← h]
  exact (outcome_unplaced_eq_ok_iff y).mpr hy

/-- A text whose continuation has no error gives some of its values or ends inside a value. -/
theorem outcome_of_feed {chunk : List UInt8} (h : (y.feed chunk).outcome = .ok values) :
    (∃ given, y.outcome = .ok given ∧ given <+: values) ∨
      ∃ place, y.outcome = .error (.truncated place) := by
  obtain ⟨more, ending, hfeed⟩ := exists_feed_eq y chunk
  obtain rfl := values_of_outcome h
  have hgiven : y.values <+: (y.feed chunk).values := by
    rw [hfeed]
    exact List.prefix_append _ _
  obtain ⟨own, stopped⟩ := y
  cases stopped with
  | failed cause => cases h
  | closed => exact .inl ⟨own, rfl, hgiven⟩
  | dry l b =>
    by_cases hrest : (l.isMidValue || decide (b.depth ≠ 0)) = true
    · exact .inr ⟨l.location, if_pos hrest⟩
    · exact .inl ⟨own, if_neg hrest, hgiven⟩

end Yield

/-- An error in a text that is not its end inside a value is the error of all texts that begin with
it. The beginnings of a text without an error, in whatever chunks, give some of its values or end
inside a value. -/
theorem parse_beginning (options : Options) (chunks : List (List UInt8)) :
    (∀ cause, parse options chunks = .error cause → cause.isTruncated = false →
        ∀ more, parse options (chunks ++ more) = .error cause) ∧
      (∀ values, parse options chunks = .ok values →
        ∀ start : List (List UInt8), start.flatten <+: chunks.flatten →
          (∃ given, parse options start = .ok given ∧ given <+: values) ∨
            ∃ place, parse options start = .error (.truncated place)) := by
  refine ⟨?_, ?_⟩
  · intro cause hcause hfinal more
    rw [parse_eq_outcome] at hcause ⊢
    rw [Yield.ofChunks_append]
    exact Yield.outcome_feed_of_error hcause hfinal more
  · rintro values hvalues start ⟨rest, hrest⟩
    rw [parse_eq_outcome] at hvalues ⊢
    -- what the text has more than its beginning comes as one chunk
    have hcut : chunks.flatten = (start ++ [rest]).flatten := by
      rw [List.flatten_append, List.flatten_singleton, hrest]
    have hwhole := Yield.outcome_ok_congr (Yield.unplaced_ofChunks_congr options hcut) hvalues
    rw [Yield.ofChunks_append] at hwhole
    exact Yield.outcome_of_feed hwhole

/-- The text `[x` with more after it, and the text `{}[1]` up to its second bracket, which is in a
chunk of its own. -/
theorem parse_beginning_inside_array :
    let wrong : List (List UInt8) := [[0x5B], [0x78]]
    let cause : Error := .lexical ⟨.invalidCharacter [0x78], ⟨1, 2⟩⟩
    let right : List (List UInt8) := [[0x7B, 0x7D, 0x5B], [0x31, 0x5D]]
    let start : List (List UInt8) := [[0x7B], [0x7D], [0x5B]]
    (parse {} wrong = .error cause ∧ cause.isTruncated = false ∧
        parse {} (wrong ++ [[0x5D]]) = .error cause) ∧
      parse {} right = .ok [.object [], .array [.int 1]] ∧ start.flatten <+: right.flatten ∧
        ((∃ given, parse {} start = .ok given ∧ given <+: [.object [], .array [.int 1]]) ∨
          ∃ place, parse {} start = .error (.truncated place)) := by
  intro wrong cause right start
  have hwrong : parse {} wrong = .error cause := by decide +kernel
  have hright : parse {} right = .ok [.object [], .array [.int 1]] := by decide +kernel
  have hstart : start.flatten <+: right.flatten := by decide
  exact ⟨⟨hwrong, rfl, (parse_beginning {} wrong).1 cause hwrong rfl _⟩, hright, hstart,
    (parse_beginning {} right).2 _ hright start hstart⟩

end StreamingJson
