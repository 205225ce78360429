import StreamingJson.Proofs.Machine.Calls

/-!
# Renewing a machine

A machine that has read everything and is between values still holds what its last tokens left: the
text of a number that was out of range, a matched word, the flag of a number with a fraction. None
of it is ever seen. So the machine can be replaced by a new one, and a machine that is renewed with
every chunk between values does what one does that never is, but for the place where it starts to
count.

## Main statements

- `Machine.observe_leftovers` — between tokens the registers of former tokens are not seen
- `Machine.renewal_unseen` — nothing is lost by renewing
-/

namespace StreamingJson

namespace Machine

open Lexer (Answer Use Observation)

variable {m m' : Machine} {l : Lexer}

/-- Between tokens a machine stands for a lexer whatever its registers hold. -/
theorem Reflects.of_between (h : m.Reflects l) (hmode : m.mode = .between) (scratch : Array UInt8)
    (isFloat : Bool) (digits : Digits) (high : Option UInt16) (matcher : Matcher) :
    { m with scratch, isFloat, digits, high, matcher }.Reflects l := by
  obtain ⟨hlimit, hlocation, hposition, hrest, hcontainers, hexpect, hmirrored, -⟩ := h
  refine ⟨hlimit, hlocation, hposition, hrest, hcontainers, hexpect, hmirrored, ?_⟩
  rw [hmode] at hmirrored
  cases hlexeme : l.scanner.lexeme with rw [hlexeme] at hmirrored
  | between => trivial
  | word | number | text | escape | codeUnit => cases hmirrored

/-- Between tokens, also with containers open, the registers of former tokens are not seen, whatever
is done with the machine from then on. -/
theorem observe_leftovers (limit : Nat) (uses : List Use) (calls : List Lexer.Call)
    (scratch : Array UInt8) (isFloat : Bool) (digits : Digits) (high : Option UInt16)
    (matcher : Matcher) :
    let m := ({ depthLimit := limit } : Machine).afterUses uses
    m.mode = .between →
      { m with scratch, isFloat, digits, high, matcher }.observe feed calls =
        m.observe feed calls := by
  intro m hmode
  have hm := reflects_afterUses limit uses
  rw [hm.observe Reflects.feed, (hm.of_between hmode ..).observe Reflects.feed]

/-- A machine refuses a chunk if it has bytes to read, and is not changed then. -/
theorem respond_accept_refused {chunk : List UInt8} {refusal : UnreadInput} :
    m.respond TokenSource.accept (.feed chunk) = (.refused refusal, m') ↔
      m.needsInput = false ∧ refusal = ⟨m.input.length - m.pos⟩ ∧ m' = m := by
  have haccept : TokenSource.accept m chunk =
      if m.needsInput && !m.isMidValue then m.fresh.feed chunk else m.feed chunk := rfl
  have hfresh : m.fresh.feed chunk = .ok { m.fresh with input := chunk } := rfl
  rw [respond, haccept, hfresh, feed]
  cases m.needsInput with
  | true => cases m.isMidValue <;> simp
  | false => simp [eq_comm]

/-- A machine that has read everything and is between values, however it came there, and the new one
that may take its place are observed alike in the course of whatever calls, but for the shift of
places to where the old one stood. Hence a machine that is renewed with every chunk between values
is observed like one that never is, but for the shift to where it was last renewed; and it refuses a
chunk only where bytes are unread, and is not changed then. -/
theorem renewal_unseen :
    (∀ (limit : Nat) (uses : List Use),
        let m := ({ depthLimit := limit } : Machine).afterUses uses
        m.needsInput = true → m.isMidValue = false → ∀ calls,
          m.observe feed calls = (m.fresh.observe feed calls).map (·.shiftedBy m.location)) ∧
      (∀ (limit : Nat) (uses : List Use) (calls : List Lexer.Call),
        let m := ({ depthLimit := limit } : Machine).afterUses uses
        m.observe feed calls =
          List.zipWith Observation.shiftedBy (m.observe TokenSource.accept calls)
            (m.origins Location.start calls)) ∧
      ∀ (m m' : Machine) (chunk : List UInt8) (refusal : UnreadInput),
        m.respond TokenSource.accept (.feed chunk) = (.refused refusal, m') ↔
          m.needsInput = false ∧ refusal = ⟨m.input.length - m.pos⟩ ∧ m' = m := by
  obtain ⟨hrenewed, haccepted, -⟩ := Lexer.renewal_agrees
  refine ⟨?_, ?_, fun _ _ _ _ => respond_accept_refused⟩
  · intro limit uses m hneeds hmid calls
    have hm : m.Reflects _ := reflects_afterUses limit uses
    rw [hm.needsInput_eq] at hneeds
    rw [hm.isMidValue_eq] at hmid
    rw [hm.observe Reflects.feed, hm.fresh.observe Reflects.feed, hm.location]
    exact hrenewed _ hneeds hmid calls
  · intro limit uses calls m
    have hm : m.Reflects _ := reflects_afterUses limit uses
    rw [hm.observe Reflects.feed, hm.observe matching_reflects.accept, hm.origins,
      Lexer.afterUses_eq]
    exact haccepted limit (Lexer.latest uses) calls

/-- After a line feed, a word, a number with an exponent and an integer that does not fit a machine
is between values again, and its registers hold what is left of them. An array that is cut after its
bracket is in error in its second line. -/
theorem renewal_unseen_after_fault :
    let uses : List Use :=
      [.call (.feed (0x0A :: 0x74 :: 0x72 :: 0x75 :: 0x65 :: 0x20 :: 0x31 :: 0x65 :: 0x31 :: 0x20 ::
        List.replicate 20 0x39 ++ [0x20])), .call .next, .call .next, .call .next, .call .next]
    let m := ({ depthLimit := 2 } : Machine).afterUses uses
    let calls : List Lexer.Call :=
      [.feed [0x5B, 0x0A], .next, .feed [0x78], .next, .feed [0x78], .next]
    m.needsInput = true ∧ m.isMidValue = false ∧ m.location = ⟨2, 31⟩ ∧
      m.scratch = (List.replicate 20 0x39).toArray ∧ m.matcher = ⟨Word.true.text, 4⟩ ∧
      m.observe feed calls = (m.fresh.observe feed calls).map (·.shiftedBy m.location) := by
  intro uses m calls
  have hneeds : m.needsInput = true := by decide +kernel
  have hmid : m.isMidValue = false := by decide +kernel
  exact ⟨hneeds, hmid, by decide +kernel, by decide +kernel, by decide +kernel,
    renewal_unseen.1 2 uses hneeds hmid calls⟩

end Machine

end StreamingJson
