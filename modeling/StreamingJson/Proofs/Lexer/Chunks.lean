import StreamingJson.Proofs.Lexer.Bytes
import StreamingJson.Proofs.Lexer.Quotation

/-!
# Cutting a text does not change its tokens

A lexer is fed a text chunk by chunk and asked for tokens after each chunk until it gives none. What
it gives depends on the text and not on where the text is cut: the tokens with their places, the
lexer left behind, and the place and cause of a fault. Only how much of the offending character a
fault quotes depends on how much of it is in the chunk.

## Main definitions

- `Lexer.readChunks` — feeds chunks one after the other and reads each to its end
- `Lexer.Ending.Agrees` — the same ending but for the length of a quotation

## Main statements

- `Lexer.readBytes_append_of_ok`, `Lexer.readBytes_append_of_fault` — the reading of two chunks in a
  row
- `Lexer.readChunks_abridges` — chunks are read like their concatenation
- `Lexer.readChunks_agrees` — two cuts of one text are read alike
-/

namespace StreamingJson

/-- A fault at the same place with an abridged cause. -/
def LexicalFault.Abridges (f g : LexicalFault) : Prop :=
  f.location = g.location ∧ f.cause.Abridges g.cause

namespace Lexer

/-- How reading chunk after chunk ends. -/
inductive Ending where
  /-- Every chunk is read. -/
  | dry (l : Lexer)
  /-- A chunk holds a fault. -/
  | faulty (fault : LexicalFault)
  /-- A chunk is refused. -/
  | refused (refusal : UnreadInput)

/-- Feeds chunks one after the other and reads each until it gives no further token. -/
def readChunks (l : Lexer) : List (List UInt8) → List PlacedToken × Ending
  | [] => ([], .dry l)
  | chunk :: rest =>
    match l.feed chunk with
    | .error refusal => ([], .refused refusal)
    | .ok fed =>
      let r := TokenSource.reading fed
      match r.rest with
      | .error fault => (r.tokens, .faulty fault)
      | .ok l' =>
        let (tokens, ending) := l'.readChunks rest
        (r.tokens ++ tokens, ending)

namespace Ending

/-- Two endings that differ at most in how much of the offending character a fault quotes. -/
def Agrees : Ending → Ending → Prop
  | .dry l, .dry m => l = m
  | .faulty f, .faulty g => f.Abridges g ∨ g.Abridges f
  | _, _ => False

/-- The ending that the rest of a reading is, but for an abridged fault. -/
def Abridges : Ending → Except LexicalFault Lexer → Prop
  | .dry l, .ok m => l = m
  | .faulty f, .error g => f.Abridges g
  | _, _ => False

/-- Two abridgements of one ending agree. -/
theorem Abridges.agrees {e e' : Ending} {r : Except LexicalFault Lexer} (h : e.Abridges r)
    (h' : e'.Abridges r) : e.Agrees e' := by
  cases e with
  | dry l =>
    cases r with
    | error g => exact h.elim
    | ok m =>
      cases e' with
      | dry l' => exact Eq.trans h (Eq.symm h')
      | faulty f' => exact h'.elim
      | refused refusal => exact h'.elim
  | faulty f =>
    cases r with
    | ok m => exact h.elim
    | error g =>
      cases e' with
      | dry l' => exact h'.elim
      | faulty f' =>
        obtain ⟨hplace, hcause⟩ := h
        obtain ⟨hplace', hcause'⟩ := h'
        exact (hcause.total hcause').imp (⟨hplace.trans hplace'.symm, ·⟩)
          (⟨hplace'.trans hplace.symm, ·⟩)
      | refused refusal => exact h'.elim
  | refused refusal => exact h.elim

end Ending

private theorem step_longer (l : Lexer) (b : UInt8) (rest d : List UInt8) :
    (l.scanner.step l.depthLimit (Utf8.leading (b :: rest)) b).Abridges
      (l.scanner.step l.depthLimit (Utf8.leading (b :: (rest ++ d))) b) :=
  Scanner.step_abridges _ _ _ (Utf8.leading_ne_nil b rest)
    (Utf8.leading_prefix (List.prefix_append (b :: rest) d))

/-- How the reading `whole` of a chunk followed by `more` goes on from the reading of the chunk:
where the chunk is read to its end the lexer left behind reads `more`, and a fault remains the same
but for its quotation. -/
def GoesOn (r whole : Reading Lexer) (more : List UInt8) : Prop :=
  match r.rest with
  | .ok l' => whole = (l'.readBytes more).prepend r.tokens
  | .error f => ∃ g, whole = ⟨r.tokens, .error g⟩ ∧ f.Abridges g

theorem GoesOn.prepend {r whole : Reading Lexer} {more : List UInt8} (h : GoesOn r whole more)
    (ts : List PlacedToken) : GoesOn (r.prepend ts) (whole.prepend ts) more := by
  unfold GoesOn at h ⊢
  rw [Reading.rest_prepend]
  split at h
  · rw [h, Reading.prepend_prepend, Reading.tokens_prepend]
  · obtain ⟨g, rfl, hg⟩ := h
    exact ⟨g, rfl, hg⟩

/-- The reading of two chunks in a row. -/
theorem readBytes_append (l : Lexer) (c d : List UInt8) :
    GoesOn (l.readBytes c) (l.readBytes (c ++ d)) d := by
  -- every byte has the same step in the longer chunk, but for the quotation in a fault
  fun_induction readBytes l c with
  | case1 l =>
    simp only [GoesOn]
    rw [List.nil_append, readBytes_loaded, Reading.prepend_nil]
  | case2 l b rest next hstep ih =>
    have hlonger := step_longer l b rest d
    rw [hstep, Step.shift_abridges] at hlonger
    rw [List.cons_append, readBytes_shift hlonger]
    exact ih
  | case3 l b rest token next hstep ih =>
    have hlonger := step_longer l b rest d
    rw [hstep, Step.consume_ok_abridges] at hlonger
    rw [List.cons_append, readBytes_consume_token hlonger]
    exact ih.prepend _
  | case4 l b rest cause next hstep =>
    have hlonger := step_longer l b rest d
    rw [hstep, Step.consume_error_abridges] at hlonger
    obtain ⟨cause', hlonger, hcause⟩ := hlonger
    rw [List.cons_append, readBytes_consume_fault hlonger]
    exact ⟨_, rfl, rfl, hcause⟩
  | case5 l b rest token next hstep ih =>
    have hlonger := step_longer l b rest d
    rw [hstep, Step.leave_ok_abridges] at hlonger
    rw [List.cons_append, readBytes_leave_token hlonger]
    exact ih.prepend _
  | case6 l b rest cause next hstep =>
    have hlonger := step_longer l b rest d
    rw [hstep, Step.leave_error_abridges] at hlonger
    obtain ⟨cause', hlonger, hcause⟩ := hlonger
    rw [List.cons_append, readBytes_leave_fault hlonger]
    exact ⟨_, rfl, rfl, hcause⟩

/-- After a chunk that is read to its end the next one is read where the first left off. -/
theorem readBytes_append_of_ok {l l' : Lexer} {c : List UInt8} (d : List UInt8)
    (h : (l.readBytes c).rest = .ok l') :
    l.readBytes (c ++ d) = (l'.readBytes d).prepend (l.readBytes c).tokens := by
  have happend := readBytes_append l c d
  rwa [GoesOn, h] at happend

/-- Bytes after a fault change at most how much of the offending character it quotes. -/
theorem readBytes_append_of_fault {l : Lexer} {c : List UInt8} {f : LexicalFault} (d : List UInt8)
    (h : (l.readBytes c).rest = .error f) :
    ∃ g, l.readBytes (c ++ d) = ⟨(l.readBytes c).tokens, .error g⟩ ∧ f.Abridges g := by
  have happend := readBytes_append l c d
  rwa [GoesOn, h] at happend

theorem unread_of_readBytes {l l' : Lexer} {bytes : List UInt8}
    (h : (l.readBytes bytes).rest = .ok l') : l'.unread = [] := by
  fun_induction readBytes l bytes with
  | case1 l => obtain rfl := Except.ok.inj h; rfl
  | case2 l b rest next hstep ih => exact ih h
  | case3 l b rest token next hstep ih => exact ih h
  | case4 l b rest cause next hstep => cases h
  | case5 l b rest token next hstep ih => exact ih h
  | case6 l b rest cause next hstep => cases h

theorem feed_of_unread {l : Lexer} (h : l.unread = []) (chunk : List UInt8) :
    l.feed chunk = .ok (l.loaded chunk) := by
  simp [feed, needsInput, h, loaded]

/-- Chunks are read like their concatenation, but for the length of a quotation. -/
theorem readChunks_abridges {l : Lexer} (h : l.unread = []) (chunks : List (List UInt8)) :
    (l.readChunks chunks).1 = (l.readBytes chunks.flatten).tokens ∧
      (l.readChunks chunks).2.Abridges (l.readBytes chunks.flatten).rest := by
  induction chunks generalizing l with
  | nil =>
    rw [List.flatten_nil, readBytes_nil]
    exact ⟨rfl, by simp [readChunks, Ending.Abridges, loaded, ← h]⟩
  | cons c cs ih =>
    rw [readChunks, feed_of_unread h]
    simp only [reading_eq_readBytes, List.flatten_cons]
    cases hrest : (l.readBytes c).rest with
    | error f =>
      -- later chunks are not fed, and later bytes are not read
      obtain ⟨g, happend, hg⟩ := readBytes_append_of_fault cs.flatten hrest
      rw [happend]
      exact ⟨rfl, hg⟩
    | ok l' =>
      obtain ⟨htokens, hending⟩ := ih (unread_of_readBytes hrest)
      rw [readBytes_append_of_ok cs.flatten hrest]
      exact ⟨congrArg _ htokens, hending⟩

/-- Two cuts of one text are read alike: the same tokens at the same places, and then the same lexer
or the same fault at the same place, where one fault may quote more of the offending character. The
runs that a lexer takes in one go are read as if it took their bytes singly. -/
theorem readChunks_agrees (limit : Nat) (cs ds : List (List UInt8)) (h : cs.flatten = ds.flatten) :
    let l : Lexer := { depthLimit := limit }
    (l.readChunks cs).1 = (l.readChunks ds).1 ∧
      (l.readChunks cs).2.Agrees (l.readChunks ds).2 ∧
      ∀ (m : Lexer) (bytes : List UInt8),
        TokenSource.reading (m.loaded bytes) = m.readBytes bytes := by
  intro l
  obtain ⟨htokens, hending⟩ := readChunks_abridges (l := l) rfl cs
  obtain ⟨htokens', hending'⟩ := readChunks_abridges (l := l) rfl ds
  rw [h] at htokens hending
  refine ⟨htokens.trans htokens'.symm, hending.agrees hending', ?_⟩
  intro m bytes
  exact reading_eq_readBytes m bytes

/-- The array `["\u00e9",12]` in one chunk, and cut inside the escape, before an empty chunk and
inside the number. -/
theorem readChunks_agrees_inside_tokens :
    let l : Lexer := { depthLimit := 3 }
    let cs : List (List UInt8) :=
      [[0x5B, 0x22, 0x5C, 0x75, 0x30], [0x30, 0x65, 0x39, 0x22, 0x2C], [], [0x31], [0x32, 0x5D]]
    let ds : List (List UInt8) :=
      [[0x5B, 0x22, 0x5C, 0x75, 0x30, 0x30, 0x65, 0x39, 0x22, 0x2C, 0x31, 0x32, 0x5D]]
    cs.flatten = ds.flatten ∧
      (l.readChunks cs).1 = (l.readChunks ds).1 ∧
      (l.readChunks cs).2.Agrees (l.readChunks ds).2 ∧
      ∀ (m : Lexer) (bytes : List UInt8),
        TokenSource.reading (m.loaded bytes) = m.readBytes bytes :=
  ⟨by decide, readChunks_agrees 3 _ _ (by decide)⟩

end Lexer

end StreamingJson
