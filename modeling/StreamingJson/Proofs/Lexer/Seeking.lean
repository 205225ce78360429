import StreamingJson.Proofs.Grammar.Scanning
import StreamingJson.Proofs.Lexer.Places

/-!
# Seeking a token

A lexer is asked for one token, and chunks are fed to it as long as it gives none. What it gives is
decided by the first byte that the scanner does not simply take, and only the chunks up to the one
with that byte are fed.

## Main definitions

- `Lexer.moved` — a lexer after bytes that complete nothing
- `Lexer.seek` — asks for a token and feeds chunks until there is an answer

## Main statements

- `Lexer.scan_of_reads` — bytes that complete nothing only move a lexer
- `Lexer.seek_of_reads` — chunks that complete nothing are all fed, without an answer
- `Lexer.seek_of_deciding` — the answer is that to the text up to the end of the chunk with the byte
  that decides
- `Lexer.seek_of_leave`, `Lexer.seek_of_consume` — the answer and where the lexer then stands
-/

namespace StreamingJson

namespace Scanner

variable {limit : Nat} {s last : Scanner}

/-- A run without tokens can be cut anywhere. -/
theorem Reads.split {xs ys : List UInt8} (h : Reads limit s (xs ++ ys) [] last) :
    ∃ mid, Reads limit s xs [] mid ∧ Reads limit mid ys [] last := by
  induction xs generalizing s with
  | nil => exact ⟨s, .done s, h⟩
  | cons b xs ih =>
    cases h with
    | shift hstep hrest =>
      obtain ⟨mid, hxs, hys⟩ := ih hrest
      exact ⟨mid, .shift hstep hxs, hys⟩

end Scanner

namespace Lexer

variable {l : Lexer} {last : Scanner} {chunks : List (List UInt8)}

theorem handBack_ne_none (l : Lexer) (result : Except LexicalError Token) :
    (l.handBack result).1 ≠ .ok none := by
  cases result <;> simp [handBack]

@[simp]
theorem handBack_snd (l : Lexer) (result : Except LexicalError Token) :
    (l.handBack result).2 = l := by
  cases result <;> rfl

/-! ### Bytes that complete nothing -/

/-- A lexer after bytes that complete nothing. -/
def moved (l : Lexer) (bytes : List UInt8) (next : Scanner) : Lexer :=
  { l with scanner := next, location := l.location.pastAll bytes }

theorem moved_append (l : Lexer) (xs ys u : List UInt8) (mid last : Scanner) :
    ((l.moved xs mid).loaded u).moved ys last = (l.moved (xs ++ ys) last).loaded u := by
  simp [moved, loaded, Location.pastAll_append]

/-- Bytes that complete nothing only move a lexer. -/
theorem scan_of_reads {bytes : List UInt8}
    (h : Scanner.Reads l.depthLimit l.scanner bytes [] last) (rest : List UInt8) :
    l.scan (bytes ++ rest) = (l.moved bytes last).scan rest := by
  induction bytes generalizing l with
  | nil =>
    obtain ⟨-, rfl⟩ := Scanner.reads_nil_iff.mp h
    rfl
  | cons b bytes ih =>
    cases h with
    | @shift _ next _ _ _ _ hstep hrest =>
      rw [← Scanner.step_shift_iff _ (Utf8.leading (b :: (bytes ++ rest)))] at hstep
      rw [List.cons_append, scan_shift hstep]
      exact ih (l := l.past b next) hrest

/-- Where the unread bytes complete nothing there is no token, and every byte is read. -/
theorem next_of_reads (h : Scanner.Reads l.depthLimit l.scanner l.unread [] last) :
    l.next = (.ok none, (l.moved l.unread last).loaded []) := by
  have hscan := scan_of_reads h []
  rw [List.append_nil, scan] at hscan
  exact hscan

/-! ### Chunk after chunk -/

/-- What a lexer that is asked for a token answers, what it is then, and the chunks not fed. -/
structure Sought where
  answer : Except LexicalFault (Option Token)
  lexer : Lexer
  rest : List (List UInt8)

/-- Asks for a token. Whenever there is none yet the next chunk is fed. -/
def seek (l : Lexer) : List (List UInt8) → Sought
  | [] => ⟨l.next.1, l.next.2, []⟩
  | chunk :: rest =>
    match l.next with
    | (.ok none, l') =>
      match l'.feed chunk with
      | .ok fed => fed.seek rest
      | .error _ => ⟨.ok none, l', chunk :: rest⟩
    | (answer, l') => ⟨answer, l', chunk :: rest⟩

/-- Where the unread bytes complete nothing the next chunk is fed. -/
theorem seek_cons_of_reads {chunk : List UInt8}
    (h : Scanner.Reads l.depthLimit l.scanner l.unread [] last) :
    l.seek (chunk :: chunks) = ((l.moved l.unread last).loaded chunk).seek chunks := by
  have hfeed : ((l.moved l.unread last).loaded []).feed chunk =
      .ok ((l.moved l.unread last).loaded chunk) := feed_of_unread rfl chunk
  rw [seek, next_of_reads h]
  simp only [hfeed]

/-- Where the unread bytes give an answer no chunk is fed. -/
theorem seek_of_answer (h : l.next.1 ≠ .ok none) (chunks : List (List UInt8)) :
    l.seek chunks = ⟨l.next.1, l.next.2, chunks⟩ := by
  cases chunks with
  | nil => rfl
  | cons chunk chunks =>
    rw [seek]
    split
    next l' hnext => exact absurd (congrArg Prod.fst hnext) h
    next answer l' _ hnext => rw [hnext]

/-- Chunks that complete nothing are all fed, and there is no answer. -/
theorem seek_of_reads
    (h : Scanner.Reads l.depthLimit l.scanner (l.unread ++ chunks.flatten) [] last) :
    l.seek chunks =
      ⟨.ok none, (l.moved (l.unread ++ chunks.flatten) last).loaded [], []⟩ := by
  induction chunks generalizing l with
  | nil =>
    rw [List.flatten_nil, List.append_nil] at h ⊢
    rw [seek, next_of_reads h]
  | cons chunk chunks ih =>
    obtain ⟨mid, hunread, hrest⟩ := h.split
    rw [seek_cons_of_reads hunread, ih (l := (l.moved l.unread mid).loaded chunk) hrest]
    rw [moved_append]
    rfl

/-- The answer is that to the text up to the end of the chunk with the first byte that the scanner
does not simply take. -/
theorem seek_of_deciding {taken left : List UInt8} {b : UInt8} {found : List UInt8 → Lexer}
    {result : List UInt8 → Except LexicalError Token}
    (h : Scanner.Reads l.depthLimit l.scanner taken [] last)
    (hscan : ∀ seen, l.scan (taken ++ b :: seen) = (found seen).handBack (result seen))
    (htext : l.unread ++ chunks.flatten = taken ++ b :: left) :
    ∃ seen rest, left = seen ++ rest.flatten ∧
      l.seek chunks = ⟨((found seen).handBack (result seen)).1, found seen, rest⟩ := by
  induction chunks generalizing l taken with
  | nil =>
    rw [List.flatten_nil, List.append_nil] at htext
    refine ⟨left, [], by simp, ?_⟩
    rw [seek, next, htext, hscan, handBack_snd]
  | cons chunk chunks ih =>
    rcases List.append_eq_append_iff.mp htext with ⟨later, rfl, hchunks⟩ | ⟨seen, hunread, hleft⟩
    · -- the unread bytes are taken, and what decides is in a later chunk
      obtain ⟨mid, hfirst, hlater⟩ := h.split
      rw [seek_cons_of_reads hfirst]
      refine ih (l := (l.moved l.unread mid).loaded chunk) hlater (fun seen => ?_) hchunks
      rw [← hscan, List.append_assoc, scan_of_reads hfirst, scan_loaded]
    · cases seen with
      | nil =>
        -- the byte that decides opens a later chunk
        rw [List.append_nil] at hunread
        have hfirst : Scanner.Reads l.depthLimit l.scanner l.unread [] last := hunread ▸ h
        rw [seek_cons_of_reads hfirst]
        refine ih (l := (l.moved l.unread last).loaded chunk) (.done last) (fun seen => ?_)
          hleft.symm
        rw [← hscan, ← hunread, scan_of_reads hfirst, scan_loaded, List.nil_append]
      | cons c seen =>
        obtain ⟨rfl, rfl⟩ := List.cons.inj hleft
        have hnext : l.next = (found seen).handBack (result seen) := by rw [next, hunread, hscan]
        refine ⟨seen, chunk :: chunks, rfl, ?_⟩
        rw [seek_of_answer, hnext, handBack_snd]
        exact hnext ▸ handBack_ne_none _ _

/-- A byte that completes a token or a fault and is left stays unread, in front of what else is fed
of the text. -/
theorem seek_of_leave {taken left : List UInt8} {b : UInt8} {result : Except LexicalError Token}
    {next : Scanner} (h : Scanner.Reads l.depthLimit l.scanner taken [] last)
    (hstep : last.step l.depthLimit [] b = .leave result next)
    (htext : l.unread ++ chunks.flatten = taken ++ b :: left) :
    ∃ seen rest, left = seen ++ rest.flatten ∧
      let found := (l.moved taken next).loaded (b :: seen)
      l.seek chunks =
        ⟨(found.handBack (result.mapError (·.quoting (Utf8.leading (b :: seen))))).1, found,
          rest⟩ := by
  refine seek_of_deciding h (fun seen => ?_) htext
  rw [scan_of_reads h]
  apply scan_leave
  show last.step l.depthLimit _ b = _
  rw [Scanner.step_quoting, hstep, Step.quoting]

/-- A byte that completes a token or a fault and is taken leaves what else is fed of the text. -/
theorem seek_of_consume {taken left : List UInt8} {b : UInt8} {result : Except LexicalError Token}
    {next : Scanner} (h : Scanner.Reads l.depthLimit l.scanner taken [] last)
    (hstep : last.step l.depthLimit [] b = .consume result next)
    (htext : l.unread ++ chunks.flatten = taken ++ b :: left) :
    ∃ seen rest, left = seen ++ rest.flatten ∧
      let found := (l.moved (taken ++ [b]) next).loaded seen
      l.seek chunks =
        ⟨(found.handBack (result.mapError (·.quoting (Utf8.leading (b :: seen))))).1, found,
          rest⟩ := by
  have hmoved (seen : List UInt8) : (l.moved (taken ++ [b]) next).loaded seen =
      ((l.moved taken last).past b next).loaded seen := by
    rw [moved, Location.pastAll_concat]
    rfl
  refine seek_of_deciding h (fun seen => ?_) htext
  rw [scan_of_reads h, hmoved]
  apply scan_consume
  show last.step l.depthLimit _ b = _
  rw [Scanner.step_quoting, hstep, Step.quoting]

end Lexer

end StreamingJson
