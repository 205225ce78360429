import StreamingJson.Proofs.Lexer.Places

/-!
# Calls to a lexer

A lexer as it is used from outside: chunks are offered and tokens asked for in any order, also after
a chunk was refused or a fault was found.

## Main definitions

- `Lexer.Call`, `Lexer.Answer` — what can be asked of a lexer, and what it answers
- `Lexer.respond` — what a call does
- `Lexer.after`, `Lexer.takenChunks` — the lexer after calls, and the chunks that it took

## Main statements

- `Lexer.location_of_respond` — a fault carries the place of the lexer after the call
- `Lexer.StandsIn.after` — a lexer stands in the text that the chunks make up which it took
- `Lexer.unread_after` — what is unread is the end of the last of them
-/

namespace StreamingJson

namespace Lexer

/-- What can be asked of a lexer. -/
inductive Call where
  /-- To take a chunk. -/
  | feed (chunk : List UInt8)
  /-- The next token. -/
  | next
deriving DecidableEq, Repr

/-- What a lexer answers. -/
inductive Answer where
  /-- The chunk is taken. -/
  | taken
  /-- The chunk is refused. -/
  | refused (refusal : UnreadInput)
  /-- A token is complete. -/
  | token (token : Token)
  /-- The bytes at hand complete no further token. -/
  | dry
  /-- There is a fault. -/
  | fault (fault : LexicalFault)
deriving DecidableEq, Repr

/-- What a lexer answers to a call and what it is then. It takes chunks by `take`; one that is
refused leaves it as it is. -/
def respond (take : Lexer → List UInt8 → Except UnreadInput Lexer) (l : Lexer) :
    Call → Answer × Lexer
  | .feed chunk =>
    match take l chunk with
    | .ok fed => (.taken, fed)
    | .error refusal => (.refused refusal, l)
  | .next =>
    match l.next with
    | (.ok (some token), l') => (.token token, l')
    | (.ok none, l') => (.dry, l')
    | (.error fault, l') => (.fault fault, l')

/-- The lexer after calls. -/
def after (take : Lexer → List UInt8 → Except UnreadInput Lexer) (l : Lexer) (calls : List Call) :
    Lexer :=
  calls.foldl (fun l call => (l.respond take call).2) l

/-- The chunks that a lexer takes in the course of calls, in order. -/
def takenChunks (take : Lexer → List UInt8 → Except UnreadInput Lexer) (l : Lexer) :
    List Call → List (List UInt8)
  | [] => []
  | .next :: calls => (l.respond take .next).2.takenChunks take calls
  | .feed chunk :: calls =>
    match take l chunk with
    | .ok fed => chunk :: fed.takenChunks take calls
    | .error _ => l.takenChunks take calls

variable {l l' : Lexer} {text chunk : List UInt8} {refusal : UnreadInput} {fault : LexicalFault}
  {take : Lexer → List UInt8 → Except UnreadInput Lexer}

/-! ### Chunks -/

theorem feed_of_ne_nil (h : l.unread ≠ []) (chunk : List UInt8) :
    l.feed chunk = .error ⟨l.unread.length⟩ := by
  have hneeds : ¬l.needsInput = true := by simpa [needsInput] using h
  rw [feed, if_neg hneeds]

theorem accept_of_ne_nil (h : l.unread ≠ []) (chunk : List UInt8) :
    TokenSource.accept l chunk = .error ⟨l.unread.length⟩ := by
  have hneeds : TokenSource.needsInput l = false := by
    show l.unread.isEmpty = false
    simpa using h
  rw [TokenSource.accept, hneeds, Bool.false_and, if_neg Bool.false_ne_true]
  exact feed_of_ne_nil h chunk

/-! ### Tokens -/

@[simp]
theorem respond_next_snd (l : Lexer) : (l.respond take .next).2 = l.next.2 := by
  rw [respond]
  split <;> simp only [*]

/-- A fault that is answered carries the place where the lexer stands after the call. -/
theorem location_of_respond {call : Call} (h : l.respond take call = (.fault fault, l')) :
    fault.location = l'.location := by
  cases call with
  | feed chunk =>
    rw [respond] at h
    split at h <;> cases h
  | next =>
    rw [respond] at h
    split at h
    · cases h
    · cases h
    next hnext =>
      cases h
      exact location_of_fault hnext

/-! ### Calls one after the other -/

/-- A lexer stands in the text that the chunks make up which it took. -/
theorem StandsIn.after (h : l.StandsIn text) (calls : List Call) :
    (l.after feed calls).StandsIn (text ++ (l.takenChunks feed calls).flatten) := by
  induction calls generalizing l text with
  | nil => simpa [Lexer.after, takenChunks] using h
  | cons call calls ih =>
    cases call with
    | next =>
      have hnext : (l.respond feed .next).2.StandsIn text := by
        rw [respond_next_snd]
        exact h.next rfl
      exact ih hnext
    | feed chunk =>
      rw [Lexer.after, List.foldl_cons, takenChunks, respond]
      by_cases hunread : l.unread = []
      · have hfed := ih (h.loaded hunread chunk)
        simp only [feed_of_unread hunread, List.flatten_cons]
        rwa [← List.append_assoc]
      · simp only [feed_of_ne_nil hunread]
        exact ih h

/-- What is unread after calls is the end of the chunk that was taken last. -/
theorem unread_after (l : Lexer) (calls : List Call) :
    (l.after feed calls).unread <:+ (l.takenChunks feed calls).getLastD l.unread := by
  induction calls generalizing l with
  | nil => exact List.suffix_refl _
  | cons call calls ih =>
    cases call with
    | next =>
      obtain ⟨read, hread, -⟩ := next_relocated l
      have hless : (l.respond feed .next).2.unread <:+ l.unread := by
        rw [respond_next_snd, hread]
        exact List.suffix_append ..
      refine (ih (l.respond feed .next).2).trans ?_
      rw [takenChunks]
      -- what was unread before counts only if no chunk is taken
      cases (l.respond feed .next).2.takenChunks feed calls with
      | nil => exact hless
      | cons chunk chunks => exact List.suffix_refl _
    | feed chunk =>
      rw [Lexer.after, List.foldl_cons, takenChunks, respond]
      by_cases hunread : l.unread = []
      · simp only [feed_of_unread hunread, List.getLastD_cons]
        exact ih (l.loaded chunk)
      · simp only [feed_of_ne_nil hunread]
        exact ih l

end Lexer

end StreamingJson
