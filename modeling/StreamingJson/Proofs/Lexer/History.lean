import Mathlib.Logic.Relation
import StreamingJson.Proofs.Lexer.Renewal
import StreamingJson.Proofs.Lexer.Seeking

/-!
# The history of a lexer

A scanner comes through a text turn by turn, and a turn takes the next byte or leaves it, with or
without a token or a fault. However a lexer is called, and however many faults it meets, its scanner
has come in this way through the text that the chunks make up which it took. Only a renewal begins a
new text.

## Main definitions

- `Scanner.Turn`, `Scanner.Proceeds` — how a scanner comes through a text
- `Lexer.InText` — a lexer that has come through a text up to what is unread
- `Lexer.Use`, `Lexer.afterUses` — calls and renewals in any order
- `Lexer.latest` — the calls since the last renewal

## Main statements

- `Lexer.proceeds_scan` — what a lexer reads its scanner comes through
- `Lexer.InText.after` — calls take a lexer further in the text of its chunks
- `Lexer.afterUses_eq` — what happened before the last renewal does not count
-/

namespace StreamingJson

namespace Scanner

/-- A scanner in front of a text takes or leaves the next byte, whatever else comes of it. -/
inductive Turn (limit : Nat) : Scanner × List UInt8 → Scanner × List UInt8 → Prop where
  | shift {s next : Scanner} {b : UInt8} {rest shown : List UInt8}
    (hstep : s.step limit shown b = .shift next) : Turn limit (s, b :: rest) (next, rest)
  | consume {s next : Scanner} {b : UInt8} {rest shown : List UInt8}
    {result : Except LexicalError Token} (hstep : s.step limit shown b = .consume result next) :
    Turn limit (s, b :: rest) (next, rest)
  | leave {s next : Scanner} {b : UInt8} {rest shown : List UInt8}
    {result : Except LexicalError Token} (hstep : s.step limit shown b = .leave result next) :
    Turn limit (s, b :: rest) (next, b :: rest)

/-- A scanner in front of a text becomes another one in front of what is left of it. -/
def Proceeds (limit : Nat) : Scanner × List UInt8 → Scanner × List UInt8 → Prop :=
  Relation.ReflTransGen (Turn limit)

variable {limit : Nat} {s last : Scanner} {text left : List UInt8}

/-- More text behind does not matter. -/
theorem Proceeds.append (h : Proceeds limit (s, text) (last, left)) (more : List UInt8) :
    Proceeds limit (s, text ++ more) (last, left ++ more) := by
  refine Relation.ReflTransGen.lift (fun c : Scanner × List UInt8 => (c.1, c.2 ++ more))
    (fun _ _ hturn => ?_) _ _ h
  cases hturn with
  | shift hstep => exact .shift hstep
  | consume hstep => exact .consume hstep
  | leave hstep => exact .leave hstep

end Scanner

namespace Lexer

variable {l : Lexer} {text : List UInt8}

theorem proceeds_scan (l : Lexer) (bytes : List UInt8) :
    (l.scan bytes).2.depthLimit = l.depthLimit ∧
      Scanner.Proceeds l.depthLimit (l.scanner, bytes)
        ((l.scan bytes).2.scanner, (l.scan bytes).2.unread) := by
  induction bytes generalizing l with
  | nil =>
    rw [scan]
    exact ⟨rfl, .refl⟩
  | cons b rest ih =>
    cases hstep : l.scanner.step l.depthLimit (Utf8.leading (b :: rest)) b with
    | shift next =>
      obtain ⟨hlimit, hrest⟩ := ih (l.past b next)
      rw [scan_shift hstep]
      exact ⟨hlimit, .head (.shift hstep) hrest⟩
    | consume result next =>
      rw [scan_consume hstep, handBack_snd]
      exact ⟨rfl, .single (.consume hstep)⟩
    | leave result next =>
      rw [scan_leave hstep, handBack_snd]
      exact ⟨rfl, .single (.leave hstep)⟩

/-! ## Calls -/

/-- A lexer that has come through a text from its start, up to what is unread. -/
def InText (l : Lexer) (text : List UInt8) : Prop :=
  Scanner.Proceeds l.depthLimit ({}, text) (l.scanner, l.unread)

theorem inText_fresh (l : Lexer) : l.fresh.InText [] :=
  .refl

theorem InText.next (h : l.InText text) : l.next.2.InText text := by
  obtain ⟨hlimit, hproceeds⟩ := proceeds_scan l l.unread
  rw [InText, Lexer.next, hlimit]
  exact h.trans hproceeds

theorem InText.loaded (h : l.InText text) (hunread : l.unread = []) (chunk : List UInt8) :
    (l.loaded chunk).InText (text ++ chunk) := by
  rw [InText, hunread] at h
  exact h.append chunk

/-- However it is called, a lexer has come through the text that the chunks make up which it
took. -/
theorem InText.after (h : l.InText text) (calls : List Call) :
    (l.after feed calls).InText (text ++ (l.takenChunks feed calls).flatten) := by
  induction calls generalizing l text with
  | nil => simpa [Lexer.after, takenChunks] using h
  | cons call calls ih =>
    cases call with
    | next =>
      have hnext : (l.respond feed .next).2.InText text := by
        rw [respond_next_snd]
        exact h.next
      exact ih hnext
    | feed chunk =>
      rw [Lexer.after, List.foldl_cons, takenChunks, respond]
      by_cases hunread : l.unread = []
      · have hfed := ih (h.loaded hunread chunk)
        simp only [feed_of_unread hunread, List.flatten_cons]
        rwa [← List.append_assoc]
      · simp only [feed_of_ne_nil hunread]
        exact ih h

theorem depthLimit_respond (l : Lexer) (call : Call) :
    (l.respond feed call).2.depthLimit = l.depthLimit := by
  cases call with
  | next =>
    rw [respond_next_snd]
    exact (proceeds_scan l l.unread).1
  | feed chunk =>
    rw [respond]
    by_cases hunread : l.unread = []
    · rw [feed_of_unread hunread]
      rfl
    · rw [feed_of_ne_nil hunread]

theorem depthLimit_after (l : Lexer) (calls : List Call) :
    (l.after feed calls).depthLimit = l.depthLimit := by
  induction calls generalizing l with
  | nil => rfl
  | cons call calls ih => exact (ih (l.respond feed call).2).trans (depthLimit_respond l call)

/-! ## Renewals -/

/-- What can be done with a lexer. -/
inductive Use where
  /-- It is called. -/
  | call (call : Call)
  /-- It is replaced by a new one. -/
  | renew
deriving DecidableEq, Repr

/-- The lexer after one use. -/
def use (l : Lexer) : Use → Lexer
  | .call call => (l.respond feed call).2
  | .renew => l.fresh

/-- The lexer after it was used. -/
def afterUses (l : Lexer) (uses : List Use) : Lexer :=
  uses.foldl use l

/-- The calls since the last renewal after one more use. -/
def Use.extend (calls : List Call) : Use → List Call
  | .call c => calls ++ [c]
  | .renew => []

/-- The calls since the last renewal. -/
def latest (uses : List Use) : List Call :=
  uses.foldl Use.extend []

/-- A lexer that was used is one that was only called since it was new. -/
theorem afterUses_eq (limit : Nat) (uses : List Use) :
    ({ depthLimit := limit } : Lexer).afterUses uses =
      ({ depthLimit := limit } : Lexer).after feed (latest uses) := by
  induction uses using List.reverseRecOn with
  | nil => rfl
  | append_singleton uses use ih =>
    have hlatest : latest (uses ++ [use]) = use.extend (latest uses) := List.foldl_append
    have huse : afterUses { depthLimit := limit } (uses ++ [use]) =
        (after feed { depthLimit := limit } (latest uses)).use use :=
      List.foldl_append.trans (congrArg (·.use use) ih)
    rw [huse, hlatest]
    cases use with
    | renew =>
      rw [Lexer.use, fresh, depthLimit_after]
      rfl
    | call call =>
      rw [Use.extend, after, after, List.foldl_append]
      rfl

end Lexer

end StreamingJson
