import Mathlib.Data.List.Induction
import StreamingJson.Proofs.Unplaced

/-!
# The place of a lexer

A lexer counts lines and columns as it takes bytes, singly and in runs. Here its place is given by
the bytes that it has taken, however it took them: it has moved past these and no others, from
wherever it started.

## Main definitions

- `Location.behind` — the place right behind a text
- `Location.pastAll` — the place after further bytes
- `Location.shiftedBy` — a place in a text, where the text itself starts at some place
- `Lexer.StandsIn` — a lexer that has what is left of a text to read and stands right before it

## Main statements

- `Location.pastAll_eq_shiftedBy` — counting from another place shifts the places
- `Lexer.scan_relocated` — a lexer takes the same bytes wherever it starts, and moves past them
- `Lexer.StandsIn.next` — reading a token leaves a lexer where it should stand
-/

namespace StreamingJson

namespace Location

/-- The place right behind a text: the line feeds count the lines, and the bytes after the last of
them the columns. -/
def behind (bytes : List UInt8) : Location :=
  ⟨1 + bytes.count 0x0A, 1 + (bytes.reverse.takeWhile (· != 0x0A)).length⟩

/-- The place after further bytes. -/
def pastAll (place : Location) (bytes : List UInt8) : Location :=
  bytes.foldl past place

/-- A place in a text that itself starts at `origin`: the first line of the text goes on from there,
and every further line begins anew. -/
def shiftedBy (place origin : Location) : Location :=
  ⟨origin.line + (place.line - 1),
    if place.line = 1 then origin.column + (place.column - 1) else place.column⟩

theorem pastAll_append (place : Location) (bytes more : List UInt8) :
    place.pastAll (bytes ++ more) = (place.pastAll bytes).pastAll more :=
  List.foldl_append

theorem pastAll_concat (place : Location) (bytes : List UInt8) (b : UInt8) :
    place.pastAll (bytes ++ [b]) = (place.pastAll bytes).past b :=
  pastAll_append place bytes [b]

theorem behind_concat (bytes : List UInt8) (b : UInt8) :
    behind (bytes ++ [b]) = (behind bytes).past b := by
  by_cases hb : b = 0x0A
  · rw [hb]
    simp [behind, past, Nat.add_assoc]
  · simp [behind, past, hb]
    omega

/-- A further byte moves a place in the text and the shifted place alike. -/
theorem shiftedBy_past {place : Location} (hline : 1 ≤ place.line) (hcolumn : 1 ≤ place.column)
    (origin : Location) (b : UInt8) :
    (place.past b).shiftedBy origin = (place.shiftedBy origin).past b := by
  by_cases hb : b = 0x0A
  · have hnext : place.line + 1 ≠ 1 := by omega
    simp only [past, shiftedBy, if_pos hb, if_neg hnext, mk.injEq, and_true]
    omega
  · by_cases hfirst : place.line = 1
    · simp only [past, shiftedBy, if_neg hb, if_pos hfirst, mk.injEq, true_and]
      omega
    · simp only [past, shiftedBy, if_neg hb, if_neg hfirst]

/-- The place behind a text that starts at `origin` is the place behind it, shifted there. -/
theorem pastAll_eq_shiftedBy (origin : Location) (bytes : List UInt8) :
    origin.pastAll bytes = (behind bytes).shiftedBy origin := by
  induction bytes using List.reverseRecOn with
  | nil => rfl
  | append_singleton bytes b ih =>
    have hline : 1 ≤ (behind bytes).line := Nat.le_add_right ..
    have hcolumn : 1 ≤ (behind bytes).column := Nat.le_add_right ..
    rw [pastAll_concat, ih, behind_concat, shiftedBy_past hline hcolumn]

theorem pastAll_start (bytes : List UInt8) : start.pastAll bytes = behind bytes := by
  induction bytes using List.reverseRecOn with
  | nil => rfl
  | append_singleton bytes b ih => rw [pastAll_concat, ih, behind_concat]

theorem behind_append (bytes more : List UInt8) :
    behind (bytes ++ more) = (behind bytes).pastAll more := by
  rw [← pastAll_start, pastAll_append, pastAll_start]

end Location

/-- The fault at another place. -/
def LexicalFault.relocated (fault : LexicalFault) (place : Location) : LexicalFault :=
  { fault with location := place }

namespace Lexer

variable {l l' : Lexer} {text chunk : List UInt8}

/-- A lexer takes the same bytes wherever it starts, and moves past these. A fault is found where
the lexer stands afterwards. -/
theorem scan_relocated (l : Lexer) (bytes : List UInt8) :
    ∃ read, bytes = read ++ (l.scan bytes).2.unread ∧
      ∀ place, (l.relocated place).scan bytes =
        ((l.scan bytes).1.mapError (·.relocated (place.pastAll read)),
          (l.scan bytes).2.relocated (place.pastAll read)) := by
  induction bytes generalizing l with
  | nil =>
    refine ⟨[], ?_, fun place => ?_⟩
    · rw [scan]
      rfl
    · rw [scan, scan]
      rfl
  | cons b rest ih =>
    cases hstep : l.scanner.step l.depthLimit (Utf8.leading (b :: rest)) b with
    | shift next =>
      obtain ⟨read, hrest, hplaces⟩ := ih (l.past b next)
      rw [scan_shift hstep]
      refine ⟨b :: read, congrArg (b :: ·) hrest, fun place => ?_⟩
      rw [scan_shift (l := l.relocated place) hstep]
      exact hplaces (place.past b)
    | consume result next =>
      rw [scan_consume hstep]
      refine ⟨[b], ?_, fun place => ?_⟩
      · cases result <;> rfl
      · rw [scan_consume (l := l.relocated place) hstep]
        cases result <;> rfl
    | leave result next =>
      rw [scan_leave hstep]
      refine ⟨[], ?_, fun place => ?_⟩
      · cases result <;> rfl
      · rw [scan_leave (l := l.relocated place) hstep]
        cases result <;> rfl

/-- Reading a token moves a lexer past the bytes that it takes. -/
theorem next_relocated (l : Lexer) :
    ∃ read, l.unread = read ++ l.next.2.unread ∧
      l.next.2.location = l.location.pastAll read ∧
      ∀ place, (l.relocated place).next =
        (l.next.1.mapError (·.relocated (place.pastAll read)),
          l.next.2.relocated (place.pastAll read)) := by
  obtain ⟨read, hunread, hplaces⟩ := scan_relocated l l.unread
  have hhere : l.next = _ := hplaces l.location
  exact ⟨read, hunread, congrArg (fun r => r.2.location) hhere, hplaces⟩

/-- A fault carries the place where the lexer stands after it. -/
theorem location_of_fault {fault : LexicalFault} (h : l.next = (.error fault, l')) :
    fault.location = l'.location := by
  obtain ⟨read, -, -, hplaces⟩ := next_relocated l
  have hhere : l.next = _ := hplaces l.location
  rw [h] at hhere
  obtain ⟨hfault, hlexer⟩ := Prod.mk.inj hhere
  rw [hlexer, Except.error.inj hfault]
  rfl

/-- A lexer that has what is left of a text to read and stands right before it. -/
def StandsIn (l : Lexer) (text : List UInt8) : Prop :=
  ∃ read, text = read ++ l.unread ∧ l.location = Location.behind read

theorem standsIn_fresh (l : Lexer) : l.fresh.StandsIn [] :=
  ⟨[], rfl, rfl⟩

theorem StandsIn.next {result : Except LexicalFault (Option Token)} (h : l.StandsIn text)
    (hnext : l.next = (result, l')) : l'.StandsIn text := by
  obtain ⟨before, htext, hplace⟩ := h
  obtain ⟨read, hunread, hmoved, -⟩ := next_relocated l
  rw [hnext] at hunread hmoved
  refine ⟨before ++ read, ?_, ?_⟩
  · rw [htext, hunread, List.append_assoc]
  · rw [hmoved, hplace, Location.behind_append]

/-- A chunk that is taken stands behind what is read. -/
theorem StandsIn.loaded (h : l.StandsIn text) (hunread : l.unread = []) (chunk : List UInt8) :
    (l.loaded chunk).StandsIn (text ++ chunk) := by
  obtain ⟨before, htext, hplace⟩ := h
  rw [hunread, List.append_nil] at htext
  exact ⟨before, congrArg (· ++ chunk) htext, hplace⟩

end Lexer

end StreamingJson
