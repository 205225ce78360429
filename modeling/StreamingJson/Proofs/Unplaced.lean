import StreamingJson.Proofs.Lexer.Chunks
import StreamingJson.Proofs.Pipeline.Conformance

/-!
# What does not depend on places

Places count from the start of the chunk in which a value begins, and a quotation ends with its
chunk. Here both are taken out of faults, tokens, lexers and yields. What remains of a reading does
not depend on where the lexer believes to be.

## Main definitions

- `LexicalFault.unplaced`, `Error.unplaced`, `Signal.unplaced` — faults and errors with neither
  place nor quotation
- `Reading.unplaced`, `Yield.unplaced` — the same for all that is read and yielded

## Main statements

- `Lexer.unplaced_readBytes` — a reading depends on the place of the lexer in its places only
- `Yield.ofReading_unplaced` — what tokens yield depends on places in its places only
-/

namespace StreamingJson

/-- The fault with neither place nor quotation. -/
def LexicalFault.unplaced (fault : LexicalFault) : LexicalFault :=
  ⟨fault.cause.quoting [], Location.start⟩

/-- The error with neither place nor quotation. -/
def Error.unplaced : Error → Error
  | .lexical fault => .lexical fault.unplaced
  | .malformed cause _ => .malformed cause Location.start
  | .truncated _ => .truncated Location.start
  | .supplier message => .supplier message
  | .protocol violation => .protocol violation

/-- The signal with neither place nor quotation. -/
def Signal.unplaced {α : Type} : Signal α → Signal α
  | .next item => .next item
  | .complete => .complete
  | .error cause => .error cause.unplaced

/-- The token without its place. -/
def PlacedToken.unplaced (t : PlacedToken) : PlacedToken :=
  ⟨t.token, Location.start⟩

/-- The lexer at another place. -/
def Lexer.relocated (l : Lexer) (place : Location) : Lexer :=
  { l with location := place }

/-- The lexer without its place. -/
def Lexer.unplaced (l : Lexer) : Lexer :=
  l.relocated Location.start

/-- The reading with neither places nor quotation. -/
def Reading.unplaced (r : Reading Lexer) : Reading Lexer :=
  ⟨r.tokens.map PlacedToken.unplaced, (r.rest.map Lexer.unplaced).mapError LexicalFault.unplaced⟩

/-- The outcome without places. -/
def Builder.Outcome.unplaced : Builder.Outcome → Builder.Outcome
  | .building b => .building b
  | .closed => .closed
  | .refused cause _ => .refused cause Location.start

/-- The ending with neither places nor quotation. -/
def Yield.Ending.unplaced : Yield.Ending Lexer → Yield.Ending Lexer
  | .failed cause => .failed cause.unplaced
  | .closed => .closed
  | .dry l b => .dry l.unplaced b

/-- The yield with neither places nor quotation. -/
def Yield.unplaced (y : Yield Lexer) : Yield Lexer :=
  ⟨y.values, y.ending.unplaced⟩

namespace LexicalError

/-- How much of a character an error quotes is lost when nothing is quoted. -/
theorem Abridges.quoting_eq {c d : LexicalError} (h : c.Abridges d) (shown : List UInt8) :
    c.quoting shown = d.quoting shown := by
  cases h <;> rfl

end LexicalError

theorem LexicalFault.Abridges.unplaced_eq {f g : LexicalFault} (h : f.Abridges g) :
    f.unplaced = g.unplaced := by
  rw [unplaced, unplaced, h.2.quoting_eq]

namespace Reading

theorem unplaced_prepend (ts : List PlacedToken) (r : Reading Lexer) :
    (r.prepend ts).unplaced = r.unplaced.prepend (ts.map PlacedToken.unplaced) := by
  simp [unplaced, prepend]

end Reading

namespace Lexer

/-- A reading depends on the place of the lexer in its places only. -/
theorem unplaced_readBytes (l : Lexer) (place : Location) (bytes : List UInt8) :
    ((l.relocated place).readBytes bytes).unplaced = (l.readBytes bytes).unplaced := by
  fun_induction readBytes l bytes generalizing place with
  | case1 l =>
    rw [readBytes_nil]
    rfl
  | case2 l b rest next hstep ih =>
    rw [readBytes_shift (l := l.relocated place) hstep]
    exact ih _
  | case3 l b rest token next hstep ih =>
    rw [readBytes_consume_token (l := l.relocated place) hstep, Reading.unplaced_prepend,
      Reading.unplaced_prepend]
    exact congrArg (Reading.prepend [⟨token, Location.start⟩]) (ih _)
  | case4 l b rest cause next hstep =>
    rw [readBytes_consume_fault (l := l.relocated place) hstep]
    rfl
  | case5 l b rest token next hstep ih =>
    rw [readBytes_leave_token (l := l.relocated place) hstep, Reading.unplaced_prepend,
      Reading.unplaced_prepend]
    exact congrArg (Reading.prepend [⟨token, Location.start⟩]) (ih _)
  | case6 l b rest cause next hstep =>
    rw [readBytes_leave_fault (l := l.relocated place) hstep]
    rfl

/-- A lexer that starts anew differs from the old one in its place only. -/
theorem renewed_eq_relocated {l : Lexer} (h : l.unread = []) :
    l.renewed = l.relocated l.renewed.location := by
  by_cases hmid : l.isMidValue = true
  · rw [renewed, if_pos hmid]
    rfl
  · have hscanner : l.scanner = {} := Scanner.eq_of_not_isMidValue (Bool.eq_false_iff.mpr hmid)
    rw [renewed, if_neg hmid, relocated, fresh, hscanner, h]

theorem unplaced_readBytes_renewed {l : Lexer} (h : l.unread = []) (bytes : List UInt8) :
    (l.renewed.readBytes bytes).unplaced = (l.readBytes bytes).unplaced := by
  rw [renewed_eq_relocated h]
  exact unplaced_readBytes l _ bytes

end Lexer

namespace Builder

theorem pushAll_unplaced (b : Builder) (ts : List PlacedToken) :
    b.pushAll (ts.map PlacedToken.unplaced) =
      ((b.pushAll ts).1, (b.pushAll ts).2.unplaced) := by
  induction ts generalizing b with
  | nil => rfl
  | cons t ts ih =>
    rw [List.map_cons]
    rcases h : b.push t.token with ⟨cause | _ | v | _, b'⟩
    · rw [pushAll_refused ts h, pushAll_refused (t := t.unplaced) _ h]
      rfl
    · rw [pushAll_incomplete ts h, pushAll_incomplete (t := t.unplaced) _ h]
      exact ih b'
    · rw [pushAll_value ts h, pushAll_value (t := t.unplaced) _ h, ih b']
    · rw [pushAll_closed ts h, pushAll_closed (t := t.unplaced) _ h]
      rfl

end Builder

namespace Yield

/-- Places do not matter for what a reading yields. -/
theorem ofReading_unplaced (b : Builder) (r : Reading Lexer) :
    ofReading b r.unplaced = (ofReading b r).unplaced := by
  unfold ofReading
  rw [Reading.unplaced, Builder.pushAll_unplaced]
  cases (b.pushAll r.tokens).2 with
  | building b' => cases r.rest <;> rfl
  | closed => rfl
  | refused cause place => rfl

theorem unplaced_ofReading_congr {r r' : Reading Lexer} (h : r.unplaced = r'.unplaced)
    (b : Builder) : (ofReading b r).unplaced = (ofReading b r').unplaced := by
  rw [← ofReading_unplaced, h, ofReading_unplaced]

theorem unplaced_prepend (vs : List Value) (y : Yield Lexer) :
    (y.prepend vs).unplaced = y.unplaced.prepend vs := rfl

/-- The verdict depends on places in its own place only. -/
theorem unplaced_verdict (y : Yield Lexer) (ended : Bool) :
    (y.unplaced.verdict ended).map Signal.unplaced = (y.verdict ended).map Signal.unplaced := by
  obtain ⟨values, ending⟩ := y
  cases ending with
  | failed cause =>
    show some (Signal.error cause.unplaced.unplaced) = some (Signal.error cause.unplaced)
    cases cause with
    | lexical fault =>
      have hcause : (fault.cause.quoting []).quoting [] = fault.cause.quoting [] := by
        cases fault.cause <;> rfl
      rw [Error.unplaced, Error.unplaced, LexicalFault.unplaced, LexicalFault.unplaced, hcause]
    | malformed cause place => rfl
    | truncated place => rfl
    | supplier message => rfl
    | protocol violation => rfl
  | closed => rfl
  | dry l b =>
    have hmid : l.unplaced.isMidValue = l.isMidValue := rfl
    cases ended with
    | false => rfl
    | true =>
      simp only [unplaced, Ending.unplaced, verdict, hmid]
      split
      · rfl
      · split <;> rfl

theorem unplaced_verdict_congr {y z : Yield Lexer} (h : y.unplaced = z.unplaced) (ended : Bool) :
    (y.verdict ended).map Signal.unplaced = (z.verdict ended).map Signal.unplaced := by
  rw [← unplaced_verdict, h, unplaced_verdict]

end Yield

end StreamingJson
