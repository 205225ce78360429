import StreamingJson.Proofs.Lexer.Calls

/-!
# Renewing a lexer

A lexer that has read everything and is between values can be replaced by a new one: whatever is
asked of the two from then on, they answer alike, but that the new one counts its places from where
the old one stood. So a lexer that is renewed with every chunk between values is as good as one that
never is.

## Main definitions

- `Lexer.Observation`, `Lexer.observe` — what is seen of a lexer in the course of calls
- `Lexer.Observation.shiftedBy` — the same where the text starts at another place
- `Lexer.originAfter`, `Lexer.origins` — where a lexer that is renewed starts to count
- `Lexer.Trails` — two lexers that differ in where they started to count

## Main statements

- `Lexer.Trails.observe_feed` — such lexers are observed alike
- `Lexer.Trails.observe_accept` — and so they are where one of them is renewed
- `Lexer.renewal_agrees` — nothing is lost by renewing
-/

namespace StreamingJson

namespace Lexer

/-- The answer where the text starts at `origin`. -/
def Answer.shiftedBy (answer : Answer) (origin : Location) : Answer :=
  match answer with
  | .fault found => .fault (found.relocated (found.location.shiftedBy origin))
  | other => other

/-- What is seen of a lexer after a call. -/
structure Observation where
  answer : Answer
  needsInput : Bool
  isMidValue : Bool
  depth : Nat
  location : Location
deriving DecidableEq, Repr

/-- The observation where the text starts at `origin`. -/
def Observation.shiftedBy (o : Observation) (origin : Location) : Observation :=
  { o with answer := o.answer.shiftedBy origin, location := o.location.shiftedBy origin }

/-- What is seen after a call that was answered so and left the lexer so. -/
def observation (r : Answer × Lexer) : Observation :=
  ⟨r.1, r.2.needsInput, r.2.isMidValue, r.2.depth, r.2.location⟩

/-- What is seen of a lexer in the course of calls. -/
def observe (take : Lexer → List UInt8 → Except UnreadInput Lexer) (l : Lexer) :
    List Call → List Observation
  | [] => []
  | call :: calls =>
    observation (l.respond take call) :: (l.respond take call).2.observe take calls

/-- Where the text of a lexer that is renewed starts after a call, if it started at `origin` before:
`l` is the lexer that is not renewed. -/
def originAfter (l : Lexer) (origin : Location) : Call → Location
  | .feed _ => if l.needsInput && !l.isMidValue then l.location else origin
  | .next => origin

/-- Where the text of a lexer that is renewed starts, call by call. -/
def origins (l : Lexer) (origin : Location) : List Call → List Location
  | [] => []
  | call :: calls =>
    l.originAfter origin call ::
      (l.respond feed call).2.origins (l.originAfter origin call) calls

/-- The lexer `l` is like `m` but for its place: where `m` has counted from the start of a text, `l`
has counted the same bytes from `origin`. -/
def Trails (l m : Lexer) (origin : Location) : Prop :=
  ∃ read, m.location = Location.behind read ∧ l = m.relocated (origin.pastAll read)

variable {l m : Lexer} {origin : Location}

namespace Trails

theorem location_eq (h : l.Trails m origin) : l.location = m.location.shiftedBy origin := by
  obtain ⟨read, hplace, rfl⟩ := h
  rw [hplace]
  exact Location.pastAll_eq_shiftedBy origin read

/-- Two such lexers look alike. -/
theorem observation_eq (h : l.Trails m origin) {answer answer' : Answer}
    (hanswer : answer = answer'.shiftedBy origin) :
    observation (answer, l) = (observation (answer', m)).shiftedBy origin := by
  have hplace := h.location_eq
  obtain ⟨read, -, rfl⟩ := h
  rw [hanswer]
  exact congrArg (Observation.mk _ _ _ _) hplace

/-- A lexer between values trails a new one. -/
theorem of_fresh (hunread : l.unread = []) (hmid : l.isMidValue = false) :
    l.Trails l.fresh l.location := by
  refine ⟨[], rfl, ?_⟩
  have hrenewed := renewed_eq_relocated hunread
  rw [renewed, hmid, if_neg Bool.false_ne_true] at hrenewed
  rw [hrenewed]
  rfl

/-- A lexer trails itself, from the start of its text. -/
theorem of_standsIn {text : List UInt8} (h : l.StandsIn text) : l.Trails l Location.start := by
  obtain ⟨read, -, hplace⟩ := h
  refine ⟨read, hplace, ?_⟩
  rw [Location.pastAll_start, ← hplace]
  rfl

theorem unread_eq (h : l.Trails m origin) : l.unread = m.unread := by
  obtain ⟨read, -, rfl⟩ := h
  rfl

theorem loaded (h : l.Trails m origin) (chunk : List UInt8) :
    (l.loaded chunk).Trails (m.loaded chunk) origin := by
  obtain ⟨read, hplace, rfl⟩ := h
  exact ⟨read, hplace, rfl⟩

variable {take take' : Lexer → List UInt8 → Except UnreadInput Lexer}

/-- The next token is answered alike. -/
theorem respond_next (h : l.Trails m origin) :
    (l.respond take .next).1 = (m.respond take' .next).1.shiftedBy origin ∧
      (l.respond take .next).2.Trails (m.respond take' .next).2 origin := by
  obtain ⟨before, hplace, rfl⟩ := h
  obtain ⟨read, -, hmoved, hplaces⟩ := next_relocated m
  have hbehind : m.next.2.location = Location.behind (before ++ read) := by
    rw [hmoved, hplace, Location.behind_append]
  have htrails :
      (m.next.2.relocated ((origin.pastAll before).pastAll read)).Trails m.next.2 origin :=
    ⟨before ++ read, hbehind, by rw [Location.pastAll_append]⟩
  rw [respond, respond, hplaces]
  rcases hnext : m.next with ⟨fault | _ | token, m'⟩
  · rw [hnext] at htrails
    refine ⟨?_, htrails⟩
    have hfault : (origin.pastAll before).pastAll read = fault.location.shiftedBy origin := by
      rw [location_of_fault hnext, ← htrails.location_eq]
      rfl
    exact congrArg (fun place => Answer.fault (fault.relocated place)) hfault
  · rw [hnext] at htrails
    exact ⟨rfl, htrails⟩
  · rw [hnext] at htrails
    exact ⟨rfl, htrails⟩

/-- A call is answered alike. -/
theorem respond_feed (h : l.Trails m origin) (call : Call) :
    (l.respond feed call).1 = (m.respond feed call).1.shiftedBy origin ∧
      (l.respond feed call).2.Trails (m.respond feed call).2 origin := by
  cases call with
  | next => exact h.respond_next
  | feed chunk =>
    have hsame := h.unread_eq
    rw [respond, respond]
    by_cases hunread : m.unread = []
    · rw [feed_of_unread hunread, feed_of_unread (hsame.trans hunread)]
      exact ⟨rfl, h.loaded chunk⟩
    · have hrest : l.unread ≠ [] := by rwa [hsame]
      rw [feed_of_ne_nil hunread, feed_of_ne_nil hrest, hsame]
      exact ⟨rfl, h⟩

/-- A call is answered alike where the one lexer is renewed between values, and then it starts to
count where the other one stands. -/
theorem respond_accept (h : l.Trails m origin) (call : Call) :
    (l.respond feed call).1 =
        (m.respond TokenSource.accept call).1.shiftedBy (l.originAfter origin call) ∧
      (l.respond feed call).2.Trails (m.respond TokenSource.accept call).2
        (l.originAfter origin call) := by
  cases call with
  | next => exact h.respond_next
  | feed chunk =>
    obtain ⟨hneeds, hvalue, hfresh⟩ : m.needsInput = l.needsInput ∧
        m.isMidValue = l.isMidValue ∧ m.fresh = l.fresh := by
      obtain ⟨read, -, rfl⟩ := h
      exact ⟨rfl, rfl, rfl⟩
    rw [originAfter]
    by_cases hclean : (l.needsInput && !l.isMidValue) = true
    · obtain ⟨hread, hmid⟩ : l.unread = [] ∧ l.isMidValue = false := by
        simpa [needsInput] using hclean
      have haccept : TokenSource.accept m chunk = .ok (l.fresh.loaded chunk) := by
        rw [accept_of_unread (h.unread_eq.symm.trans hread), renewed, hvalue, hmid, hfresh,
          if_neg Bool.false_ne_true]
      rw [if_pos hclean, respond, respond, feed_of_unread hread, haccept]
      exact ⟨rfl, (of_fresh hread hmid).loaded chunk⟩
    · -- the lexer is not renewed
      have haccept : TokenSource.accept m chunk = m.feed chunk := by
        rw [← hneeds, ← hvalue] at hclean
        exact if_neg hclean
      have hsame : m.respond TokenSource.accept (.feed chunk) = m.respond feed (.feed chunk) := by
        simp only [respond, haccept]
      rw [if_neg hclean, hsame]
      exact h.respond_feed (.feed chunk)

/-- Two lexers that differ in where they started to count are observed alike. -/
theorem observe_feed (h : l.Trails m origin) (calls : List Call) :
    l.observe feed calls = (m.observe feed calls).map (·.shiftedBy origin) := by
  induction calls generalizing l m with
  | nil => rfl
  | cons call calls ih =>
    obtain ⟨hanswer, hnext⟩ := h.respond_feed call
    rw [observe, observe, List.map_cons, ih hnext]
    exact congrArg (· :: _) (hnext.observation_eq hanswer)

/-- And so they are where one of them is renewed between values. -/
theorem observe_accept (h : l.Trails m origin) (calls : List Call) :
    l.observe feed calls =
      List.zipWith Observation.shiftedBy (m.observe TokenSource.accept calls)
        (l.origins origin calls) := by
  induction calls generalizing l m origin with
  | nil => rfl
  | cons call calls ih =>
    obtain ⟨hanswer, hnext⟩ := h.respond_accept call
    rw [observe, observe, origins, List.zipWith_cons_cons, ih hnext]
    exact congrArg (· :: _) (hnext.observation_eq hanswer)

end Trails

/-- A lexer that has read everything and is between values, and the new one that may take its place,
are observed alike in the course of whatever calls, but for the shift of places to where the old one
stood. Hence a lexer that is renewed with every chunk between values is observed like one that never
is, but for the shift to where it was last renewed; and it refuses a chunk only where bytes are
unread, and is not changed then. -/
theorem renewal_agrees :
    (∀ l : Lexer, l.needsInput = true → l.isMidValue = false → ∀ calls,
        l.observe feed calls = (l.fresh.observe feed calls).map (·.shiftedBy l.location)) ∧
      (∀ (limit : Nat) (earlier calls : List Call),
        let l := ({ depthLimit := limit } : Lexer).after feed earlier
        l.observe feed calls =
          List.zipWith Observation.shiftedBy (l.observe TokenSource.accept calls)
            (l.origins Location.start calls)) ∧
      ∀ (l l' : Lexer) (chunk : List UInt8) (refusal : UnreadInput),
        l.respond TokenSource.accept (.feed chunk) = (.refused refusal, l') ↔
          l.unread ≠ [] ∧ refusal = ⟨l.unread.length⟩ ∧ l' = l := by
  refine ⟨?_, ?_, ?_⟩
  · intro l hneeds hmid calls
    have hunread : l.unread = [] := List.isEmpty_iff.mp hneeds
    exact (Trails.of_fresh hunread hmid).observe_feed calls
  · intro limit earlier calls l
    have hstands : l.StandsIn _ := (standsIn_fresh { depthLimit := limit }).after earlier
    exact (Trails.of_standsIn hstands).observe_accept calls
  · intro l l' chunk refusal
    by_cases hunread : l.unread = []
    · simp [respond, accept_of_unread hunread, hunread]
    · simp [respond, accept_of_ne_nil hunread, hunread, eq_comm]

end Lexer

end StreamingJson
