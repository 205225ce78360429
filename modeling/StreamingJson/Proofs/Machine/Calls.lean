import StreamingJson.Proofs.Lexer.History
import StreamingJson.Proofs.Machine.Simulation
import StreamingJson.Proofs.Pipeline.Matching

/-!
# Calls to a machine

A machine as it is used from outside: chunks are offered and tokens asked for in any order, also
after faults, and in between it may be replaced by a new one. It is seen to do what the lexer does
that it stands for.

## Main definitions

- `Machine.respond`, `Machine.observe` — what a machine answers, and all that is seen of it
- `Machine.use`, `Machine.afterUses` — calls and renewals in any order
- `Machine.takenChunks` — the chunks that a machine takes
- `Machine.origins` — where a machine that is renewed with its chunks starts to count

## Main statements

- `Machine.Reflects.observe` — a machine is seen to do what the lexer does
- `Machine.reflects_afterUses` — however they were used, the machine stands for the lexer
- `Machine.paired_run` — a pipeline over a machine does what one over the lexer does
-/

namespace StreamingJson

namespace Machine

open Lexer (Answer Use Observation)

/-- What a machine answers to a call and what it is then. It takes chunks by `take`; one that is
refused leaves it as it is. -/
def respond (take : Machine → List UInt8 → Except UnreadInput Machine) (m : Machine) :
    Lexer.Call → Answer × Machine
  | .feed chunk =>
    match take m chunk with
    | .ok fed => (.taken, fed)
    | .error refusal => (.refused refusal, m)
  | .next =>
    match m.next with
    | (.ok (some token), m') => (.token token, m')
    | (.ok none, m') => (.dry, m')
    | (.error fault, m') => (.fault fault, m')

/-- What is seen after a call that was answered so and left the machine so. -/
def observation (r : Answer × Machine) : Observation :=
  ⟨r.1, r.2.needsInput, r.2.isMidValue, r.2.depth, r.2.location⟩

/-- What is seen of a machine in the course of calls. -/
def observe (take : Machine → List UInt8 → Except UnreadInput Machine) (m : Machine) :
    List Lexer.Call → List Observation
  | [] => []
  | call :: calls =>
    observation (m.respond take call) :: (m.respond take call).2.observe take calls

/-- The chunks that a machine takes in the course of calls, in order. -/
def takenChunks (m : Machine) : List Lexer.Call → List (List UInt8)
  | [] => []
  | .next :: calls => (m.respond feed .next).2.takenChunks calls
  | .feed chunk :: calls =>
    match m.feed chunk with
    | .ok fed => chunk :: fed.takenChunks calls
    | .error _ => m.takenChunks calls

/-- The machine after one use. -/
def use (m : Machine) : Use → Machine
  | .call call => (m.respond feed call).2
  | .renew => m.fresh

/-- The machine after it was used. -/
def afterUses (m : Machine) (uses : List Use) : Machine :=
  uses.foldl use m

/-- Where the text of a machine that is renewed starts after a call, if it started at `origin`
before: `m` is the machine that is not renewed. -/
def originAfter (m : Machine) (origin : Location) : Lexer.Call → Location
  | .feed _ => if m.needsInput && !m.isMidValue then m.location else origin
  | .next => origin

/-- Where the text of a machine that is renewed starts, call by call. -/
def origins (m : Machine) (origin : Location) : List Lexer.Call → List Location
  | [] => []
  | call :: calls =>
    m.originAfter origin call ::
      (m.respond feed call).2.origins (m.originAfter origin call) calls

variable {m : Machine} {l : Lexer} {take : Machine → List UInt8 → Except UnreadInput Machine}
  {take' : Lexer → List UInt8 → Except UnreadInput Lexer}

/-- A call is answered alike by a machine and by the lexer that it stands for. -/
theorem Reflects.respond
    (htake : ∀ {m : Machine} {l : Lexer}, m.Reflects l → ∀ chunk,
      TokenSource.FedAlike Reflects (take m chunk) (take' l chunk))
    (h : m.Reflects l) (call : Lexer.Call) :
    (m.respond take call).1 = (l.respond take' call).1 ∧
      (m.respond take call).2.Reflects (l.respond take' call).2 := by
  cases call with
  | next =>
    obtain ⟨hanswer, hnext⟩ := h.next
    rw [Machine.respond, Lexer.respond]
    rcases hm : m.next with ⟨fault | _ | token, m'⟩ <;>
      rcases hl : l.next with ⟨fault' | _ | token', l'⟩ <;>
        rw [hm, hl] at hanswer hnext <;> cases hanswer <;> exact ⟨rfl, hnext⟩
  | feed chunk =>
    have hfed := htake h chunk
    rw [Machine.respond, Lexer.respond]
    generalize take m chunk = r at hfed
    generalize take' l chunk = r' at hfed
    cases hfed with
    | taken hfed => exact ⟨rfl, hfed⟩
    | refused refusal => exact ⟨rfl, h⟩

theorem Reflects.observation_eq (h : m.Reflects l) (answer : Answer) :
    observation (answer, m) = Lexer.observation (answer, l) := by
  simp only [observation, Lexer.observation, h.needsInput_eq, h.isMidValue_eq, h.depth_eq,
    h.location]

/-- A machine is seen to do what the lexer does that it stands for. -/
theorem Reflects.observe
    (htake : ∀ {m : Machine} {l : Lexer}, m.Reflects l → ∀ chunk,
      TokenSource.FedAlike Reflects (take m chunk) (take' l chunk))
    (h : m.Reflects l) (calls : List Lexer.Call) :
    m.observe take calls = l.observe take' calls := by
  induction calls generalizing m l with
  | nil => rfl
  | cons call calls ih =>
    obtain ⟨hanswer, hnext⟩ := h.respond htake call
    have hseen := hnext.observation_eq (m.respond take call).1
    rw [Machine.observe, Lexer.observe, ih hnext]
    refine congrArg (· :: _) (hseen.trans ?_)
    rw [hanswer]

theorem Reflects.origins (h : m.Reflects l) (origin : Location) (calls : List Lexer.Call) :
    m.origins origin calls = l.origins origin calls := by
  induction calls generalizing m l origin with
  | nil => rfl
  | cons call calls ih =>
    have horigin : m.originAfter origin call = l.originAfter origin call := by
      cases call with
      | next => rfl
      | feed chunk =>
        rw [originAfter, Lexer.originAfter, h.needsInput_eq, h.isMidValue_eq, h.location]
    rw [Machine.origins, Lexer.origins, horigin, ih (h.respond Reflects.feed call).2]

theorem Reflects.takenChunks (h : m.Reflects l) (calls : List Lexer.Call) :
    m.takenChunks calls = l.takenChunks Lexer.feed calls := by
  induction calls generalizing m l with
  | nil => rfl
  | cons call calls ih =>
    cases call with
    | next => exact ih (h.respond Reflects.feed .next).2
    | feed chunk =>
      have hfed := h.feed chunk
      rw [Machine.takenChunks, Lexer.takenChunks]
      generalize m.feed chunk = r at hfed
      generalize l.feed chunk = r' at hfed
      cases hfed with
      | taken hfed => exact congrArg (chunk :: ·) (ih hfed)
      | refused refusal => exact ih h

theorem Reflects.afterUses (h : m.Reflects l) (uses : List Use) :
    (m.afterUses uses).Reflects (l.afterUses uses) := by
  induction uses generalizing m l with
  | nil => exact h
  | cons use uses ih =>
    cases use with
    | call call => exact ih (h.respond Reflects.feed call).2
    | renew => exact ih h.fresh

/-- However they were used, the machine stands for the lexer. -/
theorem reflects_afterUses (limit : Nat) (uses : List Use) :
    (({ depthLimit := limit } : Machine).afterUses uses).Reflects
      (({ depthLimit := limit } : Lexer).afterUses uses) :=
  (reflects_new limit).afterUses uses

/-- A pipeline over a machine does what one over the lexer does, whatever the two sides call. So all
that holds of the signals and requests of the latter holds of those of the former. -/
theorem paired_run (limit : Nat) (options : Options) (calls : List StreamingJson.Call) :
    Pipeline.Paired Reflects
      ((Pipeline.new ({ depthLimit := limit } : Machine) options).run calls)
      ((Pipeline.new ({ depthLimit := limit } : Lexer) options).run calls) :=
  Pipeline.paired_run matching_reflects
    (q := Pipeline.new ({ depthLimit := limit } : Lexer) options) (reflects_new limit) calls

end Machine

end StreamingJson
