import StreamingJson.Proofs.Pipeline.Reactions

/-!
# Runs, call by call

A call to a pipeline either comes too late, is refused, ends the pipeline, or is taken in; then it
changes the pipeline a little and the pipeline makes all the progress it can. Facts on runs are
proved call by call, and those on calls by going through these cases.

## Main definitions

- `Pipeline.intake` — what a call changes before any progress is made
- `Pipeline.Reacts` — how a call is met
- `Pipeline.settlesAt` — the state in which a pipeline decides what to wait for
- `Pipeline.visits` — the calls of a run, each with the state that it meets

## Main statements

- `Pipeline.run_append` — calls can be made in two parts
- `Pipeline.reacts` — every call before the end is met in one of these ways
-/

namespace StreamingJson

namespace Call

/-- The demand that a call adds. -/
def asked : Call → Nat
  | .request count => count
  | .cancel | .chunk _ | .supplyEnded | .supplyFailed _ => 0

/-- Whether a call gives a chunk. -/
def isChunk : Call → Bool
  | .chunk _ => true
  | .request _ | .cancel | .supplyEnded | .supplyFailed _ => false

/-- Whether a call says that there are no more chunks. -/
def endsSupply : Call → Bool
  | .supplyEnded | .supplyFailed _ => true
  | .request _ | .cancel | .chunk _ => false

end Call

namespace Pipeline

variable {σ : Type} [TokenSource σ] {p q : Pipeline σ} {r : Reaction σ} {c : Call}
  {events : List Event}

/-! ### Calls one after the other -/

theorem run_append (p : Pipeline σ) (cs ds : List Call) :
    p.run (cs ++ ds) = andThen (p.run cs) fun q => q.run ds := by
  induction cs generalizing p with
  | nil => rfl
  | cons c cs ih =>
    calc p.run (c :: cs ++ ds)
        = andThen (p.react c) fun q => q.run (cs ++ ds) := rfl
      _ = andThen (p.react c) fun q => andThen (q.run cs) fun q => q.run ds := by simp only [ih]
      _ = andThen (p.run (c :: cs)) fun q => q.run ds := (andThen_assoc ..).symm

theorem run_singleton (p : Pipeline σ) (c : Call) : p.run [c] = p.react c :=
  Prod.ext rfl (List.append_nil _)

/-- After the end calls do nothing. -/
theorem react_of_isTerminal (h : p.isTerminal = true) (c : Call) : p.react c = (p, []) := by
  cases c with
  | request count => exact if_pos h
  | cancel => exact if_pos h
  | chunk bytes => exact if_pos h
  | supplyEnded => exact if_pos h
  | supplyFailed message => exact if_pos h

theorem run_of_isTerminal (h : p.isTerminal = true) (calls : List Call) :
    p.run calls = (p, []) := by
  induction calls with
  | nil => rfl
  | cons c cs ih =>
    rw [run, react_of_isTerminal h, andThen, ih]
    rfl

/-! ### How a call is met -/

/-- What a call changes before any progress is made, and what it delivers by that, if it is taken
in: a request adds to the demand, a chunk to what there is to read, and the end of the supply is
noted. -/
def intake (p : Pipeline σ) : Call → Option (Reaction σ)
  | .request count => if count = 0 then none else some (p.deliver (p.outlet.request count))
  | .chunk bytes =>
    if p.awaiting then
      match TokenSource.accept p.source bytes with
      | .error _ => none
      | .ok source => some ({ p with awaiting := false, source }, [])
    else none
  | .supplyEnded => some ({ p with supplyDone := true, awaiting := false }, [])
  | .cancel | .supplyFailed _ => none

/-- How a pipeline that is not at its end meets a call. -/
inductive Reacts (p : Pipeline σ) : Call → Reaction σ → Prop where
  /-- The call is taken in, and all progress is made that it allows. -/
  | taken {c : Call} {r : Reaction σ} (intake : p.intake c = some r) :
    Reacts p c (andThen r advance)
  /-- A request asks for nothing. -/
  | zeroDemand : Reacts p (.request 0) (p.fail (.protocol .zeroDemand))
  /-- A chunk comes that was not asked for. -/
  | unrequested (idle : p.awaiting = false) (bytes : List UInt8) :
    Reacts p (.chunk bytes) (p.fail (.protocol .unrequestedChunk))
  /-- A chunk comes while the source has bytes left to read. -/
  | refused {bytes : List UInt8} {refusal : UnreadInput} (awaits : p.awaiting = true)
    (accept : TokenSource.accept p.source bytes = .error refusal) :
    Reacts p (.chunk bytes)
      ({ p with awaiting := false }.fail (.protocol (.refusedChunk refusal)))
  /-- The supplier failed. -/
  | supplyFailed (message : String) :
    Reacts p (.supplyFailed message)
      ({ p with supplyDone := true, awaiting := false }.fail (.supplier message))
  /-- The consumer wants nothing any more. -/
  | cancelled :
    Reacts p .cancel
      { p with phase := .cancelled, outlet := p.outlet.discard }.clear.releaseSupplier

theorem reacts (h : p.isTerminal = false) (c : Call) : Reacts p c (p.react c) := by
  have hopen {r s : Reaction σ} : (if p.isTerminal then r else s) = s :=
    if_neg (Bool.eq_false_iff.mp h)
  cases c with
  | request count =>
    rw [react, request, hopen]
    by_cases hzero : count = 0
    · rw [if_pos hzero, hzero]
      exact .zeroDemand
    · rw [if_neg hzero]
      exact .taken (if_neg hzero)
  | cancel =>
    rw [react, cancel, hopen]
    exact .cancelled
  | chunk bytes =>
    rw [react, takeChunk, hopen]
    by_cases hawaiting : p.awaiting = true
    · rw [hawaiting, Bool.not_true, if_neg Bool.false_ne_true]
      dsimp only
      cases haccept : TokenSource.accept p.source bytes with
      | error refusal => exact .refused hawaiting haccept
      | ok source =>
        have hintake :
            p.intake (.chunk bytes) = some ({ p with awaiting := false, source }, []) := by
          simp only [intake, hawaiting, if_true, haccept]
        exact .taken hintake
    · have hidle : p.awaiting = false := Bool.eq_false_iff.mpr hawaiting
      rw [hidle, Bool.not_false, if_pos rfl]
      exact .unrequested hidle bytes
  | supplyEnded =>
    have hintake : p.intake .supplyEnded =
        some ({ p with supplyDone := true, awaiting := false }, []) := rfl
    rw [react, endSupply, hopen]
    exact .taken hintake
  | supplyFailed message =>
    rw [react, failSupply, hopen]
    exact .supplyFailed message

theorem react_of_intake (h : p.isTerminal = false) (hintake : p.intake c = some r) :
    p.react c = andThen r advance := by
  have hreacts := reacts h c
  generalize p.react c = r' at hreacts
  cases hreacts with
  | taken hintake' => rw [Option.some.inj (hintake.symm.trans hintake')]
  | zeroDemand => cases hintake
  | unrequested idle bytes =>
    rw [intake, idle] at hintake
    cases hintake
  | refused awaits accept =>
    simp only [intake, awaits, if_true, accept] at hintake
    cases hintake
  | supplyFailed message => cases hintake
  | cancelled => cases hintake

/-- The state in which a pipeline decides, in reaction to a call, what it waits for. There is none
if the call is not taken in or an error is found. -/
def settlesAt (p : Pipeline σ) (c : Call) : Option (Pipeline σ) :=
  (p.intake c).bind fun r =>
    match r.1.drain with
    | (none, q, _) => some q
    | (some _, _) => none

/-- The reaction to a call ends with that decision. -/
theorem react_of_settlesAt (h : p.isTerminal = false) (hsettles : p.settlesAt c = some q) :
    ∃ events, p.react c = andThen (q, events) settle := by
  obtain ⟨r, hintake, hdrain⟩ := Option.bind_eq_some_iff.mp hsettles
  rw [react_of_intake h hintake]
  rcases hr : r.1.drain with ⟨_ | cause, q', events⟩
  · rw [hr] at hdrain
    obtain rfl : q' = q := Option.some.inj hdrain
    refine ⟨r.2 ++ events, ?_⟩
    calc andThen r advance
        = andThen r fun _ => andThen (q', events) settle := by
          simp only [andThen, advance_of_drain hr]
      _ = andThen (q', r.2 ++ events) settle := Prod.ext rfl (List.append_assoc ..).symm
  · rw [hr] at hdrain
    cases hdrain

/-! ### The calls of a run -/

/-- The calls of a run, each with the state of the pipeline that it meets. -/
def visits (p : Pipeline σ) : List Call → List (Pipeline σ × Call)
  | [] => []
  | c :: cs => (p, c) :: (p.react c).1.visits cs

end Pipeline

end StreamingJson
