import StreamingJson.Error
import StreamingJson.Proofs.Reading

/-!
# What the bytes at hand yield

The values that a source of tokens and a builder complete together without a further chunk, and why
there are no more of them. No demand is considered here: this is what there is to deliver.

## Main definitions

- `Builder.pushAll` — pushes tokens one after the other
- `Yield` — values and how they end
- `TokenSource.yield` — what a source and a builder yield

## Main statements

- `Builder.pushAll_append` — tokens can be pushed in two parts
- `TokenSource.yield_of_fault` … `TokenSource.yield_of_value` — the yield token by token
-/

namespace StreamingJson

namespace Builder

/-- How pushing tokens ends. -/
inductive Outcome where
  /-- All tokens are pushed. -/
  | building (b : Builder)
  /-- The streamed root array is closed; tokens behind it are not looked at. -/
  | closed
  /-- A token is refused; its place is the one right behind it. -/
  | refused (cause : StructureError) (place : Location)

/-- Pushes tokens one after the other: the values they complete, and how it ends. -/
def pushAll (b : Builder) : List PlacedToken → List Value × Outcome
  | [] => ([], .building b)
  | t :: ts =>
    match b.push t.token with
    | (.error cause, _) => ([], .refused cause t.after)
    | (.ok .incomplete, b') => b'.pushAll ts
    | (.ok .rootClosed, _) => ([], .closed)
    | (.ok (.value v), b') =>
      let (vs, outcome) := b'.pushAll ts
      (v :: vs, outcome)

section

variable {b b' : Builder} {t : PlacedToken} (ts : List PlacedToken)

theorem pushAll_refused {cause : StructureError} (h : b.push t.token = (.error cause, b')) :
    b.pushAll (t :: ts) = ([], .refused cause t.after) := by
  simp only [pushAll, h]

theorem pushAll_incomplete (h : b.push t.token = (.ok .incomplete, b')) :
    b.pushAll (t :: ts) = b'.pushAll ts := by
  simp only [pushAll, h]

theorem pushAll_closed (h : b.push t.token = (.ok .rootClosed, b')) :
    b.pushAll (t :: ts) = ([], .closed) := by
  simp only [pushAll, h]

theorem pushAll_value {v : Value} (h : b.push t.token = (.ok (.value v), b')) :
    b.pushAll (t :: ts) = (v :: (b'.pushAll ts).1, (b'.pushAll ts).2) := by
  simp only [pushAll, h]

end

/-- How pushing goes on with further tokens after it ended in one way. -/
def Outcome.followedBy (ts : List PlacedToken) : Outcome → List Value × Outcome
  | .building b => b.pushAll ts
  | .closed => ([], .closed)
  | .refused cause place => ([], .refused cause place)

theorem pushAll_append (b : Builder) (ts us : List PlacedToken) :
    b.pushAll (ts ++ us) =
      ((b.pushAll ts).1 ++ ((b.pushAll ts).2.followedBy us).1,
        ((b.pushAll ts).2.followedBy us).2) := by
  induction ts generalizing b with
  | nil => rfl
  | cons t ts ih =>
    rw [List.cons_append]
    rcases h : b.push t.token with ⟨cause | built, b'⟩
    · simp only [pushAll_refused _ h]
      rfl
    · cases built with
      | incomplete => simp only [pushAll_incomplete _ h, ih b']
      | value v => simp only [pushAll_value _ h, ih b', List.cons_append]
      | rootClosed =>
        simp only [pushAll_closed _ h]
        rfl

end Builder

/-- Why no further value can be completed. -/
inductive Yield.Ending (σ : Type) where
  /-- An error was found. -/
  | failed (cause : Error)
  /-- The streamed root array is closed. -/
  | closed
  /-- The source has no further token; what is read in part stays in source and builder. -/
  | dry (source : σ) (builder : Builder)

/-- Values in order, and why there are no more of them. -/
structure Yield (σ : Type) where
  values : List Value
  ending : Yield.Ending σ

namespace Yield

variable {σ : Type}

/-- The yield with further values in front. -/
def prepend (values : List Value) (y : Yield σ) : Yield σ :=
  { y with values := values ++ y.values }

@[simp]
theorem prepend_nil (y : Yield σ) : y.prepend [] = y := rfl

@[simp]
theorem prepend_prepend (vs ws : List Value) (y : Yield σ) :
    (y.prepend ws).prepend vs = y.prepend (vs ++ ws) := by
  simp [prepend]

/-- Why there are no more values after all tokens of a reading are pushed, or the last that could
be. -/
def endingOf (rest : Except LexicalFault σ) : Builder.Outcome → Ending σ
  | .building b =>
    match rest with
    | .ok s => .dry s b
    | .error fault => .failed (.lexical fault)
  | .closed => .closed
  | .refused cause place => .failed (.malformed cause place)

/-- What the tokens of a reading yield in a builder. -/
def ofReading (b : Builder) (r : Reading σ) : Yield σ :=
  ⟨(b.pushAll r.tokens).1, endingOf r.rest (b.pushAll r.tokens).2⟩

/-- Tokens in front of a reading yield their values first. Where they are not all pushed, the
reading does not matter. -/
theorem ofReading_prepend (b : Builder) (ts : List PlacedToken) (r : Reading σ) :
    ofReading b (r.prepend ts) =
      match (b.pushAll ts).2 with
      | .building b' => (ofReading b' r).prepend (b.pushAll ts).1
      | outcome => ⟨(b.pushAll ts).1, endingOf r.rest outcome⟩ := by
  unfold ofReading
  rw [Reading.tokens_prepend, Reading.rest_prepend, Builder.pushAll_append]
  cases (b.pushAll ts).2 with
  | building b' => rfl
  | closed => simp [Builder.Outcome.followedBy]
  | refused cause place => simp [Builder.Outcome.followedBy]

end Yield

namespace TokenSource

variable {σ : Type} [TokenSource σ]

/-- What a source and a builder yield without a further chunk. -/
def yield (s : σ) (b : Builder) : Yield σ :=
  Yield.ofReading b (reading s)

section

variable {s s' : σ} {b b' : Builder} {token : Token}

theorem yield_of_fault {fault : LexicalFault} (h : next s = (.error fault, s')) :
    yield s b = ⟨[], .failed (.lexical fault)⟩ := by
  rw [yield, reading_of_fault h]
  rfl

theorem yield_of_none (h : next s = (.ok none, s')) : yield s b = ⟨[], .dry s' b⟩ := by
  rw [yield, reading_of_none h]
  rfl

theorem yield_of_refused (h : next s = (.ok (some token), s')) {cause : StructureError}
    (hpush : b.push token = (.error cause, b')) :
    yield s b = ⟨[], .failed (.malformed cause (location s'))⟩ := by
  rw [yield, reading_of_token h, Yield.ofReading_prepend,
    Builder.pushAll_refused (t := ⟨token, location s'⟩) [] hpush]
  rfl

theorem yield_of_incomplete (h : next s = (.ok (some token), s'))
    (hpush : b.push token = (.ok .incomplete, b')) : yield s b = yield s' b' := by
  rw [yield, reading_of_token h, Yield.ofReading_prepend,
    Builder.pushAll_incomplete (t := ⟨token, location s'⟩) [] hpush]
  rfl

theorem yield_of_rootClosed (h : next s = (.ok (some token), s'))
    (hpush : b.push token = (.ok .rootClosed, b')) : yield s b = ⟨[], .closed⟩ := by
  rw [yield, reading_of_token h, Yield.ofReading_prepend,
    Builder.pushAll_closed (t := ⟨token, location s'⟩) [] hpush]
  rfl

theorem yield_of_value (h : next s = (.ok (some token), s')) {v : Value}
    (hpush : b.push token = (.ok (.value v), b')) :
    yield s b = (yield s' b').prepend [v] := by
  rw [yield, reading_of_token h, Yield.ofReading_prepend,
    Builder.pushAll_value (t := ⟨token, location s'⟩) [] hpush]
  rfl

end

end TokenSource

end StreamingJson
