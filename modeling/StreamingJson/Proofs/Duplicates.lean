import StreamingJson.Proofs.Builder.Rejecting
import StreamingJson.Proofs.Cuts
import StreamingJson.Proofs.Streaming

/-!
# Names that occur again

A text is parsed alike whether names that occur again in an object are rejected or not, but for the
error that rejecting such a name is. This error comes up where an object receives a name that it has
received before, unless another error is found or the streamed root array closes first.

## Main definitions

- `Yield.Rejects` — the yield of a text where names that occur again are kept, and where they are
  rejected

## Main statements

- `Yield.rejects_ofReading`, `Yield.Rejects.feed` — the two yields of tokens and of chunks
- `Yield.malformed_ofChunks_iff` — which errors of structure chunks yield
- `parse_rejecting` — the two results of parsing
-/

namespace StreamingJson

namespace Yield

variable {σ : Type}

/-- The yield of a text where the last member of each name is kept, and the yield of the same text
where names that occur again are rejected. -/
inductive Rejects : Yield σ → Yield σ → Prop where
  | failed {values : List Value} {cause : Error} :
    Rejects ⟨values, .failed cause⟩ ⟨values, .failed cause⟩
  | closed {values : List Value} : Rejects ⟨values, .closed⟩ ⟨values, .closed⟩
  | dry {values : List Value} {s : σ} {b : Builder} (keepsLast : b.duplicates = .keepLast) :
    Rejects ⟨values, .dry s b⟩ ⟨values, .dry s b.rejecting⟩
  /-- A name occurs again. -/
  | again {y : Yield σ} {values : List Value} {name : String} {place : Location} :
    Rejects y ⟨values, .failed (.malformed (.duplicateKey name) place)⟩

theorem Rejects.prepend {y y' : Yield σ} (h : Rejects y y') (before : List Value) :
    Rejects (y.prepend before) (y'.prepend before) := by
  cases h with
  | failed => exact .failed
  | closed => exact .closed
  | dry keepsLast => exact .dry keepsLast
  | again => exact .again

/-- What tokens yield in the two builders. -/
theorem rejects_ofReading {b : Builder} (h : b.duplicates = .keepLast) (r : Reading σ) :
    Rejects (ofReading b r) (ofReading b.rejecting r) := by
  obtain ⟨tokens, rest⟩ := r
  induction tokens generalizing b with
  | nil =>
    cases rest with
    | error fault => exact .failed
    | ok s => exact .dry h
  | cons t ts ih =>
    have hrejects := Builder.rejects_push h t.token
    rcases hpush : b.push t.token with ⟨answer, next⟩
    rcases hpush' : b.rejecting.push t.token with ⟨answer', next'⟩
    rw [hpush, hpush'] at hrejects
    cases hrejects with
    | again isName repeats =>
      rw [ofReading_refused ts rest hpush']
      exact .again
    | agrees fresh =>
      have hkeeps : next.duplicates = .keepLast := (Builder.duplicates_push hpush).trans h
      rcases answer with cause | built
      · rw [ofReading_refused ts rest hpush, ofReading_refused ts rest hpush']
        exact .failed
      · cases built with
        | incomplete =>
          rw [ofReading_incomplete ts rest hpush, ofReading_incomplete ts rest hpush']
          exact ih hkeeps
        | value v =>
          rw [ofReading_value ts rest hpush, ofReading_value ts rest hpush']
          exact (ih hkeeps).prepend [v]
        | rootClosed =>
          rw [ofReading_closed ts rest hpush, ofReading_closed ts rest hpush']
          exact .closed

/-! ### Chunks -/

section

variable {y y' : Yield Lexer}

theorem Rejects.feed (h : Rejects y y') (chunk : List UInt8) :
    Rejects (y.feed chunk) (y'.feed chunk) := by
  cases h with
  | failed => exact .failed
  | closed => exact .closed
  | dry keepsLast => exact (rejects_ofReading keepsLast _).prepend _
  | again => exact .again

/-- What chunks yield where the last member of each name is kept, and where names that occur again
are rejected. -/
theorem rejects_ofChunks (options : Options) (chunks : List (List UInt8)) :
    Rejects (ofChunks { options with duplicates := .keepLast } chunks)
      (ofChunks { options with duplicates := .reject } chunks) := by
  have hfoldl {y y' : Yield Lexer} (h : Rejects y y') :
      Rejects (chunks.foldl Yield.feed y) (chunks.foldl Yield.feed y') := by
    induction chunks generalizing y y' with
    | nil => exact h
    | cons chunk chunks ih => exact ih (h.feed chunk)
  exact hfoldl (.dry rfl)

/-- The results are the same unless a name occurs again. -/
theorem Rejects.outcome_eq (h : Rejects y y') :
    y'.outcome = y.outcome ∨
      ∃ name place, y'.outcome = .error (.malformed (.duplicateKey name) place) := by
  cases h with
  | failed | closed | dry keepsLast => exact .inl rfl
  | again => exact .inr ⟨_, _, rfl⟩

/-! ### Errors of structure -/

theorem outcome_malformed_iff {cause : StructureError} {place : Location} :
    y.outcome = .error (.malformed cause place) ↔ y.ending = .failed (.malformed cause place) := by
  unfold outcome
  cases y.ending with
  | failed error => simp
  | closed => simp
  | dry l b =>
    dsimp only
    split <;> simp

theorem malformed_of_unplaced {z : Yield Lexer} (h : y.unplaced = z.unplaced)
    {cause : StructureError} (hy : ∃ place, y.ending = .failed (.malformed cause place)) :
    ∃ place, z.ending = .failed (.malformed cause place) := by
  obtain ⟨place, hending⟩ := hy
  have hsame : y.ending.unplaced = z.ending.unplaced := congrArg Yield.ending h
  rw [hending] at hsame
  cases hz : z.ending with
  | closed =>
    rw [hz] at hsame
    cases hsame
  | dry l b =>
    rw [hz] at hsame
    cases hsame
  | failed error =>
    rw [hz] at hsame
    cases error with
    | malformed other place' =>
      obtain ⟨rfl, -⟩ := Error.malformed.inj (Yield.Ending.failed.inj hsame)
      exact ⟨place', rfl⟩
    | lexical fault | truncated location | supplier message | protocol violation => cases hsame

theorem malformed_ofReading_iff {b : Builder} {r : Reading σ} {cause : StructureError}
    {place : Location} :
    (ofReading b r).ending = .failed (.malformed cause place) ↔
      (b.pushAll r.tokens).2 = .refused cause place := by
  rw [ofReading]
  cases (b.pushAll r.tokens).2 with
  | building b' => cases r.rest <;> simp [endingOf]
  | closed => simp [endingOf]
  | refused other place' => simp [endingOf]

/-- Chunks yield an error of structure if a builder refuses one of the tokens of the text for it. -/
theorem malformed_ofChunks_iff (options : Options) (chunks : List (List UInt8))
    (cause : StructureError) :
    (∃ place, (ofChunks options chunks).ending = .failed (.malformed cause place)) ↔
      ∃ place, ((Builder.new options).pushAll
        (({ depthLimit := options.depthLimit } : Lexer).readChunks chunks).1).2 =
          .refused cause place := by
  have hread : (({ depthLimit := options.depthLimit } : Lexer).readChunks chunks).1 =
      (({ depthLimit := options.depthLimit } : Lexer).readBytes chunks.flatten).tokens :=
    (Lexer.readChunks_abridges rfl chunks).1
  have hwhole : (ofChunks options chunks).unplaced = (ofReading (Builder.new options)
      (({ depthLimit := options.depthLimit } : Lexer).readBytes chunks.flatten)).unplaced :=
    unplaced_foldl_feed rfl (Builder.new options) chunks
  rw [hread]
  simp only [← malformed_ofReading_iff]
  exact ⟨malformed_of_unplaced hwhole, malformed_of_unplaced hwhole.symm⟩

end

end Yield

/-- Where names that occur again are rejected a text without an error has the values that it has
where the last member of each name is kept, with their members in the same order. Any other error
than that of a name that occurs again is the same in both cases, and where the last member is kept a
text has no error unless it has this one or that of a name. This error comes up for a name exactly
if the text has a token for it that is taken, with all tokens before, where the last member is kept,
so that neither another error was found nor a streamed root array closed before; the innermost open
object has received the name already; and that is the first time that an object receives a name
again. -/
theorem parse_rejecting (options : Options) (chunks : List (List UInt8)) :
    let lenient := parse { options with duplicates := .keepLast } chunks
    let strict := parse { options with duplicates := .reject } chunks
    let tokens := (({ depthLimit := options.depthLimit } : Lexer).readChunks chunks).1.map
      PlacedToken.token
    let builder := Builder.new { options with duplicates := .keepLast }
    (∀ vs, strict = .ok vs → lenient = .ok vs) ∧
      (∀ cause, strict = .error cause →
        (∀ name place, cause ≠ .malformed (.duplicateKey name) place) → lenient = .error cause) ∧
      (∀ cause, lenient = .error cause →
        strict = .error cause ∨
          ∃ name place, strict = .error (.malformed (.duplicateKey name) place)) ∧
      ∀ name, (∃ place, strict = .error (.malformed (.duplicateKey name) place)) ↔
        ∃ before after, tokens = before ++ .fieldName name :: after ∧
          (∃ values last, builder.Takes (before ++ [.fieldName name]) values last) ∧
          name ∈ (openNames before).headD [] ∧ NamesFresh [] before := by
  intro lenient strict tokens builder
  have hsame : strict = lenient ∨
      ∃ name place, strict = .error (.malformed (.duplicateKey name) place) := by
    rw [show strict = _ from parse_eq_outcome _ _, show lenient = _ from parse_eq_outcome _ _]
    exact (Yield.rejects_ofChunks options chunks).outcome_eq
  refine ⟨?_, ?_, ?_, ?_⟩
  · intro vs hstrict
    rcases hsame with hsame | ⟨name, place, hagain⟩
    · exact hsame.symm.trans hstrict
    · rw [hagain] at hstrict
      cases hstrict
  · intro cause hstrict hother
    rcases hsame with hsame | ⟨name, place, hagain⟩
    · exact hsame.symm.trans hstrict
    · exact absurd (Except.error.inj (hstrict.symm.trans hagain)) (hother name place)
  · intro cause hlenient
    exact hsame.imp_left fun hsame => hsame.trans hlenient
  · intro name
    have hstrict (place : Location) : strict = .error (.malformed (.duplicateKey name) place) ↔
        (Yield.ofChunks { options with duplicates := .reject } chunks).ending =
          .failed (.malformed (.duplicateKey name) place) := by
      rw [show strict = _ from parse_eq_outcome _ _, Yield.outcome_malformed_iff]
    simp only [hstrict]
    rw [Yield.malformed_ofChunks_iff]
    exact Builder.refused_again_iff (b := builder) rfl (Builder.knows_new _)

/-- The object `{"a":{"a":1},"\u0061":2}`, cut inside the escape, has the name `a` twice, and its
inner object has it once. Without the last member both results are the same, and so they are for a
text that ends inside the first name. -/
theorem parse_rejecting_escaped_name :
    let inner : List UInt8 :=
      [0x7B, 0x22, 0x61, 0x22, 0x3A, 0x7B, 0x22, 0x61, 0x22, 0x3A, 0x31, 0x7D]
    let again : List (List UInt8) :=
      [inner ++ [0x2C, 0x22, 0x5C, 0x75, 0x30], [0x30, 0x36, 0x31, 0x22, 0x3A, 0x32, 0x7D]]
    let tokens := (({ depthLimit := 1000 } : Lexer).readChunks again).1.map PlacedToken.token
    let builder := Builder.new {}
    (parse { duplicates := .reject } again =
        .error (.malformed (.duplicateKey "a") { line := 1, column := 22 }) ∧
      ∃ before after, tokens = before ++ .fieldName "a" :: after ∧
        (∃ values last, builder.Takes (before ++ [.fieldName "a"]) values last) ∧
        "a" ∈ (openNames before).headD [] ∧ NamesFresh [] before) ∧
    (parse { duplicates := .reject } [inner, [0x7D]] =
        .ok [.object [("a", .object [("a", .int 1)])]] ∧
      parse {} [inner, [0x7D]] = .ok [.object [("a", .object [("a", .int 1)])]]) ∧
    (parse { duplicates := .reject } [[0x7B, 0x22]] =
        .error (.truncated { line := 1, column := 3 }) ∧
      parse {} [[0x7B, 0x22]] = .error (.truncated { line := 1, column := 3 })) := by
  intro inner again tokens builder
  have hagain : parse { duplicates := .reject } again =
      .error (.malformed (.duplicateKey "a") { line := 1, column := 22 }) := by decide +kernel
  have hinner : parse { duplicates := .reject } [inner, [0x7D]] =
      .ok [.object [("a", .object [("a", .int 1)])]] := by decide +kernel
  have hcut : parse { duplicates := .reject } [[0x7B, 0x22]] =
      .error (.truncated { line := 1, column := 3 }) := by decide +kernel
  exact ⟨⟨hagain, ((parse_rejecting {} again).2.2.2 "a").mp ⟨_, hagain⟩⟩,
    ⟨hinner, (parse_rejecting {} [inner, [0x7D]]).1 _ hinner⟩,
    ⟨hcut, (parse_rejecting {} [[0x7B, 0x22]]).2.1 _ hcut fun name place => Error.noConfusion⟩⟩

end StreamingJson
