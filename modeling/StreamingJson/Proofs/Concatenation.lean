import StreamingJson.Proofs.Builder.Tidy
import StreamingJson.Proofs.Cuts
import StreamingJson.Proofs.Streaming

/-!
# Texts one after the other

Where a text ends in order nothing of it is left: the lexer is between values and starts anew with
the next chunk, and the builder is as it was in the beginning. So chunks that follow are parsed as
if they were all, and their values come after those of the first text. Only the end of a streamed
root array is the end of all.

## Main definitions

- `Yield.Orderly` — a yield to which the given settings apply

## Main statements

- `Yield.outcome_foldl_feed` — a lexer between values and a builder outside containers yield as if
  they were new
- `Pipeline.rootClosed_completedRun` — what it takes for a run to close a streamed root array
- `parse_append` — the result of parsing chunks and then further ones
-/

namespace StreamingJson

/-! ## What a lexer keeps -/

theorem Lexer.depthLimit_of_readBytes {l l' : Lexer} {bytes : List UInt8}
    (h : (l.readBytes bytes).rest = .ok l') : l'.depthLimit = l.depthLimit := by
  fun_induction readBytes l bytes with
  | case1 l =>
    obtain rfl := Except.ok.inj h
    rfl
  | case2 l b rest next hstep ih => exact ih h
  | case3 l b rest token next hstep ih => exact ih h
  | case4 l b rest cause next hstep => cases h
  | case5 l b rest token next hstep ih => exact ih h
  | case6 l b rest cause next hstep => cases h

theorem Lexer.depthLimit_renewed (l : Lexer) : l.renewed.depthLimit = l.depthLimit := by
  rw [renewed]
  split <;> rfl

namespace Yield

/-- A yield to which the given settings apply: a lexer and a builder that wait for chunks have them,
and only a root array that is to be streamed has closed. -/
structure Orderly (options : Options) (y : Yield Lexer) : Prop where
  dry : ∀ l b, y.ending = .dry l b →
    l.depthLimit = options.depthLimit ∧ b.Tidy ∧ b.reset = Builder.new options
  closed : y.ending = .closed → options.streamRootArray = true

theorem orderly_ofReading {options : Options} {b : Builder} {r : Reading Lexer} (htidy : b.Tidy)
    (hreset : b.reset = Builder.new options)
    (hlimit : ∀ l, r.rest = .ok l → l.depthLimit = options.depthLimit) :
    (ofReading b r).Orderly options := by
  have hsame : b.streamRootArray = options.streamRootArray :=
    Builder.streamRootArray_of_reset (b := Builder.new options) hreset
  obtain ⟨hbuilding, hclosed⟩ := htidy.pushAll r.tokens
  rw [ofReading]
  rcases hpush : (b.pushAll r.tokens).2 with b' | _ | ⟨cause, place⟩
  · obtain ⟨htidy', hreset'⟩ := hbuilding b' hpush
    rcases hrest : r.rest with fault | l
    · exact ⟨fun l b hending => (by cases hending), fun hending => (by cases hending)⟩
    · refine ⟨fun l' b'' hending => ?_, fun hending => (by cases hending)⟩
      obtain ⟨rfl, rfl⟩ := Ending.dry.inj hending
      exact ⟨hlimit l hrest, htidy', hreset'.trans hreset⟩
  · exact ⟨fun l b hending => (by cases hending), fun _ => hsame.symm.trans (hclosed hpush)⟩
  · exact ⟨fun l b hending => (by cases hending), fun hending => (by cases hending)⟩

theorem Orderly.feed {options : Options} {y : Yield Lexer} (h : y.Orderly options)
    (chunk : List UInt8) : (y.feed chunk).Orderly options := by
  rw [Yield.feed]
  cases hy : y.ending with
  | failed cause => exact h
  | closed => exact h
  | dry l b =>
    obtain ⟨hlimit, htidy, hreset⟩ := h.dry l b hy
    have horderly : (TokenSource.yield (l.renewed.loaded chunk) b).Orderly options := by
      rw [Lexer.yield_loaded]
      refine orderly_ofReading htidy hreset fun l' hrest => ?_
      rw [Lexer.depthLimit_of_readBytes hrest, Lexer.depthLimit_renewed, hlimit]
    exact ⟨horderly.dry, horderly.closed⟩

theorem orderly_ofChunks (options : Options) (chunks : List (List UInt8)) :
    (ofChunks options chunks).Orderly options := by
  have hfoldl {y : Yield Lexer} (h : y.Orderly options) :
      (chunks.foldl Yield.feed y).Orderly options := by
    induction chunks generalizing y with
    | nil => exact h
    | cons chunk chunks ih => exact ih (h.feed chunk)
  refine hfoldl ⟨fun l b hending => ?_, fun hending => (by cases hending)⟩
  obtain ⟨rfl, rfl⟩ := Ending.dry.inj hending
  exact ⟨rfl, ⟨fun _ => rfl, fun hstreaming => absurd hstreaming Bool.false_ne_true⟩, rfl⟩

/-! ## Chunks after a text -/

theorem outcome_prepend (values : List Value) (y : Yield Lexer) :
    (y.prepend values).outcome = y.outcome.map (values ++ ·) := by
  obtain ⟨own, ending⟩ := y
  rw [outcome, outcome]
  cases ending with
  | failed cause => rfl
  | closed => rfl
  | dry l b =>
    dsimp only [prepend]
    split <;> rfl

/-- A lexer between values and a builder outside containers yield as if they were new. -/
theorem outcome_foldl_feed {options : Options} {l : Lexer} {b : Builder}
    (horderly : Orderly options ⟨[], .dry l b⟩) (hmid : l.isMidValue = false) (hdepth : b.depth = 0)
    (chunks : List (List UInt8)) :
    (chunks.foldl feed ⟨[], .dry l b⟩).outcome = (ofChunks options chunks).outcome := by
  obtain ⟨hlimit, htidy, hreset⟩ := horderly.dry l b rfl
  obtain rfl : b = Builder.new options :=
    (htidy.outside (List.length_eq_zero_iff.mp hdepth)).trans hreset
  cases chunks with
  | nil =>
    have hplace : ¬(l.isMidValue || decide ((Builder.new options).depth ≠ 0)) = true := by
      rw [hmid]
      exact Bool.false_ne_true
    exact if_neg hplace
  | cons chunk rest =>
    have hrenewed : l.renewed = ({ depthLimit := options.depthLimit } : Lexer).renewed := by
      rw [Lexer.renewed, hmid, if_neg Bool.false_ne_true, Lexer.fresh, hlimit]
      rfl
    rw [ofChunks, List.foldl_cons, List.foldl_cons]
    simp only [feed, hrenewed]

end Yield

/-! ## The end of a streamed root array -/

namespace Pipeline

section

variable {σ : Type} (p : Pipeline σ)

theorem rootClosed_releaseSupplier : p.releaseSupplier.1.rootClosed = p.rootClosed := by
  unfold releaseSupplier
  split <;> rfl

variable [TokenSource σ]

theorem rootClosed_fail (cause : Error) : (p.fail cause).1.rootClosed = p.rootClosed := by
  rw [fail, andThen_fst, deliver, rootClosed_releaseSupplier]
  rfl

theorem rootClosed_settle : p.settle.1.rootClosed = p.rootClosed := by
  rw [settle]
  split
  · rfl
  split
  · rw [andThen_fst, complete, deliver]
    exact rootClosed_releaseSupplier p
  split
  · split
    · exact rootClosed_fail p _
    · rfl
  split
  · rfl
  split <;> rfl

variable {p}

/-- Under unbounded demand the root array closes in the course of a reaction exactly if what is at
hand closes it. -/
theorem rootClosed_advance (outlet : p.outlet = { demand := Demand.unbounded })
    (rootOpen : p.rootClosed = false) :
    p.advance.1.rootClosed = true ↔ (TokenSource.yield p.source p.builder).ending = .closed := by
  have hdrained : Drained { p with phase := .draining }
      (TokenSource.yield p.source p.builder) p.drain :=
    drained_drainUpTo (p := { p with phase := .draining }) (Nat.lt_succ_self _) outlet
      (Nat.le_refl _) rootOpen
  rcases hdrain : p.drain with ⟨error, r⟩
  rw [hdrain] at hdrained
  cases hdrained with
  | held values met bounded => exact absurd (congrArg Outlet.demand outlet) bounded
  | failed ending =>
    rw [advance_of_drain_error hdrain, andThen_fst, rootClosed_fail, ending]
    simp [rootOpen]
  | closed ending =>
    rw [advance_of_drain hdrain, andThen_fst, rootClosed_settle, ending]
    simp
  | dry ending =>
    rw [advance_of_drain hdrain, andThen_fst, rootClosed_settle, ending]
    simp [rootOpen]

end

section

variable {y : Yield Lexer} {p : Pipeline Lexer} {sent : List (Signal Value)}

/-- A pipeline that conforms before the supply has ended, and whose mark for the end of the root
array is right, keeps it right with the next chunk. -/
theorem Conforms.rootClosed_takeChunk (h : Conforms y Demand.unbounded false p sent)
    (hawaiting : p.awaiting = true) (chunk : List UInt8) :
    (p.takeChunk chunk).1.rootClosed = true ↔ (y.feed chunk).ending = .closed := by
  obtain ⟨-, -, -, outlet, -, rootOpen, -⟩ := h.waiting_of_awaiting hawaiting
  rw [Demand.left_unbounded] at outlet
  rw [h.takeChunk_eq hawaiting, h.ending_feed hawaiting]
  exact rootClosed_advance (p := p.withChunk chunk) outlet rootOpen

theorem Conforms.rootClosed_offerAll (h : Conforms y Demand.unbounded false p sent)
    (hroot : p.rootClosed = true ↔ y.ending = .closed) (chunks : List (List UInt8)) :
    (p.offerAll chunks).1.rootClosed = true ↔ (chunks.foldl Yield.feed y).ending = .closed := by
  induction chunks generalizing y p sent with
  | nil => exact hroot
  | cons chunk rest ih =>
    rw [List.foldl_cons, Pipeline.offerAll]
    by_cases hawaiting : p.awaiting = true
    · rw [if_pos hawaiting, andThen_fst]
      exact ih (h.takeChunk (Nat.le_refl _) hawaiting chunk)
        (h.rootClosed_takeChunk hawaiting chunk)
    · rw [if_neg hawaiting]
      obtain ⟨-, t, hverdict⟩ := h.finished_of_not_awaiting (Bool.eq_false_iff.mpr hawaiting)
      rwa [Yield.feed_of_verdict hverdict, Yield.foldl_feed_of_verdict hverdict]

/-- The end of the supply closes no root array. -/
theorem Conforms.rootClosed_endSupply (h : Conforms y Demand.unbounded false p sent)
    (hroot : p.rootClosed = true ↔ y.ending = .closed) :
    p.endSupply.1.rootClosed = true ↔ y.ending = .closed := by
  rw [Pipeline.endSupply]
  by_cases hterminal : p.isTerminal = true
  · rwa [if_pos hterminal]
  · rw [if_neg hterminal]
    by_cases hawaiting : p.awaiting = true
    · obtain ⟨ending, read, -, outlet, -, rootOpen, -⟩ := h.waiting_of_awaiting hawaiting
      rw [Demand.left_unbounded] at outlet
      have hadvance := rootClosed_advance
        (p := { p with supplyDone := true, awaiting := false }) outlet rootOpen
      rw [hadvance, Lexer.yield_of_unread read, ending]
    · exact absurd (h.finished_of_not_awaiting (Bool.eq_false_iff.mpr hawaiting)).1 hterminal

end

/-- A run closes a streamed root array exactly if the chunks yield its end. -/
theorem rootClosed_completedRun (options : Options) (chunks : List (List UInt8)) :
    (completedRun options chunks).1.rootClosed = true ↔
      (Yield.ofChunks options chunks).ending = .closed := by
  have hstart := (conforms_new options).request (n := Demand.unbounded) (by decide) (.inr rfl)
  have hfull : Demand.add 0 Demand.unbounded = Demand.unbounded := by decide
  have hroot : ((new ({ depthLimit := options.depthLimit } : Lexer) options).request
      Demand.unbounded).1.rootClosed = true ↔
        (Yield.ofChunks options []).ending = .closed := by
    have hne : Demand.unbounded ≠ 0 := by decide
    have hrunning :
        ¬(new ({ depthLimit := options.depthLimit } : Lexer) options).isTerminal = true :=
      Bool.false_ne_true
    rw [request, if_neg hrunning, if_neg hne, andThen_fst, deliver,
      rootClosed_advance (congrArg (fun demand => ({ demand } : Outlet Value)) hfull) rfl,
      Lexer.yield_of_unread rfl]
    rfl
  exact (conforms_unboundedRun options chunks).rootClosed_endSupply
    (hstart.rootClosed_offerAll hroot chunks)

end Pipeline

/-- Chunks that follow a text without an error. If the text closed a streamed root array, that was
the end of all; otherwise the values of what follows come after those of the text, and its errors
are the same as if the text had not been there. -/
theorem parse_append (options : Options) (first second : List (List UInt8)) (values : List Value)
    (h : parse options first = .ok values) :
    parse options (first ++ second) =
      if options.streamRootArray && (Pipeline.completedRun options first).1.rootClosed then
        .ok values
      else (parse options second).map (values ++ ·) := by
  rw [parse_eq_outcome] at h
  rw [parse_eq_outcome, parse_eq_outcome, Yield.ofChunks_append]
  have hclosed := Pipeline.rootClosed_completedRun options first
  have horderly := Yield.orderly_ofChunks options first
  obtain rfl := Yield.values_of_outcome h
  generalize Yield.ofChunks options first = y at h hclosed horderly
  obtain ⟨values, ending⟩ := y
  cases ending with
  | failed cause => cases h
  | closed =>
    rw [horderly.closed rfl, hclosed.mpr rfl, Yield.foldl_feed_of_verdict rfl]
    rfl
  | dry l b =>
    have hopen : (Pipeline.completedRun options first).1.rootClosed = false := by
      simpa using hclosed
    have hrest : ¬(l.isMidValue || decide (b.depth ≠ 0)) = true := by
      intro hrest
      rw [Yield.outcome] at h
      simp only [if_pos hrest] at h
      cases h
    rw [Bool.or_eq_true, not_or, decide_eq_true_eq, Decidable.not_not, Bool.not_eq_true] at hrest
    have hplain : Yield.Orderly options ⟨[], .dry l b⟩ := ⟨horderly.dry, horderly.closed⟩
    have hsplit : Yield.mk values (.dry l b) = (Yield.mk [] (.dry l b)).prepend values := by
      rw [Yield.prepend, List.append_nil]
    rw [hopen, Bool.and_false, if_neg Bool.false_ne_true, hsplit, Yield.foldl_feed_prepend,
      Yield.outcome_prepend, Yield.outcome_foldl_feed hplain hrest.1 hrest.2, Yield.prepend,
      List.append_nil]

/-- The array `[1]` and a line feed, and then a byte that is in error in the first line of its
chunk. -/
theorem parse_append_error :
    let first : List (List UInt8) := [[0x5B, 0x31], [0x5D, 0x0A]]
    let second : List (List UInt8) := [[0x20, 0x78]]
    parse {} first = .ok [.array [.int 1]] ∧
      parse {} (first ++ second) =
        if ({} : Options).streamRootArray && (Pipeline.completedRun {} first).1.rootClosed then
          .ok [.array [.int 1]]
        else (parse {} second).map ([.array [.int 1]] ++ ·) :=
  ⟨by decide +kernel, parse_append {} _ _ _ (by decide +kernel)⟩

end StreamingJson
