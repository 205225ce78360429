import StreamingJson.Proofs.Lexer.Chunks
import StreamingJson.Proofs.Pipeline.Drain
import StreamingJson.Proofs.Pipeline.Reactions

/-!
# What a pipeline owes

The state of a pipeline over a lexer, and all that it has delivered, are determined by what the
chunks yield, by the total demand and by whether the supplier has ended. This file states how, and
shows that a pipeline gets there whenever it makes all the progress it can.

## Main definitions

- `Yield.feed`, `Yield.ofChunks` — the yield of chunks, one after the other
- `Yield.verdict` — the terminal signal that a yield calls for
- `Pipeline.Conforms` — state and deliveries are those that yield, demand and end of supply call for

## Main statements

- `Lexer.accept_of_unread` — a lexer that has read everything takes a chunk
- `Pipeline.conforms_new` — a new pipeline conforms
- `Pipeline.conforms_advance` — a pipeline that makes all progress conforms
-/

namespace StreamingJson

/-! ## Lexers that have nothing to read -/

namespace Lexer

/-- The lexer that takes the next chunk: where no value is begun, one that starts anew. -/
def renewed (l : Lexer) : Lexer :=
  if l.isMidValue then l else l.fresh

theorem accept_of_unread {l : Lexer} (h : l.unread = []) (chunk : List UInt8) :
    TokenSource.accept l chunk = .ok (l.renewed.loaded chunk) := by
  have hneeds : TokenSource.needsInput l = true := by
    show l.unread.isEmpty = true
    rw [h]
    rfl
  unfold TokenSource.accept renewed
  rw [hneeds, Bool.true_and]
  by_cases hmid : l.isMidValue = true
  · have hsource : TokenSource.isMidValue l = true := hmid
    simp only [hsource, hmid, Bool.not_true, Bool.false_eq_true, if_false, if_true]
    exact feed_of_unread h chunk
  · have hmid : l.isMidValue = false := Bool.eq_false_iff.mpr hmid
    have hsource : TokenSource.isMidValue l = false := hmid
    simp only [hsource, hmid, Bool.not_false, if_true, Bool.false_eq_true, if_false]
    exact feed_of_unread (l := l.fresh) rfl chunk

theorem yield_loaded (l : Lexer) (b : Builder) (bytes : List UInt8) :
    TokenSource.yield (l.loaded bytes) b = Yield.ofReading b (l.readBytes bytes) := by
  rw [TokenSource.yield, reading_eq_readBytes]

theorem yield_eq_ofReading (l : Lexer) (b : Builder) :
    TokenSource.yield l b = Yield.ofReading b (l.readBytes l.unread) :=
  yield_loaded l b l.unread

theorem yield_of_unread {l : Lexer} (h : l.unread = []) (b : Builder) :
    TokenSource.yield l b = ⟨[], .dry l b⟩ := by
  rw [yield_eq_ofReading, h, readBytes_nil]
  simp [Yield.ofReading, Builder.pushAll, Yield.endingOf, loaded, ← h]

theorem unread_of_yield {l l' : Lexer} {b b' : Builder}
    (h : (TokenSource.yield l b).ending = .dry l' b') : l'.unread = [] := by
  rw [yield_eq_ofReading, Yield.ofReading] at h
  -- a yield runs dry only if all tokens are pushed and no fault is met
  rcases hpush : (b.pushAll (l.readBytes l.unread).tokens).2 with b'' | _ | _
  · rcases hrest : (l.readBytes l.unread).rest with fault | l''
    · simp [hpush, hrest, Yield.endingOf] at h
    · simp only [hpush, hrest, Yield.endingOf, Yield.Ending.dry.injEq] at h
      rw [← h.1]
      exact unread_of_readBytes hrest
  · simp [hpush, Yield.endingOf] at h
  · simp [hpush, Yield.endingOf] at h

end Lexer

/-! ## The yield of chunks -/

namespace Yield

/-- The yield after one more chunk. After an error, and after the end of a streamed root array, a
chunk is not looked at. -/
def feed (y : Yield Lexer) (chunk : List UInt8) : Yield Lexer :=
  match y.ending with
  | .dry l b => (TokenSource.yield (l.renewed.loaded chunk) b).prepend y.values
  | .failed _ | .closed => y

/-- What chunks yield, one after the other. -/
def ofChunks (options : Options) (chunks : List (List UInt8)) : Yield Lexer :=
  chunks.foldl feed ⟨[], .dry { depthLimit := options.depthLimit } (Builder.new options)⟩

theorem ofChunks_append (options : Options) (cs ds : List (List UInt8)) :
    ofChunks options (cs ++ ds) = ds.foldl feed (ofChunks options cs) :=
  List.foldl_append ..

/-- The terminal signal that a yield calls for, given whether the supplier has ended. Without that
end a source that ran dry waits for more. -/
def verdict (y : Yield Lexer) (ended : Bool) : Option (Signal Value) :=
  match y.ending with
  | .failed cause => some (.error cause)
  | .closed => some .complete
  | .dry l b =>
    if !ended then none
    else if l.isMidValue || b.depth ≠ 0 then some (.error (.truncated l.location))
    else some .complete

/-- A verdict that is found before the supplier ends stands. -/
theorem verdict_ended {y : Yield Lexer} {ended : Bool} {t : Signal Value}
    (h : y.verdict ended = some t) : y.verdict true = some t := by
  unfold verdict at *
  split at h
  next => exact h
  next => exact h
  next l b hending =>
    split at h
    · cases h
    · simpa using h

/-- A verdict that is found before the supplier ends does not change with further chunks. -/
theorem feed_of_verdict {y : Yield Lexer} {t : Signal Value} (h : y.verdict false = some t)
    (chunk : List UInt8) : y.feed chunk = y := by
  unfold verdict at h
  unfold feed
  cases hending : y.ending with
  | failed cause => rfl
  | closed => rfl
  | dry l b => simp [hending] at h

theorem foldl_feed_of_verdict {y : Yield Lexer} {t : Signal Value} (h : y.verdict false = some t)
    (chunks : List (List UInt8)) : chunks.foldl feed y = y := by
  induction chunks with
  | nil => rfl
  | cons chunk rest ih => rw [List.foldl_cons, feed_of_verdict h, ih]

end Yield

/-! ## Conformance -/

namespace Pipeline

/-- What a pipeline owes: given the yield `y` of the chunks so far, the total demand and whether the
supplier has ended, its state and all signals it has sent. -/
inductive Conforms (y : Yield Lexer) (demand : Nat) (ended : Bool) :
    Pipeline Lexer → List (Signal Value) → Prop where
  /-- Demand ends before the values do, and the next value waits. -/
  | holding {p : Pipeline Lexer} {given : List Value} {v : Value} {rest : List Value}
    (values : y.values = given ++ v :: rest) (met : given.length = demand)
    (bounded : demand ≠ Demand.unbounded)
    (residue : TokenSource.yield p.source p.builder = ⟨rest, y.ending⟩)
    (outlet : p.outlet = { demand := 0, held := some v }) (phase : p.phase = .holding)
    (awaiting : p.awaiting = false) (supply : p.supplyDone = ended)
    (rootOpen : p.rootClosed = false) : Conforms y demand ended p (given.map .next)
  /-- All values are delivered, and so is the terminal signal. -/
  | finished {p : Pipeline Lexer} {t : Signal Value} (verdict : y.verdict ended = some t)
    (covers : Demand.Covers demand y.values.length)
    (outlet : p.outlet = { demand := Demand.left demand y.values.length, closed := true })
    (phase : p.phase = phaseAfter t) (awaiting : p.awaiting = false) :
    Conforms y demand ended p (y.values.map .next ++ [t])
  /-- All values are delivered, and more chunks may come. -/
  | waiting {p : Pipeline Lexer} (ending : y.ending = .dry p.source p.builder)
    (read : p.source.unread = []) (covers : Demand.Covers demand y.values.length)
    (outlet : p.outlet = { demand := Demand.left demand y.values.length })
    (phase : p.phase = if p.awaiting then .awaitingChunk else .idle)
    (awaiting : p.awaiting = (p.demand ≠ 0 || p.source.isMidValue))
    (supply : p.supplyDone = ended) (unended : ended = false) (rootOpen : p.rootClosed = false) :
    Conforms y demand ended p (y.values.map .next)

/-- A new pipeline conforms to the yield of no chunks. -/
theorem conforms_new (options : Options) :
    Conforms (Yield.ofChunks options []) 0 false
      (Pipeline.new { depthLimit := options.depthLimit } options) [] :=
  .waiting rfl rfl (Demand.covers_zero 0) rfl rfl rfl rfl rfl rfl

section

variable {y : Yield Lexer} {demand : Nat} {ended : Bool} {p : Pipeline Lexer}

theorem conforms_fail {cause : Error} (verdict : y.verdict ended = some (.error cause))
    (covers : Demand.Covers demand y.values.length)
    (outlet : p.outlet = { demand := Demand.left demand y.values.length }) :
    Conforms y demand ended (p.fail cause).1
      (y.values.map .next ++ (p.fail cause).2.filterMap Event.signal?) := by
  rw [signals_fail (by rw [outlet]) cause]
  refine .finished verdict covers ?_ ?_ ?_
  · simp [fail, andThen, deliver, outlet_releaseSupplier, clear, outlet, Outlet.fail]
  · simp [fail, andThen, deliver, phase_releaseSupplier, clear, phaseAfter]
  · simp [fail, andThen, deliver, awaiting_releaseSupplier]

theorem conforms_complete (verdict : y.verdict ended = some .complete)
    (covers : Demand.Covers demand y.values.length)
    (outlet : p.outlet = { demand := Demand.left demand y.values.length })
    (awaiting : p.awaiting = false) :
    Conforms y demand ended p.complete.1
      (y.values.map .next ++ p.complete.2.filterMap Event.signal?) := by
  have hsignals : p.complete.2.filterMap Event.signal? = [.complete] := by
    simp only [complete, deliver, outlet, Outlet.complete]
    rfl
  rw [hsignals]
  refine .finished verdict covers ?_ rfl awaiting
  simp [complete, deliver, outlet, Outlet.complete]

theorem conforms_settle_closed (ending : y.ending = .closed)
    (covers : Demand.Covers demand y.values.length)
    (outlet : p.outlet = { demand := Demand.left demand y.values.length })
    (rootClosed : p.rootClosed = true) :
    Conforms y demand ended p.settle.1
      (y.values.map .next ++ p.settle.2.filterMap Event.signal?) := by
  have hsettle : p.settle = andThen p.releaseSupplier complete := by
    simp [settle, isHolding, Outlet.isBlocked, outlet, rootClosed]
  rw [hsettle, andThen_fst, andThen_snd, List.filterMap_append, signals_releaseSupplier,
    List.nil_append]
  refine conforms_complete ?_ covers ?_ (awaiting_releaseSupplier p)
  · simp only [Yield.verdict, ending]
  · rw [outlet_releaseSupplier, outlet]

/-- A source that ran dry when all values are delivered. -/
theorem conforms_settle_dry (ending : y.ending = .dry p.source p.builder)
    (read : p.source.unread = []) (covers : Demand.Covers demand y.values.length)
    (outlet : p.outlet = { demand := Demand.left demand y.values.length })
    (supply : p.supplyDone = ended) (rootOpen : p.rootClosed = false)
    (awaits : p.awaiting = true → ended = false ∧ (p.demand ≠ 0 ∨ p.source.isMidValue = true)) :
    Conforms y demand ended p.settle.1
      (y.values.map .next ++ p.settle.2.filterMap Event.signal?) := by
  have hmid : TokenSource.isMidValue p.source = p.source.isMidValue := rfl
  have hneeds : TokenSource.needsInput p.source = true := by
    show p.source.unread.isEmpty = true
    rw [read]
    rfl
  have hholding : p.isHolding = false := by simp [isHolding, Outlet.isBlocked, outlet]
  unfold settle
  simp only [hholding, rootOpen, Bool.false_eq_true, if_false]
  cases ended with
  | true =>
    have hawaiting : p.awaiting = false := by
      refine Bool.eq_false_iff.mpr fun h => ?_
      exact absurd (awaits h).1 (by decide)
    simp only [supply, if_true]
    -- what is begun can no longer be completed
    by_cases hrest : (p.source.isMidValue || p.builder.depth ≠ 0) = true
    · simp only [hmid, hrest, if_true]
      refine conforms_fail ?_ covers outlet
      simp only [Yield.verdict, ending, Bool.not_true, Bool.false_eq_true, if_false, hrest, if_true]
      rfl
    · simp only [hmid, hrest, Bool.false_eq_true, if_false]
      refine conforms_complete ?_ covers outlet hawaiting
      simp only [Yield.verdict, ending, Bool.not_true, Bool.false_eq_true, if_false, hrest]
  | false =>
    rw [if_neg (by simp [supply])]
    by_cases hawaiting : p.awaiting = true
    · -- the chunk that was asked for has not come
      have hwanted : (p.demand ≠ 0 || p.source.isMidValue) = true := by
        simpa using (awaits hawaiting).2
      rw [if_pos hawaiting, List.filterMap_nil, List.append_nil]
      exact .waiting ending read covers outlet (if_pos hawaiting).symm
        (hawaiting.trans hwanted.symm) supply rfl rfl
    · rw [if_neg hawaiting, hneeds, hmid, Bool.true_and]
      by_cases hwanted : (p.demand ≠ 0 || p.source.isMidValue) = true
      · rw [if_pos hwanted]
        have hsignals : [Event.askChunks 1].filterMap Event.signal? = [] := rfl
        rw [hsignals, List.append_nil]
        exact .waiting ending read covers outlet rfl hwanted.symm supply rfl rfl
      · have hidle : p.awaiting = false := Bool.eq_false_iff.mpr hawaiting
        rw [if_neg hwanted, List.filterMap_nil, List.append_nil]
        exact .waiting ending read covers outlet (by simp [hidle])
          (hidle.trans (Bool.eq_false_iff.mpr hwanted).symm) supply rfl rfl

/-- A pipeline that has delivered part of its yield conforms once it has made all progress. -/
theorem conforms_advance {given rest : List Value} (values : y.values = given ++ rest)
    (residue : TokenSource.yield p.source p.builder = ⟨rest, y.ending⟩)
    (covers : Demand.Covers demand given.length) (bounded : demand ≤ Demand.unbounded)
    (outlet : p.outlet = { demand := Demand.left demand given.length })
    (supply : p.supplyDone = ended) (rootOpen : p.rootClosed = false)
    (awaits : p.awaiting = true →
      ended = false ∧ p.source.unread = [] ∧ (p.demand ≠ 0 ∨ p.source.isMidValue = true)) :
    Conforms y demand ended p.advance.1
      (given.map .next ++ p.advance.2.filterMap Event.signal?) := by
  have hdrained : Drained { p with phase := .draining } ⟨rest, y.ending⟩ p.drain := by
    rw [← residue]
    exact drained_drainUpTo (p := { p with phase := .draining }) (Nat.lt_succ_self _) outlet
      (Demand.left_le bounded _) rootOpen
  have hleft : Demand.left p.outlet.demand rest.length = Demand.left demand y.values.length := by
    rw [outlet, values, List.length_append, Demand.left_add bounded]
  have hcovers (h : Demand.Covers p.outlet.demand rest.length) :
      Demand.Covers demand y.values.length := by
    rw [outlet] at h
    rw [values, List.length_append]
    exact covers.sum bounded h
  have hmap : given.map Signal.next ++ rest.map Signal.next = y.values.map Signal.next := by
    rw [values, List.map_append]
  -- a pipeline that waits for a chunk has nothing to read
  have hread (h : p.awaiting = true) : rest = [] ∧ y.ending = .dry p.source p.builder := by
    obtain ⟨-, hunread, -⟩ := awaits h
    rw [Lexer.yield_of_unread hunread] at residue
    have := Yield.mk.inj residue
    exact ⟨this.1.symm, this.2.symm⟩
  rcases hdrain : p.drain with ⟨error, r⟩
  rw [hdrain] at hdrained
  -- how the drain ends decides in which way the pipeline conforms
  cases hdrained with
  | @held s b more v later split met hbounded hresidue =>
    have split : rest = more ++ v :: later := split
    have hawaiting : p.awaiting = false := by
      refine Bool.eq_false_iff.mpr fun h => ?_
      rw [(hread h).1] at split
      exact absurd split (by simp)
    have hmet : (given ++ more).length = demand := by
      simp only [outlet] at met hbounded
      rw [List.length_append, met]
      exact covers.add_left hbounded
    have hne : demand ≠ Demand.unbounded := by
      intro h
      rw [outlet, h, Demand.left_unbounded] at hbounded
      exact hbounded rfl
    rw [advance_of_drain hdrain, andThen_fst, andThen_snd, List.filterMap_append,
      signals_deliveries]
    simp only [settle, isHolding, Outlet.isBlocked, Option.isSome_some, if_true,
      List.filterMap_nil, List.append_nil, ← List.map_append]
    exact .holding (by rw [values, split, List.append_assoc]) hmet hne hresidue rfl rfl hawaiting
      supply rootOpen
  | @failed s b cause ending hcovered =>
    have hverdict : y.verdict ended = some (.error cause) := by
      have ending : y.ending = .failed cause := ending
      simp only [Yield.verdict, ending]
    rw [advance_of_drain_error hdrain, andThen_fst, andThen_snd, List.filterMap_append,
      signals_deliveries, ← List.append_assoc, hmap]
    exact conforms_fail hverdict (hcovers hcovered) (by rw [hleft])
  | closed ending hcovered =>
    rw [advance_of_drain hdrain, andThen_fst, andThen_snd, List.filterMap_append,
      signals_deliveries, ← List.append_assoc, hmap]
    exact conforms_settle_closed ending (hcovers hcovered) (by rw [hleft]) rfl
  | @dry s b ending hcovered =>
    have hunread : s.unread = [] :=
      Lexer.unread_of_yield (by rw [residue]; exact ending)
    rw [advance_of_drain hdrain, andThen_fst, andThen_snd, List.filterMap_append,
      signals_deliveries, ← List.append_assoc, hmap]
    refine conforms_settle_dry ending hunread (hcovers hcovered) (by rw [hleft]) supply rootOpen ?_
    intro h
    obtain ⟨hended, -, hwanted⟩ := awaits h
    obtain ⟨hrest, hdry⟩ := hread h
    obtain ⟨rfl, rfl⟩ := Yield.Ending.dry.inj (ending.symm.trans hdry)
    refine ⟨hended, hwanted.imp_left fun hne => ?_⟩
    simpa [Pipeline.demand, hrest] using hne

end

end Pipeline

end StreamingJson
