import StreamingJson.Proofs.Lexer.Calls
import StreamingJson.Proofs.Outcome
import StreamingJson.Proofs.Pipeline.Waiting

/-!
# The places of errors

A lexer stands right behind the bytes that it has read, whatever it was asked before. A pipeline
renews its lexer for a chunk if no value is begun then, so that the place in an error counts from
the start of the last chunk before which no value was begun.

## Main definitions

- `Pipeline.failsAt` — the error that is found in reaction to a call, and the state then
- `Pipeline.CountsFrom` — the chunk from which places count
- `Pipeline.FindsError` — how an error comes up after chunks
- `Pipeline.Stands` — a lexer that stands where it should after chunks

## Main statements

- `Pipeline.places_drainUpTo` — a drain leaves the lexer where it should stand, and its errors are
  there
- `Pipeline.Stands.chunk`, `Pipeline.stands_of_dry` — so does a run from chunk to chunk
- `Pipeline.exists_findsError` — the error of a text is found where the lexer stands
- `places_exact` — where lexers stand and errors are
-/

namespace StreamingJson

namespace Pipeline

/-- The error that is found in reaction to a call, and the state in which it is found. There is none
if the call is not taken in. -/
def failsAt {σ : Type} [TokenSource σ] (p : Pipeline σ) (c : Call) : Option (Error × Pipeline σ) :=
  (p.intake c).bind fun r =>
    match r.1.drain with
    | (some cause, q, _) => some (cause, q)
    | (none, _) => none

/-- In the run over the chunks `before ++ counted` no value is begun before the first of the chunks
`counted`, and one is begun before each later one. -/
structure CountsFrom (options : Options) (before counted : List (List UInt8)) : Prop where
  anew : (unboundedRun options before).1.source.isMidValue = false
  within : ∀ start, start <+: counted → start ≠ [] → start ≠ counted →
    (unboundedRun options (before ++ start)).1.source.isMidValue = true

/-- How the error `cause` comes up when the chunks `fed` are taken: the state is `q` then. -/
inductive FindsError (options : Options) : List (List UInt8) → Error → Pipeline Lexer → Prop where
  /-- In the last of the chunks. -/
  | inChunk {earlier : List (List UInt8)} {chunk : List UInt8} {cause : Error} {q : Pipeline Lexer}
    (fails : (unboundedRun options earlier).1.failsAt (.chunk chunk) = some (cause, q)) :
    FindsError options (earlier ++ [chunk]) cause q
  /-- At the end of the supply, which comes while a chunk is awaited, inside a value. -/
  | atEnd {fed : List (List UInt8)} {q : Pipeline Lexer}
    (awaits : (unboundedRun options fed).1.awaiting = true)
    (settles : (unboundedRun options fed).1.settlesAt .supplyEnded = some q)
    (begun : q.source.isMidValue = true ∨ q.builder.depth ≠ 0) :
    FindsError options fed (.truncated q.source.location) q

/-- The lexer stands where it should when the chunks `fed` are taken: it counts from the last of
them before which no value was begun. -/
def Stands (options : Options) (fed : List (List UInt8)) (l : Lexer) : Prop :=
  ∃ before counted, fed = before ++ counted ∧ (fed ≠ [] → counted ≠ []) ∧
    CountsFrom options before counted ∧ l.StandsIn counted.flatten

/-! ### Drains -/

/-- A drain that leaves the lexer standing in the text, and errors where it stands. -/
def Places (text : List UInt8) : Option Error × Reaction Lexer → Prop
  | (error, q, _) =>
    q.source.StandsIn text ∧
      ∀ cause, error = some cause →
        cause.location? = some q.source.location ∧ cause.isTruncated = false

/-- A drain leaves the lexer where it should stand, and its errors are there. -/
theorem places_drainUpTo {text : List UInt8} {p : Pipeline Lexer} (h : p.source.StandsIn text)
    (fuel : Nat) : Places text (drainUpTo fuel p) := by
  have hnone {q : Pipeline Lexer} {events : List Event} (hq : q.source.StandsIn text) :
      Places text (none, q, events) := ⟨hq, fun cause hcause => (by cases hcause)⟩
  fun_induction drainUpTo fuel p with
  | case1 p => exact hnone h
  | case2 fuel p hstopped => exact hnone h
  | case3 fuel p hgoes fault source hnext =>
    refine ⟨h.next hnext, fun cause hcause => ?_⟩
    obtain rfl := Option.some.inj hcause
    exact ⟨congrArg some (Lexer.location_of_fault hnext), rfl⟩
  | case4 fuel p hgoes source hnext => exact hnone (h.next hnext)
  | case5 fuel p hgoes token source hnext cause builder hpush =>
    refine ⟨h.next hnext, fun cause' hcause => ?_⟩
    obtain rfl := Option.some.inj hcause
    exact ⟨rfl, rfl⟩
  | case6 fuel p hgoes token source hnext builder hpush ih => exact ih (h.next hnext)
  | case7 fuel p hgoes token source hnext builder hpush ih => exact ih (h.next hnext)
  | case8 fuel p hgoes token source hnext v builder hpush q events hoffer error q' later hlater
      ih =>
    obtain ⟨rfl, rfl⟩ := Prod.mk.inj hoffer
    have hplaces := ih (h.next hnext)
    rwa [hlater] at hplaces

/-! ### Runs -/

section

variable {options : Options} {fed chunks : List (List UInt8)} {l : Lexer} {b : Builder}
  {cause : Error}

/-- While what the chunks yield may go on, the run waits for a chunk with the lexer from which it
goes on. -/
theorem waiting_of_dry (h : (Yield.ofChunks options fed).ending = .dry l b) :
    (unboundedRun options fed).1.awaiting = true ∧ (unboundedRun options fed).1.source = l ∧
      (unboundedRun options fed).1.builder = b ∧ l.unread = [] := by
  have hconforms := conforms_unboundedRun options fed
  have hawaiting : (unboundedRun options fed).1.awaiting = true := by
    by_contra hidle
    obtain ⟨-, t, hverdict⟩ := hconforms.finished_of_not_awaiting (Bool.eq_false_iff.mpr hidle)
    rw [Yield.verdict, h] at hverdict
    cases hverdict
  obtain ⟨hending, hread, -⟩ := hconforms.waiting_of_awaiting hawaiting
  obtain ⟨rfl, rfl⟩ := Yield.Ending.dry.inj (hending.symm.trans h)
  exact ⟨hawaiting, rfl, rfl, hread⟩

/-- The lexer for the next chunk starts to count with this chunk or goes on counting. -/
theorem Stands.chunk (h : Stands options fed l)
    (hdry : (Yield.ofChunks options fed).ending = .dry l b) (chunk : List UInt8) :
    Stands options (fed ++ [chunk]) (l.renewed.loaded chunk) := by
  obtain ⟨-, hsource, -, hunread⟩ := waiting_of_dry hdry
  obtain ⟨before, counted, hfed, -, hcounts, hstands⟩ := h
  by_cases hmid : l.isMidValue = true
  · refine ⟨before, counted ++ [chunk], ?_, fun _ => List.concat_ne_nil _ _, ⟨hcounts.anew, ?_⟩, ?_⟩
    · rw [hfed, List.append_assoc]
    · intro start hstart hne hproper
      by_cases hwhole : start = counted
      · rwa [hwhole, ← hfed, hsource]
      · have hshorter := (List.prefix_concat_iff.mp hstart).resolve_left hproper
        exact hcounts.within start hshorter hne hwhole
    · rw [Lexer.renewed, if_pos hmid, List.flatten_concat]
      exact hstands.loaded hunread chunk
  · refine ⟨fed, [chunk], rfl, fun _ => List.cons_ne_nil _ _, ⟨?_, ?_⟩, ?_⟩
    · rw [hsource]
      exact Bool.eq_false_iff.mpr hmid
    · intro start hstart hne hproper
      have hshorter : start <+: [] := (List.prefix_concat_iff.mp hstart).resolve_left hproper
      exact absurd (List.prefix_nil.mp hshorter) hne
    · rw [Lexer.renewed, if_neg hmid, List.flatten_singleton]
      exact (Lexer.standsIn_fresh l).loaded rfl chunk

/-- A drain does not take a lexer away from where it should stand, and its errors are there. -/
theorem Stands.drain {p : Pipeline Lexer} (h : Stands options fed p.source) :
    Stands options fed p.drain.2.1.source ∧
      ∀ cause, p.drain.1 = some cause →
        cause.location? = some p.drain.2.1.source.location ∧ cause.isTruncated = false := by
  obtain ⟨before, counted, hfed, hne, hcounts, hstands⟩ := h
  have hplaces : Places counted.flatten p.drain :=
    places_drainUpTo (p := { p with phase := .draining }) hstands _
  exact ⟨⟨before, counted, hfed, hne, hcounts, hplaces.1⟩, hplaces.2⟩

/-- As long as what chunks yield may go on, the lexer stands where it should. -/
theorem stands_of_dry (h : (Yield.ofChunks options fed).ending = .dry l b) :
    Stands options fed l := by
  induction fed using List.reverseRecOn generalizing l b with
  | nil =>
    obtain ⟨-, hsource, -⟩ := waiting_of_dry h
    obtain ⟨rfl, -⟩ := Yield.Ending.dry.inj h
    refine ⟨[], [], rfl, fun hne => absurd rfl hne, ⟨?_, ?_⟩, ?_⟩
    · rw [hsource]
      rfl
    · intro start hstart hne
      exact absurd (List.prefix_nil.mp hstart) hne
    · exact Lexer.standsIn_fresh { depthLimit := options.depthLimit }
  | append_singleton fed chunk ih =>
    rw [Yield.ofChunks_append, List.foldl_cons, List.foldl_nil] at h
    cases hfed : (Yield.ofChunks options fed).ending with
    | failed cause =>
      rw [Yield.feed, hfed, hfed] at h
      cases h
    | closed =>
      rw [Yield.feed, hfed, hfed] at h
      cases h
    | dry l' b' =>
      obtain ⟨hawaiting, hsource, -⟩ := waiting_of_dry hfed
      have hstands := (ih hfed).chunk hfed chunk
      rw [← hsource] at hstands
      have hdrain := (conforms_unboundedRun options fed).drain_withChunk hawaiting chunk
      rw [← hdrain.2 l b h]
      exact (Stands.drain (p := (unboundedRun options fed).1.withChunk chunk) hstands).1

theorem intake_chunk {p : Pipeline Lexer} (hawaiting : p.awaiting = true)
    (hunread : p.source.unread = []) (chunk : List UInt8) :
    p.intake (.chunk chunk) = some (p.withChunk chunk, []) := by
  simp only [intake, hawaiting, if_true, Lexer.accept_of_unread hunread, withChunk]

/-- An error that chunks bring is found in one of them, where the lexer stands then, and later
chunks are not fed. -/
theorem exists_failsAt (h : (Yield.ofChunks options chunks).ending = .failed cause) :
    ∃ earlier chunk unfed q, chunks = earlier ++ [chunk] ++ unfed ∧
      (unboundedRun options earlier).1.failsAt (.chunk chunk) = some (cause, q) ∧
      Stands options (earlier ++ [chunk]) q.source ∧
      cause.location? = some q.source.location ∧ cause.isTruncated = false := by
  induction chunks using List.reverseRecOn with
  | nil => cases h
  | append_singleton fed chunk ih =>
    rw [Yield.ofChunks_append, List.foldl_cons, List.foldl_nil] at h
    cases hfed : (Yield.ofChunks options fed).ending with
    | failed cause' =>
      rw [Yield.feed, hfed] at h
      obtain ⟨earlier, last, unfed, q, hsplit, hfails⟩ := ih h
      exact ⟨earlier, last, unfed ++ [chunk], q, by rw [hsplit, List.append_assoc], hfails⟩
    | closed =>
      rw [Yield.feed, hfed, hfed] at h
      cases h
    | dry l b =>
      obtain ⟨hawaiting, hsource, -, hunread⟩ := waiting_of_dry hfed
      have hstands := (stands_of_dry hfed).chunk hfed chunk
      have hdrain := (conforms_unboundedRun options fed).drain_withChunk hawaiting chunk
      rw [← hsource] at hunread hstands
      have hcause := hdrain.1 cause h
      obtain ⟨hstands', hplace⟩ :=
        Stands.drain (p := (unboundedRun options fed).1.withChunk chunk) hstands
      rcases hr : ((unboundedRun options fed).1.withChunk chunk).drain with ⟨error, q, events⟩
      rw [hr] at hcause hstands' hplace
      obtain rfl : error = some cause := hcause
      have hfails : (unboundedRun options fed).1.failsAt (.chunk chunk) = some (cause, q) := by
        rw [failsAt, intake_chunk hawaiting hunread, Option.bind_some, hr]
      exact ⟨fed, chunk, [], q, (List.append_nil _).symm, hfails, hstands', hplace cause rfl⟩

/-- Where chunks end inside a value the end of the supply finds that. -/
theorem exists_settlesAt (h : (Yield.ofChunks options fed).ending = .dry l b) :
    ∃ q, (unboundedRun options fed).1.settlesAt .supplyEnded = some q ∧ q.source = l ∧
      q.builder = b := by
  obtain ⟨-, rfl, rfl, hunread⟩ := waiting_of_dry h
  have hdrain := drain_of_unread
    (p := { (unboundedRun options fed).1 with supplyDone := true, awaiting := false }) hunread
  refine ⟨{ (unboundedRun options fed).1 with
    supplyDone := true, awaiting := false, phase := .draining }, ?_, rfl, rfl⟩
  rw [settlesAt, intake, Option.bind_some, hdrain]

/-- The error of a text is found after the chunks that are fed, where the lexer stands then; at the
end of the text all is fed and read. -/
theorem exists_findsError (h : parse options chunks = .error cause) :
    ∃ fed unfed q, chunks = fed ++ unfed ∧ fed ≠ [] ∧ FindsError options fed cause q ∧
      Stands options fed q.source ∧ cause.location? = some q.source.location ∧
      (cause.isTruncated = true → q.source.unread = [] ∧ unfed = []) := by
  rw [parse_eq_outcome, Yield.outcome] at h
  cases hending : (Yield.ofChunks options chunks).ending with
  | closed =>
    rw [hending] at h
    cases h
  | failed cause' =>
    rw [hending] at h
    obtain rfl := Except.error.inj h
    obtain ⟨earlier, chunk, unfed, q, hsplit, hfails, hstands, hplace, hfinal⟩ :=
      exists_failsAt hending
    refine ⟨earlier ++ [chunk], unfed, q, hsplit, List.concat_ne_nil _ _, .inChunk hfails, hstands,
      hplace, ?_⟩
    intro htruncated
    rw [hfinal] at htruncated
    cases htruncated
  | dry l b =>
    rw [hending] at h
    dsimp only at h
    split at h
    next hbegun =>
      obtain rfl := Except.error.inj h
      obtain ⟨hawaiting, -, -, hunread⟩ := waiting_of_dry hending
      have hstands := stands_of_dry hending
      have hchunks : chunks ≠ [] := by
        rintro rfl
        obtain ⟨rfl, rfl⟩ := Yield.Ending.dry.inj hending
        cases hbegun
      obtain ⟨q, hsettles, rfl, rfl⟩ := exists_settlesAt hending
      rw [Bool.or_eq_true, decide_eq_true_eq] at hbegun
      exact ⟨chunks, [], q, (List.append_nil _).symm, hchunks, .atEnd hawaiting hsettles hbegun,
        hstands, rfl, fun _ => ⟨hunread, rfl⟩⟩
    next => cases h

end

end Pipeline

/-- A lexer stands right behind the bytes that it has read, and these are the chunks that it took
but for what is unread of the last; its faults are where it stands after the call. Hence an error in
chunks is right behind what is read of them when it is found, counted from the last chunk fed before
which no value was begun; and at the end of the text all is fed and read. -/
theorem places_exact :
    (∀ (limit : Nat) (calls : List Lexer.Call),
        let l := ({ depthLimit := limit } : Lexer).after Lexer.feed calls
        let taken := ({ depthLimit := limit } : Lexer).takenChunks Lexer.feed calls
        (∃ read, taken.flatten = read ++ l.unread ∧ l.unread <:+ taken.getLastD [] ∧
            l.location = Location.behind read) ∧
          ∀ call fault l', l.respond Lexer.feed call = (.fault fault, l') →
            fault.location = l'.location) ∧
      ∀ (options : Options) (chunks : List (List UInt8)) (cause : Error),
        parse options chunks = .error cause →
          ∃ before counted unfed q read, chunks = before ++ counted ++ unfed ∧ counted ≠ [] ∧
            Pipeline.CountsFrom options before counted ∧
            Pipeline.FindsError options (before ++ counted) cause q ∧
            counted.flatten = read ++ q.source.unread ∧
            cause.location? = some (Location.behind read) ∧
            (cause.isTruncated = true → q.source.unread = [] ∧ unfed = []) := by
  refine ⟨?_, ?_⟩
  · intro limit calls l taken
    obtain ⟨read, hread, hplace⟩ :=
      (Lexer.standsIn_fresh { depthLimit := limit }).after calls
    refine ⟨⟨read, hread, ?_, hplace⟩, ?_⟩
    · exact Lexer.unread_after { depthLimit := limit } calls
    · intro call fault l' hfault
      exact Lexer.location_of_respond hfault
  · intro options chunks cause h
    obtain ⟨fed, unfed, q, hsplit, hfed, hfinds, hstands, hplace, hend⟩ :=
      Pipeline.exists_findsError h
    obtain ⟨before, counted, rfl, hne, hcounts, read, hread, hbehind⟩ := hstands
    refine ⟨before, counted, unfed, q, read, hsplit, hne hfed, hcounts, hfinds, hread, ?_, hend⟩
    rw [hplace, hbehind]

/-- After the array `[]` and a line feed, an array that goes over two chunks has a byte that is in
error in its second line; a further chunk is not fed. -/
theorem places_exact_second_chunk :
    let chunks : List (List UInt8) := [[0x5B, 0x5D, 0x0A], [0x5B, 0x0A], [0x20, 0x78, 0x5D], [0x5D]]
    let cause : Error := .lexical ⟨.invalidCharacter [0x78], ⟨2, 2⟩⟩
    parse {} chunks = .error cause ∧
      ∃ before counted unfed q read, chunks = before ++ counted ++ unfed ∧ counted ≠ [] ∧
        Pipeline.CountsFrom {} before counted ∧
        Pipeline.FindsError {} (before ++ counted) cause q ∧
        counted.flatten = read ++ q.source.unread ∧
        cause.location? = some (Location.behind read) ∧
        (cause.isTruncated = true → q.source.unread = [] ∧ unfed = []) := by
  intro chunks cause
  have hparse : parse {} chunks = .error cause := by decide +kernel
  exact ⟨hparse, places_exact.2 {} chunks cause hparse⟩

end StreamingJson
