import StreamingJson.Proofs.Outcome
import StreamingJson.Proofs.Unplaced

/-!
# Cutting a text does not change its values

A text may come in any chunks: what a pipeline delivers, and what parsing gives, depends on the text
alone, except for the places in errors, which count from the chunk in which a value begins, and for
the length of quotations.

## Main statements

- `Yield.unplaced_foldl_feed` — chunks yield what their concatenation yields
- `Pipeline.runs_agree` — two cuts of one text are delivered and parsed alike
-/

namespace StreamingJson

namespace Yield

theorem feed_prepend (vs : List Value) (y : Yield Lexer) (chunk : List UInt8) :
    (y.prepend vs).feed chunk = (y.feed chunk).prepend vs := by
  obtain ⟨values, ending⟩ := y
  cases ending with
  | failed cause => rfl
  | closed => rfl
  | dry l b => exact (prepend_prepend vs values _).symm

/-- Values that are delivered already do not matter for what further chunks yield. -/
theorem foldl_feed_prepend (vs : List Value) (y : Yield Lexer) (chunks : List (List UInt8)) :
    chunks.foldl feed (y.prepend vs) = (chunks.foldl feed y).prepend vs := by
  induction chunks generalizing y with
  | nil => rfl
  | cons chunk rest ih => rw [List.foldl_cons, List.foldl_cons, feed_prepend, ih]

theorem exists_verdict_of_fault (b : Builder) (ts : List PlacedToken) (fault : LexicalFault) :
    ∃ t, (ofReading b ⟨ts, .error fault⟩).verdict false = some t := by
  show ∃ t, Yield.verdict ⟨_, endingOf (.error fault) (b.pushAll ts).2⟩ false = some t
  cases (b.pushAll ts).2 with
  | building b' => exact ⟨_, rfl⟩
  | closed => exact ⟨_, rfl⟩
  | refused cause place => exact ⟨_, rfl⟩

/-- Chunks yield what their concatenation yields, but for places and quotations. -/
theorem unplaced_foldl_feed {l : Lexer} (h : l.unread = []) (b : Builder)
    (chunks : List (List UInt8)) :
    (chunks.foldl feed ⟨[], .dry l b⟩).unplaced =
      (ofReading b (l.readBytes chunks.flatten)).unplaced := by
  induction chunks generalizing l b with
  | nil =>
    rw [List.foldl_nil, List.flatten_nil, Lexer.readBytes_nil]
    have hloaded : l.loaded [] = l := by rw [Lexer.loaded, ← h]
    rw [hloaded]
    rfl
  | cons chunk rest ih =>
    have hfeed : feed ⟨[], .dry l b⟩ chunk = ofReading b (l.renewed.readBytes chunk) := by
      rw [feed]
      exact Lexer.yield_loaded l.renewed b chunk
    have hrenewed : (ofReading b (l.readBytes (chunk ++ rest.flatten))).unplaced =
        (ofReading b (l.renewed.readBytes (chunk ++ rest.flatten))).unplaced :=
      unplaced_ofReading_congr (Lexer.unplaced_readBytes_renewed h _).symm b
    rw [List.foldl_cons, List.flatten_cons, hfeed, hrenewed]
    rcases hrest : (l.renewed.readBytes chunk).rest with fault | l'
    · -- a fault in the chunk: later chunks change at most what it quotes
      obtain ⟨fault', happend, habridges⟩ := Lexer.readBytes_append_of_fault rest.flatten hrest
      have hchunk : l.renewed.readBytes chunk =
          ⟨(l.renewed.readBytes chunk).tokens, .error fault⟩ := by rw [← hrest]
      obtain ⟨t, hverdict⟩ := exists_verdict_of_fault b (l.renewed.readBytes chunk).tokens fault
      rw [hchunk, foldl_feed_of_verdict hverdict, happend]
      refine unplaced_ofReading_congr ?_ b
      show Reading.mk _ (Except.error fault.unplaced) = Reading.mk _ (Except.error fault'.unplaced)
      rw [habridges.unplaced_eq]
    · -- the chunk is read: the rest is read from where the lexer stands, unless building ended
      rw [Lexer.readBytes_append_of_ok rest.flatten hrest, ofReading_prepend]
      have hchunk : ofReading b (l.renewed.readBytes chunk) =
          ⟨(b.pushAll (l.renewed.readBytes chunk).tokens).1,
            endingOf (.ok l') (b.pushAll (l.renewed.readBytes chunk).tokens).2⟩ := by
        rw [ofReading, hrest]
      rw [hchunk]
      cases (b.pushAll (l.renewed.readBytes chunk).tokens).2 with
      | building b' =>
        have hsplit : Yield.mk (b.pushAll (l.renewed.readBytes chunk).tokens).1
            (endingOf (.ok l') (.building b')) =
              (Yield.mk [] (.dry l' b')).prepend
                (b.pushAll (l.renewed.readBytes chunk).tokens).1 := by
          rw [prepend, List.append_nil]
          rfl
        rw [hsplit, foldl_feed_prepend, unplaced_prepend, unplaced_prepend,
          ih (Lexer.unread_of_readBytes hrest)]
      | closed =>
        rw [foldl_feed_of_verdict rfl]
        rfl
      | refused cause place =>
        rw [foldl_feed_of_verdict rfl]
        rfl

theorem unplaced_ofChunks_congr (options : Options) {cs ds : List (List UInt8)}
    (h : cs.flatten = ds.flatten) :
    (ofChunks options cs).unplaced = (ofChunks options ds).unplaced := by
  rw [ofChunks, ofChunks, unplaced_foldl_feed rfl, unplaced_foldl_feed rfl, h]

theorem values_congr {y z : Yield Lexer} (h : y.unplaced = z.unplaced) : y.values = z.values := by
  have hvalues : y.unplaced.values = z.unplaced.values := by rw [h]
  exact hvalues

/-- Signals that differ in places and quotations only are collected to results that do. -/
theorem mapError_collect_congr (values : List Value) {t u : Signal Value}
    (h : t.unplaced = u.unplaced) :
    (collect (values.map .next ++ [t])).mapError Error.unplaced =
      (collect (values.map .next ++ [u])).mapError Error.unplaced := by
  rw [collect_append, collect_append]
  cases t with
  | next v =>
    cases u with
    | next w => rw [Signal.next.inj h]
    | complete => cases h
    | error cause => cases h
  | complete =>
    cases u with
    | next w => cases h
    | complete => rfl
    | error cause => cases h
  | error cause =>
    cases u with
    | next w => cases h
    | complete => cases h
    | error cause' => exact congrArg Except.error (Signal.error.inj h)

end Yield

namespace Pipeline

/-- Two cuts of one text are delivered alike. Before the supply ends, the values delivered are the
same. After its end so are they, and the one terminal signal that follows them is the same but for
its place and quotation. Parsing gives the same values or the same error but for these. -/
theorem runs_agree (options : Options) (cs ds : List (List UInt8)) (h : cs.flatten = ds.flatten) :
    Signal.values (Event.signals (unboundedRun options cs).2) =
        Signal.values (Event.signals (unboundedRun options ds).2) ∧
      (∃ (values : List Value) (t u : Signal Value),
        Event.signals (completedRun options cs).2 = values.map .next ++ [t] ∧
        Event.signals (completedRun options ds).2 = values.map .next ++ [u] ∧
        t.isTerminal = true ∧ u.isTerminal = true ∧ t.unplaced = u.unplaced) ∧
      (parse options cs).mapError Error.unplaced = (parse options ds).mapError Error.unplaced := by
  have hyield := Yield.unplaced_ofChunks_congr options h
  have hvalues : (Yield.ofChunks options cs).values = (Yield.ofChunks options ds).values :=
    Yield.values_congr hyield
  obtain ⟨t, ht⟩ := (Yield.ofChunks options cs).exists_verdict
  obtain ⟨u, hu⟩ := (Yield.ofChunks options ds).exists_verdict
  have hverdict : t.unplaced = u.unplaced := by
    have hcongr := Yield.unplaced_verdict_congr hyield true
    rw [ht, hu] at hcongr
    exact Option.some.inj hcongr
  have hcs : Event.signals (completedRun options cs).2 =
      (Yield.ofChunks options cs).values.map .next ++ [t] := by
    rw [signals_completedRun, ht]
    rfl
  have hds : Event.signals (completedRun options ds).2 =
      (Yield.ofChunks options cs).values.map .next ++ [u] := by
    rw [signals_completedRun, hu, hvalues]
    rfl
  refine ⟨?_, ⟨_, t, u, hcs, hds, Yield.verdict_isTerminal ht, Yield.verdict_isTerminal hu,
    hverdict⟩, ?_⟩
  · rw [values_unboundedRun, values_unboundedRun, hvalues]
  · rw [parse_eq_collect, parse_eq_collect, hcs, hds]
    exact Yield.mapError_collect_congr _ hverdict

/-- The text `["é"x` in one chunk, and cut inside the character and before the byte that is in
error, with an empty chunk in between. -/
theorem runs_agree_inside_character :
    let cs : List (List UInt8) := [[0x5B, 0x22, 0xC3], [0xA9, 0x22], [], [0x78]]
    let ds : List (List UInt8) := [[0x5B, 0x22, 0xC3, 0xA9, 0x22, 0x78]]
    cs.flatten = ds.flatten ∧
      Signal.values (Event.signals (unboundedRun {} cs).2) =
        Signal.values (Event.signals (unboundedRun {} ds).2) ∧
      (∃ (values : List Value) (t u : Signal Value),
        Event.signals (completedRun {} cs).2 = values.map .next ++ [t] ∧
        Event.signals (completedRun {} ds).2 = values.map .next ++ [u] ∧
        t.isTerminal = true ∧ u.isTerminal = true ∧ t.unplaced = u.unplaced) ∧
      (parse {} cs).mapError Error.unplaced = (parse {} ds).mapError Error.unplaced :=
  ⟨by decide, runs_agree {} _ _ (by decide)⟩

end Pipeline

end StreamingJson
