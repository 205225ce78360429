import StreamingJson.Proofs.Builder.Streaming
import StreamingJson.Proofs.Outcome

/-!
# Streaming and whole roots

A text that is parsed with its root arrays streamed gives what the same text gives with them whole,
taken apart: the objects before the first root array and then its items. What is behind that array
is not looked at, so that an error there is not found.

## Main definitions

- `unpacked` — values with the first array taken apart, and what is behind it left out
- `Yield.Unpacks` — the yield of a text with whole roots and that with streamed ones

## Main statements

- `Yield.unpacks_ofReading`, `Yield.Unpacks.feed` — the two yields of tokens and of chunks
- `parse_streamed` — the two results of parsing
-/

namespace StreamingJson

/-- The values before the first array, and then its items. -/
def unpacked : List Value → List Value
  | [] => []
  | v :: vs =>
    match v with
    | .array items => items
    | v => v :: unpacked vs

theorem unpacked_cons {v : Value} (h : v.isArray = false) (vs : List Value) :
    unpacked (v :: vs) = v :: unpacked vs := by
  cases v with
  | array items => cases h
  | _ => rfl

theorem unpacked_append {objects : List Value} (h : ∀ v ∈ objects, v.isArray = false)
    (vs : List Value) : unpacked (objects ++ vs) = objects ++ unpacked vs := by
  induction objects with
  | nil => rfl
  | cons v objects ih =>
    have hobjects : ∀ w ∈ objects, w.isArray = false := fun w hw => h w (List.mem_cons_of_mem v hw)
    rw [List.cons_append, unpacked_cons (h v List.mem_cons_self), ih hobjects, List.cons_append]

theorem unpacked_eq_self {objects : List Value} (h : ∀ v ∈ objects, v.isArray = false) :
    unpacked objects = objects := by
  have happend := unpacked_append h []
  rwa [unpacked, List.append_nil] at happend

namespace Yield

variable {σ : Type} {duplicates : DuplicatePolicy} {items : List Value}

/-! ### Token by token -/

section

variable {b b' : Builder} {t : PlacedToken} (ts : List PlacedToken)
  (rest : Except LexicalFault σ)

theorem ofReading_refused {cause : StructureError} (h : b.push t.token = (.error cause, b')) :
    ofReading b ⟨t :: ts, rest⟩ = ⟨[], .failed (.malformed cause t.after)⟩ := by
  rw [ofReading, Builder.pushAll_refused ts h]
  rfl

theorem ofReading_incomplete (h : b.push t.token = (.ok .incomplete, b')) :
    ofReading b ⟨t :: ts, rest⟩ = ofReading b' ⟨ts, rest⟩ := by
  rw [ofReading, Builder.pushAll_incomplete ts h]
  rfl

theorem ofReading_closed (h : b.push t.token = (.ok .rootClosed, b')) :
    ofReading b ⟨t :: ts, rest⟩ = ⟨[], .closed⟩ := by
  rw [ofReading, Builder.pushAll_closed ts h]
  rfl

theorem ofReading_value {v : Value} (h : b.push t.token = (.ok (.value v), b')) :
    ofReading b ⟨t :: ts, rest⟩ = (ofReading b' ⟨ts, rest⟩).prepend [v] := by
  rw [ofReading, Builder.pushAll_value ts h]
  rfl

end

/-! ### Two yields of a text -/

/-- The yield of a text with whole roots and the yield with streamed roots, which adds to the
`items` that are handed out already of the array that is open. -/
inductive Unpacks (duplicates : DuplicatePolicy) (items : List Value) :
    Yield σ → Yield σ → Prop where
  /-- An error is found before a root array closes. -/
  | failed {objects handed : List Value} {cause : Error}
    (plain : ∀ v ∈ objects, v.isArray = false) :
    Unpacks duplicates items ⟨objects, .failed cause⟩ ⟨handed, .failed cause⟩
  /-- No root array has closed, and more may come. -/
  | dry {objects handed later : List Value} {s : σ} {b b' : Builder}
    (plain : ∀ v ∈ objects, v.isArray = false) (mirrors : b.Mirrors duplicates later b')
    (split : items ++ handed = objects ++ later) :
    Unpacks duplicates items ⟨objects, .dry s b⟩ ⟨handed, .dry s b'⟩
  /-- A root array has closed. -/
  | closed {objects inside more handed : List Value} {ending : Ending σ}
    (plain : ∀ v ∈ objects, v.isArray = false) (split : items ++ handed = objects ++ inside) :
    Unpacks duplicates items ⟨objects ++ .array inside :: more, ending⟩ ⟨handed, .closed⟩

/-- An item that is handed out. -/
theorem Unpacks.of_item {y y' : Yield σ} {v : Value} (h : Unpacks duplicates (items ++ [v]) y y') :
    Unpacks duplicates items y (y'.prepend [v]) := by
  cases h with
  | failed plain => exact .failed plain
  | dry plain mirrors split =>
    rw [List.append_assoc] at split
    exact .dry plain mirrors split
  | closed plain split =>
    rw [List.append_assoc] at split
    exact .closed plain split

/-- Values that were handed out before: the objects so far and the items of the open array. -/
theorem Unpacks.prepend {y y' : Yield σ} (h : Unpacks duplicates items y y') {before : List Value}
    (hbefore : ∀ v ∈ before, v.isArray = false) :
    Unpacks duplicates [] (y.prepend before) (y'.prepend (before ++ items)) := by
  have hplain {objects : List Value} (plain : ∀ v ∈ objects, v.isArray = false) :
      ∀ v ∈ before ++ objects, v.isArray = false := by
    intro v hv
    exact (List.mem_append.mp hv).elim (hbefore v) (plain v)
  have hsplit {handed objects later : List Value} (split : items ++ handed = objects ++ later) :
      [] ++ ((before ++ items) ++ handed) = (before ++ objects) ++ later := by
    rw [List.nil_append, List.append_assoc, split, List.append_assoc]
  cases h with
  | failed plain => exact .failed (hplain plain)
  | dry plain mirrors split => exact .dry (hplain plain) mirrors (hsplit split)
  | @closed objects inside more handed ending plain split =>
    have hvalues : Yield.prepend before ⟨objects ++ .array inside :: more, ending⟩ =
        ⟨(before ++ objects) ++ .array inside :: more, ending⟩ := by
      rw [Yield.prepend, List.append_assoc]
    rw [hvalues]
    exact .closed (hplain plain) (hsplit split)

/-- What tokens yield in two builders that mirror each other. -/
theorem unpacks_ofReading {b b' : Builder} (h : b.Mirrors duplicates items b') (r : Reading σ) :
    Unpacks duplicates items (ofReading b r) (ofReading b' r) := by
  obtain ⟨tokens, rest⟩ := r
  induction tokens generalizing items b b' with
  | nil =>
    cases rest with
    | error fault => exact .failed (fun _ hv => (List.not_mem_nil hv).elim)
    | ok s => exact .dry (fun _ hv => (List.not_mem_nil hv).elim) h (List.append_nil items)
  | cons t ts ih =>
    have hreflects := h.push t.token
    rcases hpush : b.push t.token with ⟨built, next⟩
    rcases hpush' : b'.push t.token with ⟨built', next'⟩
    rw [hpush, hpush'] at hreflects
    cases hreflects with
    | refused cause =>
      rw [ofReading_refused ts rest hpush, ofReading_refused ts rest hpush']
      exact .failed (fun _ hv => (List.not_mem_nil hv).elim)
    | incomplete mirrors =>
      rw [ofReading_incomplete ts rest hpush, ofReading_incomplete ts rest hpush']
      exact ih mirrors
    | item v mirrors =>
      rw [ofReading_incomplete ts rest hpush, ofReading_value ts rest hpush']
      exact (ih mirrors).of_item
    | @object v other _ _ fresh mirrors =>
      rw [ofReading_value ts rest hpush, ofReading_value ts rest hpush', fresh]
      refine (ih mirrors).prepend fun w hw => ?_
      rw [List.mem_singleton.mp hw]
      exact other
    | closed =>
      rw [ofReading_value ts rest hpush, ofReading_closed ts rest hpush']
      have hclosed (y : Yield σ) :
          Unpacks duplicates items ⟨[] ++ .array items :: y.values, y.ending⟩ ⟨[], .closed⟩ :=
        .closed (fun _ hv => (List.not_mem_nil hv).elim) (List.append_nil items)
      exact hclosed _

/-! ### Chunks -/

section

variable {y y' : Yield Lexer}

/-- A chunk adds to the values. -/
theorem exists_feed_eq (y : Yield Lexer) (chunk : List UInt8) :
    ∃ more ending, y.feed chunk = ⟨y.values ++ more, ending⟩ := by
  rw [feed]
  cases hending : y.ending with
  | failed cause => exact ⟨[], y.ending, by rw [List.append_nil]⟩
  | closed => exact ⟨[], y.ending, by rw [List.append_nil]⟩
  | dry l b => exact ⟨_, _, rfl⟩

theorem Unpacks.feed (h : Unpacks duplicates [] y y') (chunk : List UInt8) :
    Unpacks duplicates [] (y.feed chunk) (y'.feed chunk) := by
  cases h with
  | failed plain => exact .failed plain
  | @dry objects handed later l b b' plain mirrors split =>
    have hhanded : handed = objects ++ later := split
    rw [hhanded]
    exact (unpacks_ofReading mirrors _).prepend plain
  | @closed objects inside more handed ending plain split =>
    obtain ⟨further, ending', hfeed⟩ :=
      exists_feed_eq ⟨objects ++ .array inside :: more, ending⟩ chunk
    rw [hfeed, List.append_assoc]
    exact .closed plain split

/-- What chunks yield with whole roots and with streamed ones. -/
theorem unpacks_ofChunks (options : Options) (chunks : List (List UInt8)) :
    Unpacks options.duplicates [] (ofChunks { options with streamRootArray := false } chunks)
      (ofChunks { options with streamRootArray := true } chunks) := by
  have hfoldl {y y' : Yield Lexer} (h : Unpacks options.duplicates [] y y') :
      Unpacks options.duplicates [] (chunks.foldl Yield.feed y) (chunks.foldl Yield.feed y') := by
    induction chunks generalizing y y' with
    | nil => exact h
    | cons chunk chunks ih => exact ih (h.feed chunk)
  exact hfoldl (.dry (fun _ hv => (List.not_mem_nil hv).elim) (.outside none) rfl)

/-! ### Results -/

theorem values_of_outcome {vs : List Value} (h : y.outcome = .ok vs) : vs = y.values := by
  rw [outcome] at h
  split at h
  · cases h
  · exact (Except.ok.inj h).symm
  · split at h
    · cases h
    · exact (Except.ok.inj h).symm

/-- How the two results of a text go together, with the values that are delivered, also before an
error, where roots are whole. -/
structure Agree (values : List Value) (whole streamed : Except Error (List Value)) : Prop where
  /-- The values of a text that has no error are taken apart. -/
  ok : ∀ vs, whole = .ok vs → streamed = .ok (unpacked vs)
  /-- An error that is found with streamed roots is found with whole ones. -/
  error : ∀ cause, streamed = .error cause → whole = .error cause
  /-- An error that is found with whole roots is found with streamed ones, unless a root array has
  closed before. -/
  stopped : ∀ cause, whole = .error cause →
    streamed = if values.any Value.isArray then .ok (unpacked values) else .error cause

theorem any_isArray_eq_false {objects : List Value} (plain : ∀ v ∈ objects, v.isArray = false) :
    objects.any Value.isArray = false :=
  List.any_eq_false.mpr fun v hv => Bool.eq_false_iff.mp (plain v hv)

theorem agree_error {objects : List Value} (plain : ∀ v ∈ objects, v.isArray = false)
    (cause : Error) : Agree objects (.error cause) (.error cause) where
  ok := by
    intro vs hok
    cases hok
  error := fun _ herror => herror
  stopped := by
    intro cause' herror
    rw [any_isArray_eq_false plain, if_neg Bool.false_ne_true]
    exact herror

theorem agree_ok (values : List Value) : Agree values (.ok values) (.ok (unpacked values)) where
  ok := by
    intro vs hok
    rw [Except.ok.inj hok]
  error := by
    intro cause herror
    cases herror
  stopped := by
    intro cause herror
    cases herror

/-- Values that are streamed are those that are delivered with whole roots, taken apart. -/
theorem Agree.eq_unpacked {values vs : List Value} {whole : Except Error (List Value)}
    (h : Agree values whole (.ok vs)) (hwhole : ∀ ws, whole = .ok ws → ws = values) :
    vs = unpacked values := by
  cases hresult : whole with
  | ok ws =>
    rw [← hwhole ws hresult]
    exact Except.ok.inj (h.ok ws hresult)
  | error cause =>
    have hstopped := h.stopped cause hresult
    split at hstopped
    · exact Except.ok.inj hstopped
    · cases hstopped

theorem Unpacks.agree (h : Unpacks duplicates [] y y') : Agree y.values y.outcome y'.outcome := by
  cases h with
  | failed plain => exact agree_error plain _
  | @dry objects handed later l b b' plain mirrors split =>
    rw [outcome, outcome]
    simp only [mirrors.depth_eq]
    by_cases hopen : (l.isMidValue || decide (b.depth ≠ 0)) = true
    · simp only [if_pos hopen]
      exact agree_error plain _
    · simp only [if_neg hopen]
      have hdepth : b.depth = 0 := by
        rw [Bool.or_eq_true, not_or, decide_eq_true_eq] at hopen
        exact Decidable.not_not.mp hopen.2
      have hhanded : handed = unpacked objects := by
        rw [unpacked_eq_self plain]
        rwa [mirrors.items_eq_nil hdepth, List.append_nil] at split
      rw [hhanded]
      exact agree_ok objects
  | @closed objects inside more handed ending plain split =>
    have hhanded : handed = unpacked (objects ++ .array inside :: more) := by
      rw [unpacked_append plain]
      exact split
    have hstreamed : outcome ⟨handed, .closed⟩ =
        .ok (unpacked (objects ++ .array inside :: more)) := by
      rw [← hhanded]
      rfl
    rw [hstreamed]
    refine ⟨?_, ?_, ?_⟩
    · intro vs hok
      rw [values_of_outcome hok]
    · intro cause herror
      cases herror
    · intro cause _
      have harray : (objects ++ .array inside :: more).any Value.isArray = true :=
        List.any_eq_true.mpr ⟨.array inside, List.mem_append_right _ List.mem_cons_self, rfl⟩
      rw [harray, if_pos rfl]

end

end Yield

/-- A text without an error that is parsed with its root arrays streamed gives the objects before
the first root array and then its items. An error that is found so is found with whole roots, at the
same place; and an error that is found with whole roots is found with streamed ones, unless a root
array closed before: then the result is what was delivered, taken apart in this way. -/
theorem parse_streamed (options : Options) (chunks : List (List UInt8)) :
    let whole := parse { options with streamRootArray := false } chunks
    let streamed := parse { options with streamRootArray := true } chunks
    let delivered := Signal.values
      (Event.signals (Pipeline.completedRun { options with streamRootArray := false } chunks).2)
    (∀ vs, whole = .ok vs → streamed = .ok (unpacked vs)) ∧
      (∀ cause, streamed = .error cause → whole = .error cause) ∧
      (∀ cause, whole = .error cause →
        streamed = if delivered.any Value.isArray then .ok (unpacked delivered)
          else .error cause) := by
  intro whole streamed delivered
  have hagree := (Yield.unpacks_ofChunks options chunks).agree
  have hdelivered : delivered =
      (Yield.ofChunks { options with streamRootArray := false } chunks).values := by
    show Signal.values _ = _
    rw [Pipeline.signals_completedRun, Signal.values_append, Signal.values_map_next,
      Yield.values_verdict, List.append_nil]
  rw [← parse_eq_outcome, ← parse_eq_outcome, ← hdelivered] at hagree
  exact ⟨hagree.ok, hagree.error, hagree.stopped⟩

end StreamingJson
