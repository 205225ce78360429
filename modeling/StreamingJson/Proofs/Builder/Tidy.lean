import StreamingJson.Proofs.Builder.Trees

/-!
# What a builder keeps

Tokens do not change the settings of a builder. Besides these a builder keeps nothing of what it has
seen but the open containers, the name that waits for its value and the mark that the root array is
streamed; so outside containers nothing is left.

## Main definitions

- `Builder.Tidy` — a builder that keeps nothing outside containers
- `Builder.Keeps` — two builders with the same settings

## Main statements

- `Builder.keeps_push` — tokens do not change the settings
- `Builder.outside_push` — tokens leave nothing behind outside containers
- `Builder.Tidy.pushAll` — what tokens leave of a tidy builder
-/

namespace StreamingJson

namespace Builder

/-- A builder that outside containers keeps nothing of what it has seen, and that streams a root
array only if it is to. -/
structure Tidy (b : Builder) : Prop where
  outside : b.nests = [] → b = b.reset
  streams : b.streaming = true → b.streamRootArray = true

/-- The settings stay the same, and a root array is streamed only where one was before or where the
settings say so. -/
structure Keeps (b next : Builder) : Prop where
  settings : next.reset = b.reset
  streaming : next.streaming = true → b.streaming = true ∨ b.streamRootArray = true

variable {b next last : Builder} {built : Built}

/-! ### The settings -/

theorem streamRootArray_of_reset (h : next.reset = b.reset) :
    next.streamRootArray = b.streamRootArray := by
  have hsame := congrArg streamRootArray h
  exact hsame

theorem Keeps.trans (h : Keeps b next) (h' : Keeps next last) : Keeps b last := by
  refine ⟨h'.settings.trans h.settings, fun hlast => ?_⟩
  rcases h'.streaming hlast with hnext | hnext
  · exact h.streaming hnext
  · exact .inr ((streamRootArray_of_reset h.settings).symm.trans hnext)

theorem keeps_takeSlot (b : Builder) : Keeps b b.takeSlot.2 := by
  rw [takeSlot]
  split
  · split <;> exact ⟨rfl, .inl⟩
  · exact ⟨rfl, .inl⟩

theorem keeps_attach (b : Builder) (v : Value) (slot : Option String) :
    Keeps b (b.attach v slot).2 := by
  rw [attach]
  split
  · exact ⟨rfl, .inl⟩
  · split
    · exact ⟨rfl, .inl⟩
    · split <;> exact ⟨rfl, .inl⟩

theorem keeps_openNest (b : Builder) (container : Container) (isArray : Bool) :
    Keeps b (b.openNest container isArray).2 := by
  have hstart : Keeps b (if b.nests.isEmpty then
      { b with streaming := b.streamRootArray && isArray } else b) := by
    split
    · exact ⟨rfl, fun h => .inr (Bool.and_eq_true_iff.mp h).1⟩
    · exact ⟨rfl, .inl⟩
  rw [openNest]
  generalize (if b.nests.isEmpty then
      { b with streaming := b.streamRootArray && isArray } else b) = start at hstart
  have hslot := keeps_takeSlot start
  split
  next htake =>
    rw [htake] at hslot
    exact hstart.trans hslot
  next htake =>
    rw [htake] at hslot
    exact hstart.trans ⟨hslot.settings, hslot.streaming⟩

theorem keeps_closeNest (b : Builder) (found : Token.Kind) : Keeps b (b.closeNest found).2 := by
  rw [closeNest]
  split
  · exact ⟨rfl, .inl⟩
  · dsimp only
    split
    · exact ⟨rfl, .inl⟩
    · split
      · exact ⟨rfl, .inl⟩
      · split
        · exact ⟨rfl, fun h => absurd h Bool.false_ne_true⟩
        · refine Keeps.trans ?_ (keeps_attach _ _ _)
          exact ⟨rfl, .inl⟩

theorem keeps_fieldName (b : Builder) (name : String) : Keeps b (b.fieldName name).2 := by
  rw [fieldName]
  split
  · exact ⟨rfl, .inl⟩
  · split <;> exact ⟨rfl, .inl⟩
  · exact ⟨rfl, .inl⟩

theorem keeps_scalar (b : Builder) (v : Value) (kind : Token.Kind) :
    Keeps b (b.scalar v kind).2 := by
  have hslot := keeps_takeSlot b
  rw [scalar]
  split
  · exact ⟨rfl, .inl⟩
  · split
    next htake => rwa [htake] at hslot
    next htake =>
      rw [htake] at hslot
      exact hslot.trans (keeps_attach _ _ _)

/-- Tokens do not change the settings of a builder. -/
theorem keeps_push (b : Builder) (token : Token) : Keeps b (b.push token).2 := by
  cases token with
  | startObject => exact keeps_openNest b _ _
  | startArray => exact keeps_openNest b _ _
  | endObject | endArray => exact keeps_closeNest b _
  | fieldName name => exact keeps_fieldName b name
  | string text => exact keeps_scalar b _ _
  | int i => exact keeps_scalar b _ _
  | float x => exact keeps_scalar b _ _
  | bool t => exact keeps_scalar b _ _
  | null => exact keeps_scalar b _ _

/-! ### The end of the root array -/

theorem attach_ne_rootClosed (b : Builder) (v : Value) (slot : Option String) :
    (b.attach v slot).1 ≠ .ok .rootClosed := by
  rw [attach]
  split
  · simp
  · split
    · simp
    · split <;> simp

theorem openNest_ne_rootClosed (b : Builder) (container : Container) (isArray : Bool) :
    (b.openNest container isArray).1 ≠ .ok .rootClosed := by
  rw [openNest]
  split <;> simp

theorem scalar_ne_rootClosed (b : Builder) (v : Value) (kind : Token.Kind) :
    (b.scalar v kind).1 ≠ .ok .rootClosed := by
  rw [scalar]
  split
  · simp
  · split
    · simp
    · exact attach_ne_rootClosed _ _ _

theorem fieldName_ne_rootClosed (b : Builder) (name : String) :
    (b.fieldName name).1 ≠ .ok .rootClosed := by
  rw [fieldName]
  split
  · simp
  · split <;> simp
  · simp

theorem streaming_of_closeNest {found : Token.Kind} (h : (b.closeNest found).1 = .ok .rootClosed) :
    b.streaming = true := by
  rw [closeNest] at h
  split at h
  · cases h
  · dsimp only at h
    split at h
    · cases h
    · split at h
      · cases h
      · split at h
        next hstreamed => exact (Bool.and_eq_true_iff.mp hstreamed).1
        next => exact absurd h (attach_ne_rootClosed _ _ _)

/-- A root array closes for a builder only if it is streamed. -/
theorem streaming_of_rootClosed {token : Token} (h : b.push token = (.ok .rootClosed, next)) :
    b.streaming = true := by
  have hresult : (b.push token).1 = .ok .rootClosed := congrArg Prod.fst h
  cases token with
  | startObject => exact absurd hresult (openNest_ne_rootClosed b _ _)
  | startArray => exact absurd hresult (openNest_ne_rootClosed b _ _)
  | endObject => exact streaming_of_closeNest hresult
  | endArray => exact streaming_of_closeNest hresult
  | fieldName name => exact absurd hresult (fieldName_ne_rootClosed b name)
  | string text => exact absurd hresult (scalar_ne_rootClosed b _ _)
  | int i => exact absurd hresult (scalar_ne_rootClosed b _ _)
  | float x => exact absurd hresult (scalar_ne_rootClosed b _ _)
  | bool t => exact absurd hresult (scalar_ne_rootClosed b _ _)
  | null => exact absurd hresult (scalar_ne_rootClosed b _ _)

/-! ### Outside containers -/

theorem outside_closeNest {found : Token.Kind} (h : b.closeNest found = (.ok built, next))
    (hnests : next.nests = []) : next = next.reset := by
  obtain ⟨streamRootArray, policy, nests, pending, streaming⟩ := b
  cases nests with
  | nil => cases h
  | cons nest outer =>
    rw [closeNest] at h
    dsimp only at h
    split at h
    · cases h
    · split at h
      · cases h
      · split at h
        · -- the streamed root array: its mark is taken away with it
          cases h
          obtain rfl : outer = [] := hnests
          rfl
        next hstreamed =>
          have houtline := outline_attach h
          rw [hnests] at houtline
          obtain rfl : outer = [] := List.map_eq_nil_iff.mp houtline.symm
          cases h
          -- outside containers no array is streamed
          obtain rfl : streaming = false := by simpa using hstreamed
          rfl

/-- Where a token leaves no container open it leaves nothing else behind either. -/
theorem outside_push {token : Token} (h : b.push token = (.ok built, next))
    (hnests : next.nests = []) : next = next.reset := by
  have hchanges := changes_push h
  rw [hnests] at hchanges
  generalize hopen : b.nests = nests at hchanges
  cases hchanges with
  | closed closes =>
    cases token with
    | endObject | endArray => exact outside_closeNest h hnests
    | _ => cases closes
  | kept opens closes same =>
    obtain rfl : nests = [] := List.map_eq_nil_iff.mp same.symm
    -- outside containers a token opens one or is refused
    cases token with
    | startObject | startArray => cases opens
    | endObject | endArray => cases closes
    | fieldName name => simp [push, fieldName, hopen] at h
    | string text | int i | float x | bool t | null => simp [push, scalar, hopen] at h

/-- A token that is taken leaves the builder tidy. -/
theorem Tidy.push (hb : b.Tidy) {token : Token} (h : b.push token = (.ok built, next)) :
    next.Tidy ∧ next.reset = b.reset := by
  have hkeeps := keeps_push b token
  rw [h] at hkeeps
  refine ⟨⟨outside_push h, fun hstreaming => ?_⟩, hkeeps.settings⟩
  rw [streamRootArray_of_reset hkeeps.settings]
  exact (hkeeps.streaming hstreaming).elim hb.streams id

/-- What tokens leave of a tidy builder: a tidy one, or the end of a root array that it was to
stream. -/
theorem Tidy.pushAll (hb : b.Tidy) (tokens : List PlacedToken) :
    (∀ last, (b.pushAll tokens).2 = .building last → last.Tidy ∧ last.reset = b.reset) ∧
      ((b.pushAll tokens).2 = .closed → b.streamRootArray = true) := by
  induction tokens generalizing b with
  | nil =>
    refine ⟨fun last hlast => ?_, fun hclosed => (by cases hclosed)⟩
    cases hlast
    exact ⟨hb, rfl⟩
  | cons t ts ih =>
    have hgoes {b' : Builder} (htidy : b'.Tidy ∧ b'.reset = b.reset) :
        (∀ last, (b'.pushAll ts).2 = .building last → last.Tidy ∧ last.reset = b.reset) ∧
          ((b'.pushAll ts).2 = .closed → b.streamRootArray = true) := by
      obtain ⟨hbuilding, hclosed⟩ := ih htidy.1
      refine ⟨fun last hlast => ?_, fun hend => ?_⟩
      · exact ⟨(hbuilding last hlast).1, (hbuilding last hlast).2.trans htidy.2⟩
      · exact (streamRootArray_of_reset htidy.2).symm.trans (hclosed hend)
    rcases hpush : b.push t.token with ⟨cause | _ | v | _, b'⟩
    · rw [pushAll_refused ts hpush]
      exact ⟨fun last hlast => (by cases hlast), fun hclosed => (by cases hclosed)⟩
    · rw [pushAll_incomplete ts hpush]
      exact hgoes (hb.push hpush)
    · rw [pushAll_value ts hpush]
      exact hgoes (hb.push hpush)
    · rw [pushAll_closed ts hpush]
      exact ⟨fun last hlast => (by cases hlast),
        fun _ => hb.streams (streaming_of_rootClosed hpush)⟩

end Builder

end StreamingJson
