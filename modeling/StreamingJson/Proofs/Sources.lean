import StreamingJson.TokenSource

/-!
# Token sources that do the same

Two kinds of token sources may keep quite different state and still do the same. Here a relation
between their states is given what it takes for that: states in it answer every call alike, and are
in it again afterwards.

## Main definitions

- `TokenSource.FedAlike` — both sources take a chunk, or both refuse it
- `TokenSource.Matching` — sources in a relation do the same

## Main statements

- `TokenSource.Matching.accept` — they are replaced by new ones at the same chunks
-/

namespace StreamingJson.TokenSource

variable {σ τ : Type}

/-- Both sources take a chunk and go on in the relation, or both refuse it with the same words. -/
inductive FedAlike (R : σ → τ → Prop) : Except UnreadInput σ → Except UnreadInput τ → Prop where
  | taken {s : σ} {t : τ} (h : R s t) : FedAlike R (.ok s) (.ok t)
  | refused (refusal : UnreadInput) : FedAlike R (.error refusal) (.error refusal)

/-- Sources in the relation `R` answer alike and are in it again afterwards. -/
structure Matching [TokenSource σ] [TokenSource τ] (R : σ → τ → Prop) : Prop where
  feed : ∀ {s : σ} {t : τ}, R s t → ∀ chunk,
    FedAlike R (TokenSource.feed s chunk) (TokenSource.feed t chunk)
  next : ∀ {s : σ} {t : τ}, R s t → (TokenSource.next s).1 = (TokenSource.next t).1 ∧
    R (TokenSource.next s).2 (TokenSource.next t).2
  needsInput : ∀ {s : σ} {t : τ}, R s t → TokenSource.needsInput s = TokenSource.needsInput t
  isMidValue : ∀ {s : σ} {t : τ}, R s t → TokenSource.isMidValue s = TokenSource.isMidValue t
  location : ∀ {s : σ} {t : τ}, R s t → TokenSource.location s = TokenSource.location t
  fresh : ∀ {s : σ} {t : τ}, R s t → R (TokenSource.fresh s) (TokenSource.fresh t)
  supply : ∀ {s : σ} {t : τ}, R s t → TokenSource.supply s = TokenSource.supply t

/-- They are replaced by new ones at the same chunks. -/
theorem Matching.accept [TokenSource σ] [TokenSource τ] {R : σ → τ → Prop} (h : Matching R) {s : σ}
    {t : τ} (hR : R s t) (chunk : List UInt8) :
    FedAlike R (TokenSource.accept s chunk) (TokenSource.accept t chunk) := by
  rw [TokenSource.accept, TokenSource.accept, h.needsInput hR, h.isMidValue hR]
  split
  · exact h.feed (h.fresh hR) chunk
  · exact h.feed hR chunk

end StreamingJson.TokenSource
