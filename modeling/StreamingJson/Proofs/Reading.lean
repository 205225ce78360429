import StreamingJson.TokenSource

/-!
# Reading a source to its end

All that a token source gives from the bytes at hand: the tokens one after the other, and then
either the source with nothing left to give or the fault that stopped it.

## Main definitions

- `PlacedToken` — a token and the place right behind it
- `Reading` — tokens and how they end
- `TokenSource.reading` — asks a source for tokens until it gives none
-/

namespace StreamingJson

/-- A token and the location of its source right after it. -/
structure PlacedToken where
  token : Token
  after : Location
deriving DecidableEq, Repr

/-- Tokens in order, and then the source that has no further one or the fault that stopped it. -/
structure Reading (σ : Type) where
  tokens : List PlacedToken
  rest : Except LexicalFault σ

namespace Reading

variable {σ : Type}

/-- The reading with further tokens in front. -/
def prepend (tokens : List PlacedToken) (r : Reading σ) : Reading σ :=
  { r with tokens := tokens ++ r.tokens }

@[simp]
theorem prepend_nil (r : Reading σ) : r.prepend [] = r := rfl

@[simp]
theorem prepend_prepend (ts us : List PlacedToken) (r : Reading σ) :
    (r.prepend us).prepend ts = r.prepend (ts ++ us) := by
  simp [prepend]

@[simp]
theorem tokens_prepend (ts : List PlacedToken) (r : Reading σ) :
    (r.prepend ts).tokens = ts ++ r.tokens := rfl

@[simp]
theorem rest_prepend (ts : List PlacedToken) (r : Reading σ) : (r.prepend ts).rest = r.rest := rfl

end Reading

namespace TokenSource

variable {σ : Type} [TokenSource σ]

/-- The tokens that a source gives until it gives none. -/
def reading (s : σ) : Reading σ :=
  match _h : next s with
  | (.error fault, _) => ⟨[], .error fault⟩
  | (.ok none, s') => ⟨[], .ok s'⟩
  | (.ok (some token), s') => (reading s').prepend [⟨token, location s'⟩]
termination_by supply s
decreasing_by exact supply_next_lt _ _ _ ‹_›

theorem reading_of_fault {s s' : σ} {fault : LexicalFault} (h : next s = (.error fault, s')) :
    reading s = ⟨[], .error fault⟩ := by
  rw [reading]
  split <;> simp_all

theorem reading_of_none {s s' : σ} (h : next s = (.ok none, s')) : reading s = ⟨[], .ok s'⟩ := by
  rw [reading]
  split <;> simp_all

theorem reading_of_token {s s' : σ} {token : Token} (h : next s = (.ok (some token), s')) :
    reading s = (reading s').prepend [⟨token, location s'⟩] := by
  rw [reading]
  split <;> simp_all

theorem reading_congr {s t : σ} (h : next s = next t) : reading s = reading t := by
  rcases hs : next s with ⟨fault | _ | token, s'⟩
  · rw [reading_of_fault hs, reading_of_fault (h.symm.trans hs)]
  · rw [reading_of_none hs, reading_of_none (h.symm.trans hs)]
  · rw [reading_of_token hs, reading_of_token (h.symm.trans hs)]

end TokenSource

end StreamingJson
