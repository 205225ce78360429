import StreamingJson.Proofs.Builder.Drafts
import StreamingJson.Proofs.Grammar.Values
import StreamingJson.Proofs.Outcome

/-!
# Parsing and the grammar

Parsing a text in one chunk succeeds exactly on the rows of containers that the grammar describes,
within the limits that are set, and gives their values. Only the streaming of a root array is left
out here, since then the values are others.

## Main statements

- `Yield.outcome_ofReading_eq_ok_iff` — when the tokens of a text give values and no error
- `parse_eq_ok_iff` — which texts are parsed, and what to
-/

namespace StreamingJson

namespace Yield

/-- A text in one chunk yields what its reading yields in a new builder. -/
theorem ofChunks_singleton (options : Options) (data : List UInt8) :
    ofChunks options [data] =
      ofReading (Builder.new options)
        (Lexer.readBytes { depthLimit := options.depthLimit } data) := by
  rw [← Lexer.yield_loaded]
  rfl

/-- Values and no error are the outcome of a reading that meets no fault, of which all tokens are
taken, and at the end of which nothing is left open. -/
theorem outcome_ofReading_eq_ok_iff {b : Builder} {r : Reading Lexer} {values : List Value}
    (hclosed : (b.pushAll r.tokens).2 ≠ .closed) :
    (ofReading b r).outcome = .ok values ↔
      ∃ l last, r.rest = .ok l ∧ b.pushAll r.tokens = (values, .building last) ∧
        l.isMidValue = false ∧ last.depth = 0 := by
  unfold ofReading outcome
  rcases hpush : b.pushAll r.tokens with ⟨vs, last | _ | ⟨cause, place⟩⟩
  · cases hrest : r.rest with
    | error fault => simp [endingOf]
    | ok l =>
      simp only [endingOf]
      constructor
      · intro h
        split at h
        next => cases h
        next hopen =>
          cases h
          rw [Bool.or_eq_true, decide_eq_true_eq, not_or, Bool.not_eq_true,
            Decidable.not_not] at hopen
          exact ⟨l, last, rfl, rfl, hopen⟩
      · rintro ⟨l', last', hl, hlast, hmid, hdepth⟩
        cases hl
        cases hlast
        rw [hmid, hdepth]
        rfl
  · rw [hpush] at hclosed
    exact absurd rfl hclosed
  · simp [endingOf]

end Yield

/-- Parsing a text in one chunk succeeds exactly if the text is a row of containers of the grammar
that nest no deeper than allowed, none with a member name twice where that is refused. The values
are then those containers, with their members merged. -/
theorem parse_eq_ok_iff (duplicates : DuplicatePolicy) (limit : Nat) (data : List UInt8)
    (values : List Value) :
    parse { streamRootArray := false, duplicates, depthLimit := limit } [data] = .ok values ↔
      ∃ documents, Documents documents data ∧ (∀ d ∈ documents, d.nesting ≤ limit) ∧
        (duplicates = .reject → ∀ d ∈ documents, d.NamesDistinct) ∧
        values = documents.map Value.merged := by
  rw [parse_eq_outcome, Yield.ofChunks_singleton]
  refine Iff.trans (Yield.outcome_ofReading_eq_ok_iff
    (Draft.pushAll_ne_closed (Draft.sound_nil duplicates) _)) ?_
  constructor
  · -- the builder tells which values the tokens make up, and the scanner that the text is theirs
    rintro ⟨l, last, hrest, hpush, hmid, hdepth⟩
    obtain ⟨documents, hcontainers, hdistinct, htokens, hvalues⟩ :=
      Builder.takes_iff.mp ⟨last, Builder.takes_of_pushAll hpush, hdepth⟩
    have hreads := Lexer.reads_of_readBytes hrest
    have hscanner : l.scanner = ⟨[], .between⟩ := Scanner.eq_of_not_isMidValue hmid
    rw [htokens, hscanner] at hreads
    obtain ⟨hdocuments, hnesting⟩ := Scanner.documents_of_reads hcontainers hreads
    exact ⟨documents, hdocuments, hnesting, hdistinct, hvalues⟩
  · rintro ⟨documents, hdocuments, hnesting, hdistinct, hvalues⟩
    have hreads := Scanner.reads_documents hdocuments hnesting
    obtain ⟨htokens, l, hrest, hscanner⟩ :=
      Lexer.readBytes_of_reads hreads (l := { depthLimit := limit }) rfl rfl
    subst hvalues
    obtain ⟨last, htakes, hdepth⟩ :=
      Builder.takes_iff.mpr ⟨documents, hdocuments.containers, hdistinct, htokens, rfl⟩
    refine ⟨l, last, hrest, Builder.pushAll_of_takes htakes, ?_, hdepth⟩
    rw [Lexer.isMidValue, hscanner]
    rfl

example : parse {} [[0x5B, 0x31, 0x5D, 0x20, 0x7B, 0x7D]] =
    .ok [.array [.int 1], .object []] := by cbv

end StreamingJson
