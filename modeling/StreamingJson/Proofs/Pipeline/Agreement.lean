import StreamingJson.Proofs.Builder.Lockstep
import StreamingJson.Proofs.Pipeline.Invariance

/-!
# Scanner and builder agree throughout

In every run of a pipeline over a lexer, whatever the two sides call in whichever order, scanner and
builder agree on the open containers and on whether a name waits for its value. So there are few
reasons left for which a builder may refuse a token, and where the end of the supply finds the lexer
outside values it finds the builder so.

## Main definitions

- `Lexer.InStep` — a lexer and a builder that agree

## Main statements

- `Lexer.scanner_of_accept` — a chunk changes nothing for the scanner, also where a new lexer takes
  it
- `Lexer.invariance_inStep` — chunks and tokens keep the agreement
- `Pipeline.lockstep_run` — it holds of every run
-/

namespace StreamingJson

namespace Lexer

theorem scanner_of_feed {l l' : Lexer} {chunk : List UInt8} (h : l.feed chunk = .ok l') :
    l'.scanner = l.scanner := by
  rw [feed] at h
  split at h
  · cases h
    rfl
  · cases h

/-- Where no value is begun the scanner is that of a new lexer. -/
theorem scanner_of_accept {l l' : Lexer} {chunk : List UInt8}
    (h : TokenSource.accept l chunk = .ok l') : l'.scanner = l.scanner := by
  rw [TokenSource.accept] at h
  split at h
  next hclean =>
    obtain ⟨-, hmid⟩ := Bool.and_eq_true_iff.mp hclean
    have hmid : l.scanner.isMidValue = false := (Bool.not_eq_true' _).mp hmid
    calc l'.scanner = l.fresh.scanner := scanner_of_feed h
      _ = l.scanner := (Scanner.eq_of_not_isMidValue hmid).symm
  next => exact scanner_of_feed h

/-- The errors of structure among all errors are those that may remain for the builder to find. -/
def LeavesOpen (duplicates : DuplicatePolicy) (cause : Error) : Prop :=
  ∀ structural place, cause = .malformed structural place → structural.Remains duplicates

/-- A lexer and a builder that agree. -/
def InStep (duplicates : DuplicatePolicy) (l : Lexer) (b : Builder) : Prop :=
  l.scanner.Placed ∧ Lockstep duplicates l.scanner.frames b

/-- What becomes of the agreement when the builder takes the next token of the lexer. -/
theorem InStep.push {duplicates : DuplicatePolicy} {l l' : Lexer} {b : Builder} {token : Token}
    (h : InStep duplicates l b) (hnext : TokenSource.next l = (.ok (some token), l')) :
    l'.scanner.Placed ∧ Lockstep.After duplicates l'.scanner.frames (b.push token) := by
  obtain ⟨hplaced, hlockstep⟩ := h
  have haccounts := accounts_next hplaced
  rw [hnext] at haccounts
  obtain ⟨hplaced', frames, halike, hmoves⟩ := haccounts
  exact ⟨hplaced', (hlockstep.of_alike halike).push hmoves⟩

/-- The agreement of lexer and builder is kept by chunks and tokens. -/
theorem invariance_inStep (duplicates : DuplicatePolicy) :
    Pipeline.Invariance (InStep duplicates) (LeavesOpen duplicates) where
  accept := by
    intro l l' b chunk hl haccept
    rw [InStep, scanner_of_accept haccept]
    exact hl
  dry := by
    rintro l l' b ⟨hplaced, hlockstep⟩ hnext
    have haccounts := accounts_next hplaced
    rw [hnext] at haccounts
    exact ⟨haccounts.1, hlockstep.of_alike haccounts.2⟩
  token := by
    intro l l' b b' token built hl hnext hpush
    have hafter := hl.push hnext
    rw [hpush] at hafter
    exact hafter
  lexical := by
    intro l l' b fault _ _ structural place hcause
    cases hcause
  malformed := by
    intro l l' b b' token cause hl hnext hpush structural place hcause
    have hafter := hl.push hnext
    rw [hpush] at hafter
    cases hcause
    exact hafter.2
  truncated := by
    intro l b _ structural place hcause
    cases hcause
  foreign := by
    rintro cause hforeign structural place rfl
    cases hforeign

end Lexer

namespace Pipeline

/-- In every state of a run before its end the same containers are open in the scanner and in the
builder, and a name is pending in the builder exactly if it waits for its value in the scanner. No
error of structure is delivered but a value or a closing bracket outside containers and, if they are
rejected, a name that occurs again. Where a pipeline decides what to wait for, which is how its
reaction to a call ends, no container is open in the builder unless a value is begun in the
lexer. -/
theorem lockstep_run (options : Options) (calls : List Call) :
    let run := (new ({ depthLimit := options.depthLimit } : Lexer) options).run calls
    (run.1.isTerminal = false →
        run.1.source.scanner.frames.map Frame.closing = run.1.builder.nests.map Nest.closing ∧
          run.1.builder.pending.isSome = Frame.isNamed run.1.source.scanner.frames) ∧
      (∀ cause place, .error (.malformed cause place) ∈ Event.signals run.2 →
        cause.Remains options.duplicates) ∧
      (run.1.isTerminal = false → ∀ c q, run.1.settlesAt c = some q →
        (∃ events, run.1.react c = andThen (q, events) settle) ∧
          (q.source.isMidValue = false → q.builder.depth = 0)) := by
  intro run
  have hinvariance := Lexer.invariance_inStep options.duplicates
  have hnew : Lexer.InStep options.duplicates { depthLimit := options.depthLimit }
      (Builder.new options) := ⟨trivial, rfl, rfl, trivial, rfl⟩
  have hkeeps := hinvariance.run (p := new ({ depthLimit := options.depthLimit } : Lexer) options)
    (fun _ => hnew) calls
  refine ⟨?_, ?_, ?_⟩
  · intro hrunning
    obtain ⟨-, hlockstep⟩ := hkeeps.1 hrunning
    exact ⟨hlockstep.kinds, hlockstep.pending⟩
  · intro cause place hmem
    exact hkeeps.2 _ hmem cause place rfl
  · intro hrunning c q hsettles
    refine ⟨react_of_settlesAt hrunning hsettles, fun hmid => ?_⟩
    obtain ⟨-, hlockstep⟩ := hinvariance.settlesAt (hkeeps.1 hrunning) hsettles
    have hframes : q.source.scanner.frames = [] := by
      rw [Scanner.eq_of_not_isMidValue hmid]
    rw [hlockstep.depth_eq, hframes]
    rfl

end Pipeline

end StreamingJson
