import StreamingJson.Proofs.Lexer.Chunks

/-!
# Scanning without places

The run of a scanner over bytes that hold no fault: the tokens it completes and the state it ends
in. Places and quotations play no part in it. It is given as a relation, so that it can be built up
along the grammar and taken apart along the bytes.

## Main definitions

- `Scanner.Reads` — a scanner reads bytes to tokens and ends in a state

## Main statements

- `Scanner.Reads.append` — runs can be put in a row
- `Scanner.reads_shift_iff`, `Scanner.reads_consume_iff`, `Scanner.reads_leave_iff` — runs can be
  taken apart at their first byte
- `Lexer.readBytes_of_reads`, `Lexer.reads_of_readBytes` — the runs are the readings of a lexer
  that meet no fault
-/

namespace StreamingJson

namespace Scanner

/-- A scanner reads bytes to the given tokens and ends in the given state. -/
inductive Reads (limit : Nat) : Scanner → List UInt8 → List Token → Scanner → Prop where
  | done (s : Scanner) : Reads limit s [] [] s
  | shift {s next last : Scanner} {b : UInt8} {rest : List UInt8} {tokens : List Token}
    (hstep : s.step limit [] b = .shift next) (hrest : Reads limit next rest tokens last) :
    Reads limit s (b :: rest) tokens last
  | consume {s next last : Scanner} {b : UInt8} {rest : List UInt8} {token : Token}
    {tokens : List Token} (hstep : s.step limit [] b = .consume (.ok token) next)
    (hrest : Reads limit next rest tokens last) :
    Reads limit s (b :: rest) (token :: tokens) last
  | leave {s next last : Scanner} {b : UInt8} {rest : List UInt8} {token : Token}
    {tokens : List Token} (hstep : s.step limit [] b = .leave (.ok token) next)
    (hrest : Reads limit next (b :: rest) tokens last) :
    Reads limit s (b :: rest) (token :: tokens) last

section

variable {limit : Nat} {s next last : Scanner} {b : UInt8} {rest : List UInt8}
  {tokens : List Token}

theorem Reads.append {mid : Scanner} {xs ys : List UInt8} {ts us : List Token}
    (h : Reads limit s xs ts mid) (h' : Reads limit mid ys us last) :
    Reads limit s (xs ++ ys) (ts ++ us) last := by
  induction h with
  | done s => exact h'
  | shift hstep _ ih => exact .shift hstep (ih h')
  | consume hstep _ ih => exact .consume hstep (ih h')
  | leave hstep _ ih => exact .leave hstep (ih h')

theorem reads_nil_iff : Reads limit s [] tokens last ↔ tokens = [] ∧ last = s := by
  constructor
  · rintro ⟨⟩
    exact ⟨rfl, rfl⟩
  · rintro ⟨rfl, rfl⟩
    exact .done _

theorem reads_shift_iff (hstep : s.step limit [] b = .shift next) :
    Reads limit s (b :: rest) tokens last ↔ Reads limit next rest tokens last := by
  refine ⟨fun h => ?_, .shift hstep⟩
  cases h with
  | shift hstep' hrest =>
    cases hstep.symm.trans hstep'
    exact hrest
  | consume hstep' hrest => cases hstep.symm.trans hstep'
  | leave hstep' hrest => cases hstep.symm.trans hstep'

theorem reads_consume_iff {token first : Token}
    (hstep : s.step limit [] b = .consume (.ok token) next) :
    Reads limit s (b :: rest) (first :: tokens) last ↔
      first = token ∧ Reads limit next rest tokens last := by
  constructor
  · intro h
    cases h with
    | shift hstep' hrest => cases hstep.symm.trans hstep'
    | consume hstep' hrest =>
      cases hstep.symm.trans hstep'
      exact ⟨rfl, hrest⟩
    | leave hstep' hrest => cases hstep.symm.trans hstep'
  · rintro ⟨rfl, hrest⟩
    exact .consume hstep hrest

theorem reads_leave_iff {token first : Token}
    (hstep : s.step limit [] b = .leave (.ok token) next) :
    Reads limit s (b :: rest) (first :: tokens) last ↔
      first = token ∧ Reads limit next (b :: rest) tokens last := by
  constructor
  · intro h
    cases h with
    | shift hstep' hrest => cases hstep.symm.trans hstep'
    | consume hstep' hrest => cases hstep.symm.trans hstep'
    | leave hstep' hrest =>
      cases hstep.symm.trans hstep'
      exact ⟨rfl, hrest⟩
  · rintro ⟨rfl, hrest⟩
    exact .leave hstep hrest

theorem not_reads_consume_fault {cause : LexicalError}
    (hstep : s.step limit [] b = .consume (.error cause) next) :
    ¬Reads limit s (b :: rest) tokens last := by
  intro h
  cases h with
  | shift hstep' hrest => cases hstep.symm.trans hstep'
  | consume hstep' hrest => cases hstep.symm.trans hstep'
  | leave hstep' hrest => cases hstep.symm.trans hstep'

theorem not_reads_leave_fault {cause : LexicalError}
    (hstep : s.step limit [] b = .leave (.error cause) next) :
    ¬Reads limit s (b :: rest) tokens last := by
  intro h
  cases h with
  | shift hstep' hrest => cases hstep.symm.trans hstep'
  | consume hstep' hrest => cases hstep.symm.trans hstep'
  | leave hstep' hrest => cases hstep.symm.trans hstep'

end

/-- A step that completes no fault does not depend on the bytes to be shown. -/
theorem step_shift_iff (limit : Nat) (shown : List UInt8) (s next : Scanner) (b : UInt8) :
    s.step limit shown b = .shift next ↔ s.step limit [] b = .shift next := by
  rw [step_quoting limit shown, Step.quoting_eq_shift]

theorem step_consume_iff (limit : Nat) (shown : List UInt8) (s next : Scanner) (b : UInt8)
    (token : Token) :
    s.step limit shown b = .consume (.ok token) next ↔
      s.step limit [] b = .consume (.ok token) next := by
  rw [step_quoting limit shown, Step.quoting_eq_consume]

theorem step_leave_iff (limit : Nat) (shown : List UInt8) (s next : Scanner) (b : UInt8)
    (token : Token) :
    s.step limit shown b = .leave (.ok token) next ↔
      s.step limit [] b = .leave (.ok token) next := by
  rw [step_quoting limit shown, Step.quoting_eq_leave]

end Scanner

namespace Lexer

theorem readBytes_of_reads {limit : Nat} {s last : Scanner} {bytes : List UInt8}
    {tokens : List Token} (h : Scanner.Reads limit s bytes tokens last) {l : Lexer}
    (hlimit : l.depthLimit = limit) (hs : l.scanner = s) :
    (l.readBytes bytes).tokens.map PlacedToken.token = tokens ∧
      ∃ l', (l.readBytes bytes).rest = .ok l' ∧ l'.scanner = last := by
  induction h generalizing l with
  | done s =>
    rw [readBytes_nil]
    exact ⟨rfl, _, rfl, hs⟩
  | @shift s next last b rest tokens hstep _ ih =>
    rw [← hlimit, ← hs, ← Scanner.step_shift_iff _ (Utf8.leading (b :: rest))] at hstep
    rw [readBytes_shift hstep]
    exact ih hlimit rfl
  | @consume s next last b rest token tokens hstep _ ih =>
    rw [← hlimit, ← hs, ← Scanner.step_consume_iff _ (Utf8.leading (b :: rest))] at hstep
    obtain ⟨htokens, hrest⟩ := ih (l := l.past b next) hlimit rfl
    rw [readBytes_consume_token hstep]
    exact ⟨congrArg (token :: ·) htokens, hrest⟩
  | @leave s next last b rest token tokens hstep _ ih =>
    rw [← hlimit, ← hs, ← Scanner.step_leave_iff _ (Utf8.leading (b :: rest))] at hstep
    obtain ⟨htokens, hrest⟩ := ih (l := l.withScanner next) hlimit rfl
    rw [readBytes_leave_token hstep]
    exact ⟨congrArg (token :: ·) htokens, hrest⟩

/-- A reading that meets no fault is a run of the scanner. -/
theorem reads_of_readBytes {l l' : Lexer} {bytes : List UInt8}
    (h : (l.readBytes bytes).rest = .ok l') :
    Scanner.Reads l.depthLimit l.scanner bytes
      ((l.readBytes bytes).tokens.map PlacedToken.token) l'.scanner := by
  fun_induction readBytes l bytes with
  | case1 l =>
    obtain rfl := Except.ok.inj h
    exact .done _
  | case2 l b rest next hstep ih => exact .shift ((Scanner.step_shift_iff ..).mp hstep) (ih h)
  | case3 l b rest token next hstep ih =>
    exact .consume ((Scanner.step_consume_iff ..).mp hstep) (ih h)
  | case4 l b rest cause next hstep => cases h
  | case5 l b rest token next hstep ih =>
    exact .leave ((Scanner.step_leave_iff ..).mp hstep) (ih h)
  | case6 l b rest cause next hstep => cases h

end Lexer

end StreamingJson
