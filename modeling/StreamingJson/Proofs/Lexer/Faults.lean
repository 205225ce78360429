import StreamingJson.Proofs.Lexer.Soundness

/-!
# What a fault leaves of a lexer

After most faults a lexer is what it was in front of the byte at fault, which stays unread: every
further call meets the same fault or is refused, until the lexer is renewed. An integer out of range
and a string that is no UTF-8 are dropped instead, and the lexer stands behind them as it stood in
front of them. If the last digit of a code unit shows that a surrogate has no partner, the escape is
skipped and the string goes on.

## Main definitions

- `Lexer.refusal` — what is seen of a lexer that stays at a fault
- `Lexer.FaultsAtDigit` — the fault is met with the last digit of a code unit
- `LostLiteral` — the literals that are dropped with a fault

## Main statements

- `Lexer.exists_faulting` — what is read up to a fault, and the byte that meets it
- `Lexer.observe_of_refused` — a byte that is refused is refused ever after
- `Lexer.fault_leaves` — what a fault leaves of a lexer, however that was used
-/

namespace StreamingJson

/-- The literals that are dropped with a fault, where the given containers are open. -/
inductive LostLiteral : LexicalError → List Frame → List UInt8 → Prop where
  /-- A complete number whose value is out of range, where a value may stand. -/
  | number {phase : NumberPhase} {frames : List Frame} {literal : List UInt8} {cause : LexicalError}
    (place : AwaitsValue frames) (h : phase.Reached literal) (complete : phase.isComplete = true)
    (hcause : Numeral.token phase.isInteger literal = .error cause) :
    LostLiteral cause frames literal
  /-- A string between its quotes, where a value or a name may stand. -/
  | text {frames : List Frame} {bytes body : List UInt8} (place : AwaitsText frames)
    (h : Gathered bytes none body) :
    LostLiteral .invalidUtf8 frames (Ascii.quote :: (body ++ [Ascii.quote]))

namespace Lexer

variable {l l' : Lexer} {fault : LexicalFault} {taken rest : List UInt8} {b : UInt8}
  {last next : Scanner} {result : Except LexicalError Token}

/-! ### The byte that meets a fault -/

theorem next_of_leave (hunread : l.unread = taken ++ b :: rest)
    (h : Scanner.Reads l.depthLimit l.scanner taken [] last)
    (hstep : last.step l.depthLimit (Utf8.leading (b :: rest)) b = .leave result next) :
    l.next = ((l.moved taken next).loaded (b :: rest)).handBack result := by
  rw [Lexer.next, hunread, scan_of_reads h]
  exact scan_leave (l := l.moved taken last) hstep

theorem next_of_consume (hunread : l.unread = taken ++ b :: rest)
    (h : Scanner.Reads l.depthLimit l.scanner taken [] last)
    (hstep : last.step l.depthLimit (Utf8.leading (b :: rest)) b = .consume result next) :
    l.next = ((l.moved (taken ++ [b]) next).loaded rest).handBack result := by
  have hmoved : (l.moved (taken ++ [b]) next).loaded rest =
      ((l.moved taken last).past b next).loaded rest := by
    rw [moved, Location.pastAll_concat]
    rfl
  rw [Lexer.next, hunread, scan_of_reads h, hmoved]
  exact scan_consume (l := l.moved taken last) hstep

/-- What is read up to the byte that meets a fault. -/
theorem exists_faulting (h : l.next = (.error fault, l')) :
    ∃ taken b rest last, l.unread = taken ++ b :: rest ∧
      Scanner.Reads l.depthLimit l.scanner taken [] last ∧
        (last.step l.depthLimit (Utf8.leading (b :: rest)) b).cause? = some fault.cause := by
  rw [Lexer.next] at h
  generalize l.unread = bytes at h
  induction bytes generalizing l with
  | nil =>
    rw [scan] at h
    cases h
  | cons b rest ih =>
    cases hstep : l.scanner.step l.depthLimit (Utf8.leading (b :: rest)) b with
    | shift next =>
      rw [scan_shift hstep] at h
      obtain ⟨taken, c, left, last, hrest, hreads, hcause⟩ := ih (l := l.past b next) h
      refine ⟨b :: taken, c, left, last, congrArg (b :: ·) hrest, ?_, hcause⟩
      exact .shift ((Scanner.step_shift_iff ..).mp hstep) hreads
    | consume result next =>
      rw [scan_consume hstep] at h
      cases result with
      | ok token => cases h
      | error cause =>
        cases h
        exact ⟨[], b, rest, l.scanner, rfl, .done _, by rw [hstep]; rfl⟩
    | leave result next =>
      rw [scan_leave hstep] at h
      cases result with
      | ok token => cases h
      | error cause =>
        cases h
        exact ⟨[], b, rest, l.scanner, rfl, .done _, by rw [hstep]; rfl⟩

/-! ### Refused bytes -/

/-- What is seen of a lexer that stays at a fault, whatever the call. -/
def refusal (l : Lexer) (fault : LexicalFault) (call : Call) : Observation :=
  { answer := match call with
      | .feed _ => .refused ⟨l.unread.length⟩
      | .next => .fault fault
    needsInput := false
    isMidValue := l.isMidValue
    depth := l.depth
    location := l.location }

theorem respond_of_refused (hunread : l.unread = b :: rest)
    (hstep : l.scanner.step l.depthLimit (Utf8.leading (b :: rest)) b =
      .leave (.error fault.cause) l.scanner)
    (hplace : fault.location = l.location) (call : Call) :
    l.respond feed call = ((l.refusal fault call).answer, l) := by
  cases call with
  | feed chunk =>
    rw [respond, feed_of_ne_nil (hunread ▸ List.cons_ne_nil b rest)]
    rfl
  | next =>
    have hsame : (l.moved [] l.scanner).loaded (b :: rest) = l := by
      rw [← hunread]
      rfl
    have hread : l.unread = [] ++ b :: rest := hunread
    have hnext := next_of_leave hread (.done _) hstep
    rw [hsame, handBack, ← hplace] at hnext
    rw [respond, hnext]
    rfl

/-- A byte that is refused and changes nothing is refused ever after. -/
theorem observe_of_refused (hunread : l.unread = b :: rest)
    (hstep : l.scanner.step l.depthLimit (Utf8.leading (b :: rest)) b =
      .leave (.error fault.cause) l.scanner)
    (hplace : fault.location = l.location) (calls : List Call) :
    l.observe feed calls = calls.map (l.refusal fault) := by
  induction calls with
  | nil => rfl
  | cons call calls ih =>
    rw [observe, respond_of_refused hunread hstep hplace, List.map_cons, ih, observation,
      needsInput, hunread]
    rfl

/-! ### Histories -/

/-- The scanner reads a fault with the fourth digit of a code unit. -/
def FaultsAtDigit (l : Lexer) : Prop :=
  ∃ taken digit rest last next cause bytes high value,
    l.unread = taken ++ digit :: rest ∧ Scanner.Reads l.depthLimit l.scanner taken [] last ∧
      last.lexeme = .codeUnit bytes high value 3 ∧
        last.step l.depthLimit (Utf8.leading (digit :: rest)) digit = .consume (.error cause) next

theorem proceeds_of_reads {limit : Nat} {s last : Scanner} {bytes : List UInt8}
    (h : Scanner.Reads limit s bytes [] last) (rest : List UInt8) :
    Scanner.Proceeds limit (s, bytes ++ rest) (last, rest) := by
  generalize hnone : ([] : List Token) = tokens at h
  induction h with
  | done s => exact .refl
  | shift hstep _ ih => exact .head (.shift hstep) (ih hnone)
  | consume | leave => cases hnone

/-- What is in front of the byte that meets a fault is sound and keeps what is read in part. -/
theorem InText.exists_part {text : List UInt8} (h : l.InText text)
    (hunread : l.unread = taken ++ b :: rest)
    (hreads : Scanner.Reads l.depthLimit l.scanner taken [] last) :
    last.Sound l.depthLimit ∧ ∃ part, last.PartOf l.depthLimit text (b :: rest) part := by
  have hproceeds : Scanner.Proceeds l.depthLimit ({}, text) (last, b :: rest) := by
    rw [InText, hunread] at h
    exact h.trans (proceeds_of_reads hreads (b :: rest))
  exact ⟨Scanner.sound_of_proceeds hproceeds, Scanner.exists_part hproceeds⟩

/-- The lexer is what it was in front of the byte at fault, and every further call fails. -/
def StaysAtFault (l : Lexer) (fault : LexicalFault) (l' : Lexer) : Prop :=
  (∃ taken b rest last, l.unread = taken ++ b :: rest ∧
      Scanner.Reads l.depthLimit l.scanner taken [] last ∧
        l' = (l.moved taken last).loaded (b :: rest)) ∧
    ∀ calls, l'.observe feed calls = calls.map (l'.refusal fault)

/-- The lexer stands behind a literal of the text as it stood in front of it. -/
def DropsLiteral (text : List UInt8) (fault : LexicalFault) (l' : Lexer) : Prop :=
  l'.scanner.lexeme = .between ∧ ∃ literal, LostLiteral fault.cause l'.scanner.frames literal ∧
    Scanner.Began l'.depthLimit text l'.scanner.frames l'.unread literal

/-- The lexer stands in a string behind an escape of which nothing is kept, and the string goes on
where a value or a name may stand. -/
def SkipsEscape (text : List UInt8) (fault : LexicalFault) (l' : Lexer) : Prop :=
  ∃ bytes body escape high unit, l'.scanner.lexeme = .text bytes none ∧
    AwaitsText l'.scanner.frames ∧ Gathered bytes.toList high body ∧ UnitText unit escape ∧
      fault.cause = .unpairedSurrogate (high.getD unit) ∧
        Scanner.Began l'.depthLimit text l'.scanner.frames l'.unread
          (Ascii.quote :: (body ++ escape))

/-- A fault that does not drop a literal is met with the last digit of a code unit or leaves
everything as it was. -/
theorem staysAtFault {text : List UInt8} (hl : l.InText text) (h : l.next = (.error fault, l'))
    (hkeeps : fault.cause.losesLiteral = false) (hdigit : ¬l.FaultsAtDigit) :
    l.StaysAtFault fault l' := by
  obtain ⟨taken, b, rest, last, hunread, hreads, hcause⟩ := exists_faulting h
  obtain ⟨-, part, hpart⟩ := hl.exists_part hunread hreads
  have hfaults := last.faults_step l.depthLimit (Utf8.leading (b :: rest)) b _ hcause
  generalize hstep : last.step l.depthLimit (Utf8.leading (b :: rest)) b = step at hfaults
  generalize hgiven : fault.cause = cause at hfaults hkeeps
  cases hfaults with
  | refused =>
    rw [next_of_leave hunread hreads hstep] at h
    cases h
    exact ⟨⟨taken, b, rest, last, hunread, hreads, rfl⟩, observe_of_refused rfl hstep rfl⟩
  | number _ _ _ _ loses => exact absurd (hkeeps.symm.trans loses) Bool.false_ne_true
  | text => cases hkeeps
  | @unit bytes high value count digit hs hcount =>
    -- no more than three digits are held
    have hheld := hpart.keeps
    rw [hs] at hheld
    obtain ⟨_, _, _, _, _, _, hfour⟩ := hheld
    obtain rfl : count = 3 := by omega
    exact absurd ⟨taken, b, rest, last, _, _, bytes, high, value, hunread, hreads, hs, hstep⟩ hdigit

/-- A fault with a literal that is lost leaves the lexer as it was in front of the literal. -/
theorem dropsLiteral {text : List UInt8} (hl : l.InText text) (h : l.next = (.error fault, l'))
    (hloses : fault.cause.losesLiteral = true) : l'.DropsLiteral text fault := by
  obtain ⟨taken, b, rest, last, hunread, hreads, hcause⟩ := exists_faulting h
  obtain ⟨hsound, part, hpart⟩ := hl.exists_part hunread hreads
  have hfaults := last.faults_step l.depthLimit (Utf8.leading (b :: rest)) b _ hcause
  have hplaced := hsound.placed
  have hheld := hpart.keeps
  generalize hstep : last.step l.depthLimit (Utf8.leading (b :: rest)) b = step at hfaults
  generalize hgiven : fault.cause = cause at hfaults hloses
  cases hfaults with
  | refused hkeeps => exact absurd (hkeeps.symm.trans hloses) Bool.false_ne_true
  | number hs ended complete htoken =>
    rw [next_of_leave hunread hreads hstep] at h
    cases h
    rw [Scanner.Placed, hs] at hplaced
    rw [hs] at hheld
    obtain ⟨rfl, hreached, -⟩ := hheld
    exact ⟨rfl, _, .number hplaced hreached complete htoken, hpart.began⟩
  | text hs hb =>
    rw [next_of_consume hunread hreads hstep] at h
    cases h
    rw [Scanner.Placed, hs] at hplaced
    rw [hs] at hheld
    obtain ⟨body, rfl, hbody⟩ := hheld
    subst hb
    exact ⟨rfl, _, .text hplaced hbody, hpart.began.concat⟩
  | unit => cases hloses

/-- A fault with the last digit of a code unit leaves the lexer in the same string, behind the
escape. -/
theorem skipsEscape {text : List UInt8} (hl : l.InText text) (h : l.next = (.error fault, l'))
    (hdigit : l.FaultsAtDigit) : l'.SkipsEscape text fault := by
  obtain ⟨taken, b, rest, last, next, cause, bytes, high, value, hunread, hreads, hs, hstep⟩ :=
    hdigit
  obtain ⟨hsound, part, hpart⟩ := hl.exists_part hunread hreads
  have hfaults := last.faults_step l.depthLimit (Utf8.leading (b :: rest)) b cause
    (by rw [hstep]; rfl)
  have hplaced := hsound.placed
  have hheld := hpart.keeps
  rw [Scanner.Placed, hs] at hplaced
  rw [hs] at hheld
  obtain ⟨body, digits, rfl, hbody, hdigits, hlength, -⟩ := hheld
  rw [next_of_consume hunread hreads hstep] at h
  cases h
  rw [hstep] at hfaults
  cases hfaults with
  | text hs' => cases hs.symm.trans hs'
  | @unit _ _ _ _ x hs' _ hx =>
    cases hs.symm.trans hs'
    have hunit := (hdigits.digit hx).unitDigits (by rw [List.length_append, hlength]; rfl)
    have hbegan := hpart.began.concat
    rw [List.cons_append, List.append_assoc, List.cons_append, List.cons_append] at hbegan
    exact ⟨bytes, body, _, high, _, rfl, hplaced, hbody, ⟨_, hunit, rfl⟩, rfl, hbegan⟩

/-- What a fault leaves of a lexer, however that was called and renewed before. -/
theorem fault_leaves (limit : Nat) (uses : List Use) {fault : LexicalFault} {l' : Lexer}
    (h : (({ depthLimit := limit } : Lexer).afterUses uses).next = (.error fault, l')) :
    let new : Lexer := { depthLimit := limit }
    let l := new.afterUses uses
    let text := (new.takenChunks feed (latest uses)).flatten
    (fault.cause.losesLiteral = false → ¬l.FaultsAtDigit → l.StaysAtFault fault l') ∧
      (fault.cause.losesLiteral = true → l'.DropsLiteral text fault) ∧
      (l.FaultsAtDigit → l'.SkipsEscape text fault) := by
  intro new l text
  have hl : l.InText text := by
    have hinText := (inText_fresh new).after (latest uses)
    rw [List.nil_append] at hinText
    rw [show l = new.after feed (latest uses) from afterUses_eq limit uses]
    exact hinText
  exact ⟨staysAtFault hl h, dropsLiteral hl h, skipsEscape hl h⟩

/-- In an array a letter that begins no value stays unread, a string that is no UTF-8 is lost, and
the last digit of a low surrogate is read. -/
theorem fault_leaves_in_array :
    let l := ({ depthLimit := 2 } : Lexer).afterUses [.call (.feed [0x5B, 0x78]), .call .next]
    let k := ({ depthLimit := 2 } : Lexer).afterUses
      [.call (.feed [0x5B, 0x22, 0xFF, 0x22]), .call .next]
    let m := ({ depthLimit := 2 } : Lexer).afterUses
      [.call (.feed [0x5B, 0x22, 0x5C, 0x75, 0x64, 0x63, 0x30, 0x30]), .call .next]
    l.StaysAtFault ⟨.invalidCharacter [0x78], ⟨1, 2⟩⟩ l ∧
      k.next.2.DropsLiteral [0x5B, 0x22, 0xFF, 0x22] ⟨.invalidUtf8, ⟨1, 5⟩⟩ ∧
      m.next.2.SkipsEscape [0x5B, 0x22, 0x5C, 0x75, 0x64, 0x63, 0x30, 0x30]
        ⟨.unpairedSurrogate 0xDC00, ⟨1, 9⟩⟩ := by
  intro l k m
  have hl : l.next = (.error ⟨.invalidCharacter [0x78], ⟨1, 2⟩⟩, l) := by decide +kernel
  have hk : k.next = (.error ⟨.invalidUtf8, ⟨1, 5⟩⟩, k.next.2) := by decide +kernel
  have hm : m.next = (.error ⟨.unpairedSurrogate 0xDC00, ⟨1, 9⟩⟩, m.next.2) := by decide +kernel
  have hdigit : m.FaultsAtDigit := by
    have hunread : m.unread = [0x22, 0x5C, 0x75, 0x64, 0x63, 0x30] ++ [0x30] := by decide +kernel
    have hscanner : m.scanner = ⟨[.array .first], .between⟩ := by decide +kernel
    refine ⟨_, 0x30, [], ⟨[.array .first], .codeUnit #[] none 0xDC0 3⟩,
      ⟨[.array .first], .text #[] none⟩, .unpairedSurrogate 0xDC00, #[], none, 0xDC0, hunread, ?_,
      rfl, rfl⟩
    rw [hscanner]
    exact .shift rfl (.shift rfl (.shift rfl (.shift rfl (.shift rfl (.shift rfl (.done _))))))
  obtain ⟨hstays, -, hskips⟩ := fault_leaves 2 _ hl
  refine ⟨hstays rfl fun hl' => ?_, (fault_leaves 2 _ hk).2.1 rfl,
    (fault_leaves 2 _ hm).2.2 hdigit⟩
  obtain ⟨bytes, -, -, -, -, hlexeme, -⟩ := hskips hl'
  have hbetween : l.scanner.lexeme = .between := by decide +kernel
  cases hbetween.symm.trans hlexeme

end Lexer

end StreamingJson
