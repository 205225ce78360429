import StreamingJson.Proofs.Builder.Contents
import StreamingJson.Proofs.Builder.Rejecting
import StreamingJson.Proofs.Concatenation
import StreamingJson.Proofs.ErrorPlaces
import StreamingJson.Proofs.Grammar.Values

/-!
# The limit on open containers

With a limit a text has the same result as with any larger one, unless it opens a container while as
many are open as are allowed. Then the result is that error, at the bracket that opens it. What is
parsed nests as far as is allowed at most.

## Main definitions

- `Yield.Bounded` — what chunks yield with a limit and with room for more
- `OpensBeyond` — a text behind which a bracket opens a container while a given number are open

## Main statements

- `Yield.bounded_ofChunks` — what chunks yield with the two limits
- `Yield.exceeds_ofReading` — a text that opens too many containers is refused
- `Pipeline.exists_opensBeyond` — a text that is refused opens too many, and where
- `Yield.nesting_le_of_mem_ofChunks` — how far values nest
- `parse_depthLimit` — the limit is exact and changes nothing else
-/

namespace StreamingJson

namespace Lexer

/-- Where no value is begun the scanner is that of a new lexer. -/
theorem scanner_renewed (l : Lexer) : l.renewed.scanner = l.scanner := by
  rw [renewed]
  split
  · rfl
  next hmid => exact (Scanner.eq_of_not_isMidValue (Bool.eq_false_iff.mpr hmid)).symm

theorem renewed_allowing (l : Lexer) (room : Nat) :
    (l.allowing room).renewed = l.renewed.allowing room := by
  have hmid : (l.allowing room).isMidValue = l.isMidValue := rfl
  rw [renewed, renewed, hmid]
  split <;> rfl

end Lexer

namespace Yield

/-! ## Two limits -/

/-- What chunks yield with a limit, and what they yield with room for more. -/
inductive Bounded (limit room : Nat) : Yield Lexer → Yield Lexer → Prop where
  | failed {values : List Value} {cause : Error} :
    Bounded limit room ⟨values, .failed cause⟩ ⟨values, .failed cause⟩
  | closed {values : List Value} : Bounded limit room ⟨values, .closed⟩ ⟨values, .closed⟩
  | dry {values : List Value} {l : Lexer} {b : Builder} (keeps : l.depthLimit = limit)
    (within : l.scanner.frames.length ≤ limit) :
    Bounded limit room ⟨values, .dry l b⟩ ⟨values, .dry (l.allowing room) b⟩
  /-- A container would be one too many. -/
  | exceeded {values : List Value} {place : Location} {y : Yield Lexer} :
    Bounded limit room ⟨values, .failed (.lexical ⟨.depthLimitExceeded limit, place⟩)⟩ y

variable {limit room : Nat} {y y' : Yield Lexer}

theorem Bounded.prepend (h : Bounded limit room y y') (before : List Value) :
    Bounded limit room (y.prepend before) (y'.prepend before) := by
  cases h with
  | failed => exact .failed
  | closed => exact .closed
  | dry keeps within => exact .dry keeps within
  | exceeded => exact .exceeded

theorem bounded_ofReading {l : Lexer} {bytes : List UInt8} {r r' : Reading Lexer} (b : Builder)
    (h : l.Bounded room bytes r r')
    (hrest : ∀ l', r.rest = .ok l' →
      l'.depthLimit = l.depthLimit ∧ l'.scanner.frames.length ≤ l.depthLimit) :
    Bounded l.depthLimit room (ofReading b r) (ofReading b r') := by
  cases h with
  | within faults =>
    obtain ⟨ts, rest⟩ := r
    rw [ofReading, ofReading]
    cases (b.pushAll ts).2 with
    | closed => exact .closed
    | refused cause place => exact .failed
    | building b' =>
      cases rest with
      | error fault => exact .failed
      | ok l' => exact .dry (hrest l' rfl).1 (hrest l' rfl).2
  | @exceeded ts _ _ _ _ _ _ _ _ _ _ _ before =>
    obtain ⟨more, htokens⟩ := before
    rw [ofReading, ofReading, ← htokens, Builder.pushAll_append]
    dsimp only
    cases (b.pushAll ts).2 with
    | building b' => exact .exceeded
    | closed =>
      rw [Builder.Outcome.followedBy, List.append_nil]
      exact .closed
    | refused cause place =>
      rw [Builder.Outcome.followedBy, List.append_nil]
      exact .failed

theorem Bounded.feed (hroom : limit < room) (h : Bounded limit room y y') (chunk : List UInt8) :
    Bounded limit room (y.feed chunk) (y'.feed chunk) := by
  cases h with
  | failed => exact .failed
  | closed => exact .closed
  | exceeded => exact .exceeded
  | @dry values l b keeps within =>
    subst keeps
    have hkeeps : l.renewed.depthLimit = l.depthLimit := l.depthLimit_renewed
    have hwithin : l.renewed.scanner.frames.length ≤ l.renewed.depthLimit := by
      rw [hkeeps, l.scanner_renewed]
      exact within
    have hbounded := bounded_ofReading b
      (l.renewed.bounded_readBytes chunk hwithin (hkeeps.symm ▸ hroom)) fun l' hl' =>
        ⟨Lexer.depthLimit_of_readBytes hl', (Lexer.reads_of_readBytes hl').length_frames_le hwithin⟩
    rw [hkeeps] at hbounded
    rw [Yield.feed, Yield.feed]
    dsimp only
    rw [Lexer.renewed_allowing, Lexer.yield_loaded, Lexer.yield_loaded]
    exact hbounded.prepend values

/-- What chunks yield with a limit, and what they yield with room for more. -/
theorem bounded_ofChunks (options : Options) {room : Nat} (hroom : options.depthLimit < room)
    (chunks : List (List UInt8)) :
    Bounded options.depthLimit room (ofChunks options chunks)
      (ofChunks { options with depthLimit := room } chunks) := by
  have hfoldl {y y' : Yield Lexer} (h : Bounded options.depthLimit room y y') :
      Bounded options.depthLimit room (chunks.foldl Yield.feed y) (chunks.foldl Yield.feed y') := by
    induction chunks generalizing y y' with
    | nil => exact h
    | cons chunk chunks ih => exact ih (h.feed hroom chunk)
  exact hfoldl (.dry rfl (Nat.zero_le _))

/-- The results are the same unless a container would be one too many. -/
theorem Bounded.outcome_eq (h : Bounded limit room y y') :
    y'.outcome = y.outcome ∨
      ∃ place, y.outcome = .error (.lexical ⟨.depthLimitExceeded limit, place⟩) := by
  cases h with
  | failed | closed | dry => exact .inl rfl
  | exceeded => exact .inr ⟨_, rfl⟩

end Yield

/-! ## One container too many -/

/-- Behind the text `read` the byte opens a container while `depth` are open. Where there is room
for it, text and byte are read without a fault, and a builder takes the tokens of the text and is
not at the end of a streamed root array. -/
def OpensBeyond (options : Options) (depth : Nat) (read : List UInt8) (bracket : UInt8) : Prop :=
  ∃ tokens opening last values b,
    Scanner.Reads (depth + 1) {} (read ++ [bracket]) (tokens ++ [opening]) last ∧
      Opening bracket opening ∧ (Builder.new options).Takes tokens values b ∧
      (tokens.foldl Token.closingAfter []).length = depth

section

variable {options : Options} {limit : Nat} {read after : List UInt8} {bracket : UInt8}

/-- Tokens that keep to the limit do not open a container while as many are open. -/
theorem not_isPrefix_of_staysWithin {tokens given : List Token} {opening : Token}
    (hopening : Opening bracket opening)
    (hdepth : (tokens.foldl Token.closingAfter []).length = limit)
    (hwithin : Token.StaysWithin limit [] given) : ¬tokens ++ [opening] <+: given := by
  rintro ⟨more, rfl⟩
  have hlength := hwithin.of_append
  rw [List.foldl_append, List.foldl_cons, List.foldl_nil, hopening.length_closingAfter] at hlength
  omega

/-- Such a text is not read to behind the bracket with the limit. -/
theorem OpensBeyond.fault (h : OpensBeyond options limit read bracket) :
    ∀ l, (Lexer.readBytes { depthLimit := limit } (read ++ [bracket])).rest ≠ .ok l := by
  intro l hrest
  obtain ⟨tokens, opening, last, values, b, hreads, hopening, -, hdepth⟩ := h
  have hwithin := Lexer.staysWithin_readBytes { depthLimit := limit } (Nat.zero_le _)
    (read ++ [bracket])
  have hwhole := (Lexer.reads_of_readBytes hrest).widen (Nat.lt_succ_self limit)
  -- both runs with the wider limit give the same tokens
  have hsame := (Lexer.readBytes_of_reads hwhole (l := { depthLimit := limit + 1 }) rfl rfl).1
  rw [(Lexer.readBytes_of_reads hreads (l := { depthLimit := limit + 1 }) rfl rfl).1] at hsame
  exact not_isPrefix_of_staysWithin hopening hdepth hwithin (hsame ▸ List.prefix_refl _)

/-- A text that is read with the limit does not go to behind the bracket. -/
theorem OpensBeyond.not_isPrefix (h : OpensBeyond options limit read bracket) {text : List UInt8}
    {tokens : List Token} {last : Scanner} (hreads : Scanner.Reads limit {} text tokens last) :
    ¬read ++ [bracket] <+: text := by
  rintro ⟨more, rfl⟩
  obtain ⟨-, l, hwhole, -⟩ :=
    Lexer.readBytes_of_reads hreads (l := { depthLimit := limit }) rfl rfl
  cases hrest : (Lexer.readBytes { depthLimit := limit } (read ++ [bracket])).rest with
  | ok l' => exact h.fault l' hrest
  | error fault =>
    obtain ⟨fault', happend, -⟩ := Lexer.readBytes_append_of_fault more hrest
    rw [happend] at hwhole
    cases hwhole

/-- The bracket may stand in a further piece of a text that is read with the limit so far. -/
theorem OpensBeyond.of_piece {text : List UInt8} {before tokens : List Token} {opening : Token}
    {s last : Scanner} {values later : List Value} {b b' : Builder}
    (hbefore : Scanner.Reads limit {} text before s)
    (htakes : (Builder.new options).Takes before values b)
    (hreads : Scanner.Reads (limit + 1) s (read ++ [bracket]) (tokens ++ [opening]) last)
    (hopening : Opening bracket opening) (htaken : b.Takes tokens later b')
    (hdepth : ((before ++ tokens).foldl Token.closingAfter []).length = limit) :
    OpensBeyond options limit (text ++ read) bracket := by
  have hreached := (hbefore.widen (Nat.lt_succ_self limit)).append hreads
  rw [← List.append_assoc, ← List.append_assoc] at hreached
  exact ⟨_, opening, last, _, b', hreached, hopening, htakes.append htaken, hdepth⟩

/-- A text that opens a container beyond the limit is refused for that. -/
theorem Yield.exceeds_ofReading (h : OpensBeyond options limit read bracket) :
    ∃ place, (ofReading (Builder.new options)
      (Lexer.readBytes { depthLimit := limit } (read ++ bracket :: after))).ending =
        .failed (.lexical ⟨.depthLimitExceeded limit, place⟩) := by
  obtain ⟨tokens, opening, last, values, b, hreads, hopening, htakes, hdepth⟩ := h
  have hwithin := Lexer.staysWithin_readBytes { depthLimit := limit } (Nat.zero_le _)
    (read ++ bracket :: after)
  have hbounded := Lexer.bounded_readBytes { depthLimit := limit } (read ++ bracket :: after)
    (Nat.zero_le _) (Nat.lt_succ_self limit)
  -- with room for more the tokens up to the bracket come first
  have hwide : tokens ++ [opening] <+: (Lexer.readBytes { depthLimit := limit + 1 }
      (read ++ bracket :: after)).tokens.map PlacedToken.token := by
    obtain ⟨htokens, l, hrest, -⟩ :=
      Lexer.readBytes_of_reads hreads (l := { depthLimit := limit + 1 }) rfl rfl
    have hsplit : read ++ bracket :: after = (read ++ [bracket]) ++ after := by simp
    rw [hsplit, Lexer.readBytes_append_of_ok after hrest, Reading.tokens_prepend, List.map_append,
      htokens]
    exact List.prefix_append _ _
  generalize Lexer.readBytes { depthLimit := limit } (read ++ bracket :: after) = r at *
  have hallowing : Lexer.allowing { depthLimit := limit } (limit + 1) =
      { depthLimit := limit + 1 } := rfl
  rw [hallowing] at hbounded
  generalize Lexer.readBytes { depthLimit := limit + 1 } (read ++ bracket :: after) = r' at *
  cases hbounded with
  | within faults => exact absurd hwide (not_isPrefix_of_staysWithin hopening hdepth hwithin)
  | @exceeded ts _ first _ _ _ _ _ _ _ _ _ before =>
    have hbefore : ts.map PlacedToken.token <+: r'.tokens.map PlacedToken.token := before.map _
    have hshorter : ts.map PlacedToken.token <+: tokens ++ [opening] :=
      (List.prefix_or_prefix_of_prefix hbefore hwide).resolve_right
        (not_isPrefix_of_staysWithin hopening hdepth hwithin)
    have htokens : ts.map PlacedToken.token <+: tokens := by
      rcases List.prefix_concat_iff.mp hshorter with hsame | hproper
      · exact absurd (hsame ▸ List.prefix_refl _)
          (not_isPrefix_of_staysWithin hopening hdepth hwithin)
      · exact hproper
    obtain ⟨more, rfl⟩ := htokens
    obtain ⟨vs, -, mid, htaken, -⟩ := htakes.exists_mid
    refine ⟨Location.pastAll Location.start first, ?_⟩
    rw [ofReading, Builder.pushAll_of_takes htaken]
    rfl

end

namespace Yield

variable {options : Options} {chunks fed : List (List UInt8)} {l : Lexer} {b : Builder}

/-- While what chunks yield may go on, they are read without a fault and all tokens are taken. -/
theorem reads_of_dry (h : (ofChunks options fed).ending = .dry l b) :
    ∃ tokens values, Scanner.Reads options.depthLimit {} fed.flatten tokens l.scanner ∧
      (Builder.new options).Takes tokens values b ∧ l.depthLimit = options.depthLimit := by
  have hwhole : (ofChunks options fed).ending.unplaced = (ofReading (Builder.new options)
      (Lexer.readBytes { depthLimit := options.depthLimit } fed.flatten)).ending.unplaced :=
    congrArg Yield.ending (unplaced_foldl_feed rfl (Builder.new options) fed)
  rw [h, ofReading] at hwhole
  rcases hpush : (Builder.new options).pushAll
    (Lexer.readBytes { depthLimit := options.depthLimit } fed.flatten).tokens with ⟨values, outcome⟩
  rw [hpush] at hwhole
  cases outcome with
  | closed => cases hwhole
  | refused cause place => cases hwhole
  | building b' =>
    cases hrest : (Lexer.readBytes { depthLimit := options.depthLimit } fed.flatten).rest with
    | error fault =>
      rw [hrest] at hwhole
      cases hwhole
    | ok l' =>
      rw [hrest] at hwhole
      obtain ⟨hl, rfl⟩ := Ending.dry.inj hwhole
      have hscanner : l.unplaced.scanner = l'.unplaced.scanner := congrArg Lexer.scanner hl
      have hlimit : l.unplaced.depthLimit = l'.unplaced.depthLimit := congrArg Lexer.depthLimit hl
      have hreads := Lexer.reads_of_readBytes hrest
      rw [show l'.scanner = l.scanner from hscanner.symm] at hreads
      exact ⟨_, values, hreads, Builder.takes_of_pushAll hpush,
        hlimit.trans (Lexer.depthLimit_of_readBytes hrest)⟩

theorem outcome_lexical_iff {y : Yield Lexer} {fault : LexicalFault} :
    y.outcome = .error (.lexical fault) ↔ y.ending = .failed (.lexical fault) := by
  unfold outcome
  cases y.ending with
  | failed error => simp
  | closed => simp
  | dry l b =>
    dsimp only
    split <;> simp

theorem exceeds_of_unplaced {y z : Yield Lexer} (h : y.unplaced = z.unplaced) {limit : Nat}
    (hy : ∃ place, y.ending = .failed (.lexical ⟨.depthLimitExceeded limit, place⟩)) :
    ∃ place, z.ending = .failed (.lexical ⟨.depthLimitExceeded limit, place⟩) := by
  obtain ⟨place, hending⟩ := hy
  have hsame : y.ending.unplaced = z.ending.unplaced := congrArg Yield.ending h
  rw [hending] at hsame
  cases hz : z.ending with
  | closed =>
    rw [hz] at hsame
    cases hsame
  | dry l b =>
    rw [hz] at hsame
    cases hsame
  | failed error =>
    rw [hz] at hsame
    cases error with
    | lexical fault =>
      obtain ⟨cause, place'⟩ := fault
      have hcause := congrArg LexicalFault.cause (Error.lexical.inj (Ending.failed.inj hsame))
      cases cause with
      | depthLimitExceeded other =>
        obtain rfl : limit = other := LexicalError.depthLimitExceeded.inj hcause
        exact ⟨place', rfl⟩
      | _ => cases hcause
    | malformed cause place' => cases hsame
    | truncated location => cases hsame
    | supplier message => cases hsame
    | protocol violation => cases hsame

/-- A fault in chunks is found in one of them, when all tokens before it are taken. -/
theorem exists_faulting_chunk {fault : LexicalFault}
    (h : (ofChunks options chunks).ending = .failed (.lexical fault)) :
    ∃ fed chunk unfed l b b', chunks = fed ++ [chunk] ++ unfed ∧
      (ofChunks options fed).ending = .dry l b ∧
      (l.renewed.readBytes chunk).rest = .error fault ∧
      (b.pushAll (l.renewed.readBytes chunk).tokens).2 = .building b' := by
  induction chunks using List.reverseRecOn with
  | nil => cases h
  | append_singleton fed chunk ih =>
    rw [ofChunks_append, List.foldl_cons, List.foldl_nil] at h
    cases hfed : (ofChunks options fed).ending with
    | failed cause =>
      rw [Yield.feed, hfed] at h
      obtain ⟨fed', last, unfed, l, b, b', hsplit, hrest⟩ := ih h
      exact ⟨fed', last, unfed ++ [chunk], l, b, b', by rw [hsplit, List.append_assoc], hrest⟩
    | closed =>
      rw [Yield.feed, hfed, hfed] at h
      cases h
    | dry l b =>
      rw [Yield.feed, hfed] at h
      have hending :
          (ofReading b (l.renewed.readBytes chunk)).ending = .failed (.lexical fault) := by
        rw [← Lexer.yield_loaded]
        exact h
      rw [ofReading] at hending
      cases houtcome : (b.pushAll (l.renewed.readBytes chunk).tokens).2 with
      | closed =>
        rw [houtcome] at hending
        cases hending
      | refused cause place =>
        rw [houtcome] at hending
        cases hending
      | building b' =>
        rw [houtcome] at hending
        cases hrest : (l.renewed.readBytes chunk).rest with
        | ok l' =>
          rw [hrest] at hending
          cases hending
        | error fault' =>
          rw [hrest] at hending
          cases hending
          exact ⟨fed, chunk, [], l, b, b', (List.append_nil _).symm, hfed, hrest, houtcome⟩

end Yield

namespace Pipeline

variable {options : Options} {chunks : List (List UInt8)}

/-- Where a chunk is fed, places count from it or from an earlier one: what is read since then is
the text behind which the lexer stands. -/
theorem counts_of_dry {fed : List (List UInt8)} {l : Lexer} {b : Builder}
    (h : (Yield.ofChunks options fed).ending = .dry l b) (chunk : List UInt8) :
    ∃ skipped counted passed, fed ++ [chunk] = skipped ++ counted ∧
      CountsFrom options skipped counted ∧ counted.flatten = passed ++ chunk ∧
      fed.flatten = skipped.flatten ++ passed ∧ l.renewed.location = Location.behind passed := by
  obtain ⟨skipped, counted, hsplit, -, hcounts, passed, hcounted, hplace⟩ :=
    (stands_of_dry h).chunk h chunk
  refine ⟨skipped, counted, passed, hsplit, hcounts, hcounted, ?_, hplace⟩
  have hflatten := congrArg List.flatten hsplit
  rw [List.flatten_concat, List.flatten_append, hcounted, ← List.append_assoc] at hflatten
  exact List.append_cancel_right hflatten

/-- A text that is refused opens a container beyond the limit, where the error is, counted from the
last chunk fed before which no value was begun. Up to there it is read with the limit. -/
theorem exists_opensBeyond {fault : LexicalFault}
    (h : (Yield.ofChunks options chunks).ending = .failed (.lexical fault))
    (hdepth : fault.cause.isDepth = true) :
    ∃ skipped counted unfed read bracket after, chunks = skipped ++ counted ++ unfed ∧
      CountsFrom options skipped counted ∧ counted.flatten = read ++ bracket :: after ∧
      OpensBeyond options options.depthLimit (skipped.flatten ++ read) bracket ∧
      (∃ tokens mid, Scanner.Reads options.depthLimit {} (skipped.flatten ++ read) tokens mid) ∧
      fault = ⟨.depthLimitExceeded options.depthLimit, Location.behind read⟩ := by
  obtain ⟨fed, chunk, unfed, l, b, b', hchunks, hfed, hrest, hbuilding⟩ :=
    Yield.exists_faulting_chunk h
  obtain ⟨before, values, hreads, htakes, hlimit⟩ := Yield.reads_of_dry hfed
  have hkeeps : l.renewed.depthLimit = options.depthLimit := l.depthLimit_renewed.trans hlimit
  have hlength : l.renewed.scanner.frames.length ≤ l.renewed.depthLimit := by
    rw [hkeeps, l.scanner_renewed]
    exact hreads.length_frames_le (Nat.zero_le _)
  have hbounded := l.renewed.bounded_readBytes chunk hlength (Nat.lt_succ_self _)
  have hwithin := l.renewed.staysWithin_readBytes hlength chunk
  obtain ⟨skipped, counted, passed, hsplit, hcounts, hcounted, hwhole, hplace⟩ :=
    counts_of_dry hfed chunk
  generalize l.renewed.readBytes chunk = r at *
  generalize (l.renewed.allowing _).readBytes chunk = r' at *
  cases hbounded with
  | within faults =>
    rw [faults fault hrest] at hdepth
    cases hdepth
  | @exceeded ts _ read after bracket opening last text opens settled reads full _ =>
    obtain rfl := Except.error.inj hrest
    obtain ⟨us, mid, hsettled⟩ := settled
    rw [hkeeps, l.scanner_renewed] at hsettled reads
    -- the containers that are open are those of the tokens of all chunks
    have hopen : l.renewed.scanner.frames.map Frame.closing =
        before.foldl Token.closingAfter [] := by
      rw [l.scanner_renewed]
      exact hreads.map_closing
    have hcount : ((before ++ ts.map PlacedToken.token).foldl Token.closingAfter []).length =
        options.depthLimit := by
      have hle := (List.append_nil (ts.map PlacedToken.token) ▸ hwithin).of_append
      rw [hkeeps, hopen] at full hle
      rw [List.foldl_append]
      exact Nat.le_antisymm hle full
    obtain ⟨later, htaken⟩ : ∃ later, b.Takes (ts.map PlacedToken.token) later b' :=
      ⟨_, Builder.takes_of_pushAll (Prod.ext rfl hbuilding)⟩
    rw [hwhole] at hreads
    refine ⟨skipped, counted, unfed, passed ++ read, bracket, after, ?_, hcounts, ?_, ?_, ?_, ?_⟩
    · rw [hchunks, hsplit]
    · rw [hcounted, text, List.append_assoc]
    · rw [← List.append_assoc]
      exact .of_piece hreads htakes reads opens htaken hcount
    · rw [← List.append_assoc]
      exact ⟨_, mid, hreads.append hsettled⟩
    · rw [hkeeps, hplace, Location.behind_append]

end Pipeline

/-! ## How far values nest -/

namespace Value

theorem nestingOfItems_le_iff {items : List Value} {n : Nat} :
    nestingOfItems items ≤ n ↔ ∀ v ∈ items, v.nesting ≤ n := by
  induction items with
  | nil => simp [nestingOfItems]
  | cons v items ih => rw [nestingOfItems, Nat.max_le, ih, List.forall_mem_cons]

theorem nestingOfMembers_le_iff {members : List (String × Value)} {n : Nat} :
    nestingOfMembers members ≤ n ↔ ∀ member ∈ members, member.2.nesting ≤ n := by
  induction members with
  | nil => simp [nestingOfMembers]
  | cons member members ih => rw [nestingOfMembers, Nat.max_le, ih, List.forall_mem_cons]

/-- A container nests one further than what is inside. -/
theorem ascends_nesting (limit : Nat) :
    Ascends limit fun level v => v.nesting + level ≤ limit where
  array := by
    intro level items room inside
    have hitems : nestingOfItems items ≤ limit - (level + 1) :=
      nestingOfItems_le_iff.mpr fun v hv => Nat.le_sub_of_add_le (inside v hv)
    rw [nesting]
    omega
  object := by
    intro level members room _ inside
    have hmembers : nestingOfMembers members ≤ limit - (level + 1) :=
      nestingOfMembers_le_iff.mpr fun member hmem => Nat.le_sub_of_add_le (inside member hmem)
    rw [nesting]
    omega

end Value

/-- What chunks yield nests as far as is allowed at most. -/
theorem Yield.nesting_le_of_mem_ofChunks (options : Options) (chunks : List (List UInt8)) :
    ∀ v ∈ (ofChunks options chunks).values, v.nesting ≤ options.depthLimit := by
  have hsingle (token : Token) (w : Value) (hw : w.tokens = [token]) (_ : token.Rounded)
      (level : Nat) (hlevel : level ≤ options.depthLimit) :
      w.nesting + level ≤ options.depthLimit := by
    rwa [Value.nesting_of_tokens_singleton hw, Nat.zero_add]
  intro v hv
  obtain ⟨level, hnests⟩ :=
    bears_of_mem_ofChunks (Value.ascends_nesting options.depthLimit) hsingle chunks v hv
  exact Nat.le_of_add_right_le hnests

/-! ## The limit -/

section

variable {options : Options} {chunks : List (List UInt8)}

/-- A text that is not refused for the limit has the same result where there is room for more. -/
theorem parse_room {room : Nat} (hroom : options.depthLimit ≤ room)
    (hkept : ∀ place,
      parse options chunks ≠ .error (.lexical ⟨.depthLimitExceeded options.depthLimit, place⟩)) :
    parse { options with depthLimit := room } chunks = parse options chunks := by
  rcases Nat.eq_or_lt_of_le hroom with rfl | hmore
  · rfl
  · rw [parse_eq_outcome, parse_eq_outcome]
    rcases (Yield.bounded_ofChunks options hmore chunks).outcome_eq with hsame | ⟨place, hfails⟩
    · exact hsame
    · exact absurd (parse_eq_outcome options chunks ▸ hfails) (hkept place)

theorem parse_exceeds_of_opensBeyond {read after : List UInt8} {bracket : UInt8}
    (htext : chunks.flatten = read ++ bracket :: after)
    (h : OpensBeyond options options.depthLimit read bracket) :
    ∃ place,
      parse options chunks = .error (.lexical ⟨.depthLimitExceeded options.depthLimit, place⟩) := by
  have hwhole : (Yield.ofChunks options chunks).unplaced = (Yield.ofReading (Builder.new options)
      (Lexer.readBytes { depthLimit := options.depthLimit } chunks.flatten)).unplaced :=
    Yield.unplaced_foldl_feed rfl (Builder.new options) chunks
  obtain ⟨place, hending⟩ : ∃ place, (Yield.ofChunks options chunks).ending =
      .failed (.lexical ⟨.depthLimitExceeded options.depthLimit, place⟩) := by
    refine Yield.exceeds_of_unplaced hwhole.symm ?_
    rw [htext]
    exact Yield.exceeds_ofReading h
  exact ⟨place, (parse_eq_outcome options chunks).trans (Yield.outcome_lexical_iff.mpr hending)⟩

/-- A text that is refused for the limit opens a container beyond it, first of all where the error
is. -/
theorem exists_opensBeyond_of_parse {fault : LexicalFault}
    (h : parse options chunks = .error (.lexical fault)) (hdepth : fault.cause.isDepth = true) :
    ∃ skipped counted unfed read bracket after, chunks = skipped ++ counted ++ unfed ∧
      Pipeline.CountsFrom options skipped counted ∧ counted.flatten = read ++ bracket :: after ∧
      OpensBeyond options options.depthLimit (skipped.flatten ++ read) bracket ∧
      (∀ read' bracket' after', chunks.flatten = read' ++ bracket' :: after' →
        OpensBeyond options options.depthLimit read' bracket' →
          (skipped.flatten ++ read).length ≤ read'.length) ∧
      fault = ⟨.depthLimitExceeded options.depthLimit, Location.behind read⟩ := by
  rw [parse_eq_outcome] at h
  obtain ⟨skipped, counted, unfed, read, bracket, after, hchunks, hcounts, hcounted, hopens,
    ⟨tokens, mid, hreads⟩, hfault⟩ :=
      Pipeline.exists_opensBeyond (Yield.outcome_lexical_iff.mp h) hdepth
  refine ⟨skipped, counted, unfed, read, bracket, after, hchunks, hcounts, hcounted, hopens, ?_,
    hfault⟩
  intro read' bracket' after' htext hopens'
  by_contra hlater
  -- a bracket further in front is in what is read with the limit
  have hprefix : skipped.flatten ++ read <+: chunks.flatten := by
    refine ⟨bracket :: after ++ unfed.flatten, ?_⟩
    simp only [hchunks, List.flatten_append, hcounted, List.append_assoc]
  have hprefix' : read' ++ [bracket'] <+: chunks.flatten := ⟨after', by simp [htext]⟩
  refine hopens'.not_isPrefix hreads (List.prefix_of_prefix_length_le hprefix' hprefix ?_)
  rw [List.length_append, List.length_singleton]
  omega

/-- The values of a text nest as far as is allowed, and the items of an array that is streamed one
less. -/
theorem nesting_le_of_parse {vs : List Value} (h : parse options chunks = .ok vs) :
    let delivered := Signal.values
      (Event.signals (Pipeline.completedRun { options with streamRootArray := false } chunks).2)
    (∀ v ∈ vs, v.nesting ≤ options.depthLimit) ∧
      (options.streamRootArray = true → vs = unpacked delivered ∧
        ∀ items, .array items ∈ delivered →
          ∀ item ∈ items, item.nesting + 1 ≤ options.depthLimit) := by
  intro delivered
  refine ⟨fun v hv => ?_, fun hstreamed => ?_⟩
  · rw [Yield.values_of_parse h] at hv
    exact Yield.nesting_le_of_mem_ofChunks options chunks v hv
  · have hdelivered : delivered =
        (Yield.ofChunks { options with streamRootArray := false } chunks).values :=
      Pipeline.values_completedRun _ chunks
    have hsame : { options with streamRootArray := true } = options := by
      rw [← hstreamed]
    have hagree := (Yield.unpacks_ofChunks options chunks).agree
    rw [hsame, ← parse_eq_outcome options, h] at hagree
    refine ⟨?_, fun items hitems item hitem => ?_⟩
    · rw [hdelivered]
      exact hagree.eq_unpacked (fun ws hws => Yield.values_of_outcome hws)
    · rw [hdelivered] at hitems
      have harray : (Value.array items).nesting ≤ options.depthLimit :=
        Yield.nesting_le_of_mem_ofChunks { options with streamRootArray := false } chunks _ hitems
      rw [Value.nesting] at harray
      have hinside : item.nesting ≤ Value.nestingOfItems items :=
        Value.nestingOfItems_le_iff.mp (Nat.le_refl _) item hitem
      omega

end

/-- A text that is not refused for the limit on open containers has the same result with any larger
one. It is refused if and only if a bracket in it opens a container while as many are open as are
allowed, before any other error and before a streamed root array closes; and the error is at the
first such bracket, its place counted from the last chunk fed before which no value was begun. What
is parsed nests as far as is allowed at most, the items of a streamed root array one less. -/
theorem parse_depthLimit (options : Options) (chunks : List (List UInt8)) :
    let limit := options.depthLimit
    let result := parse options chunks
    let delivered := Signal.values
      (Event.signals (Pipeline.completedRun { options with streamRootArray := false } chunks).2)
    (∀ room, limit ≤ room →
        (∀ place, result ≠ .error (.lexical ⟨.depthLimitExceeded limit, place⟩)) →
          parse { options with depthLimit := room } chunks = result) ∧
      ((∃ place, result = .error (.lexical ⟨.depthLimitExceeded limit, place⟩)) ↔
        ∃ read bracket after, chunks.flatten = read ++ bracket :: after ∧
          OpensBeyond options limit read bracket) ∧
      (∀ fault, result = .error (.lexical fault) → fault.cause.isDepth = true →
        ∃ skipped counted unfed read bracket after, chunks = skipped ++ counted ++ unfed ∧
          Pipeline.CountsFrom options skipped counted ∧
          counted.flatten = read ++ bracket :: after ∧
          OpensBeyond options limit (skipped.flatten ++ read) bracket ∧
          (∀ read' bracket' after', chunks.flatten = read' ++ bracket' :: after' →
            OpensBeyond options limit read' bracket' →
              (skipped.flatten ++ read).length ≤ read'.length) ∧
          fault = ⟨.depthLimitExceeded limit, Location.behind read⟩) ∧
      ∀ vs, result = .ok vs →
        (∀ v ∈ vs, v.nesting ≤ limit) ∧
          (options.streamRootArray = true → vs = unpacked delivered ∧
            ∀ items, .array items ∈ delivered → ∀ item ∈ items, item.nesting + 1 ≤ limit) := by
  intro limit result delivered
  refine ⟨fun room => parse_room, ⟨?_, ?_⟩, fun fault => exists_opensBeyond_of_parse,
    fun vs => nesting_le_of_parse⟩
  · rintro ⟨place, hresult⟩
    obtain ⟨skipped, counted, unfed, read, bracket, after, hchunks, -, hcounted, hopens, -⟩ :=
      exists_opensBeyond_of_parse hresult rfl
    refine ⟨skipped.flatten ++ read, bracket, after ++ unfed.flatten, ?_, hopens⟩
    simp only [hchunks, List.flatten_append, hcounted, List.append_assoc, List.cons_append]
  · rintro ⟨read, bracket, after, htext, hopens⟩
    exact parse_exceeds_of_opensBeyond htext hopens

/-- After the array `[]` and a line feed, an array that goes over two chunks opens another one in
its second line. One container is allowed at a time, so that this is the place of the error; with
room for two it is parsed, and alike with room for more. Streamed, `[[]]` gives the array inside. -/
theorem parse_depthLimit_second_line :
    let chunks : List (List UInt8) := [[0x5B, 0x5D, 0x0A], [0x5B, 0x0A], [0x20, 0x5B, 0x5D, 0x5D]]
    let nested : List (List UInt8) := [[0x5B], [0x5B, 0x5D, 0x5D]]
    let one : Options := { depthLimit := 1 }
    let two : Options := { depthLimit := 2 }
    let streamed : Options := { streamRootArray := true, depthLimit := 2 }
    let delivered := Signal.values (Event.signals (Pipeline.completedRun two nested).2)
    let fault : LexicalFault := ⟨.depthLimitExceeded 1, ⟨2, 2⟩⟩
    let values : List Value := [.array [], .array [.array []]]
    parse one chunks = .error (.lexical fault) ∧
      (∃ read bracket after, chunks.flatten = read ++ bracket :: after ∧
        OpensBeyond one 1 read bracket) ∧
      (∃ skipped counted unfed read bracket after, chunks = skipped ++ counted ++ unfed ∧
        Pipeline.CountsFrom one skipped counted ∧ counted.flatten = read ++ bracket :: after ∧
        OpensBeyond one 1 (skipped.flatten ++ read) bracket ∧
        (∀ read' bracket' after', chunks.flatten = read' ++ bracket' :: after' →
          OpensBeyond one 1 read' bracket' →
            (skipped.flatten ++ read).length ≤ read'.length) ∧
        fault = ⟨.depthLimitExceeded 1, Location.behind read⟩) ∧
      (parse two chunks = .ok values ∧ (∀ v ∈ values, v.nesting ≤ 2) ∧
        parse { depthLimit := 7 } chunks = .ok values) ∧
      parse streamed nested = .ok [.array []] ∧ [.array []] = unpacked delivered ∧
      ∀ items, .array items ∈ delivered → ∀ item ∈ items, item.nesting + 1 ≤ 2 := by
  intro chunks nested one two streamed delivered fault values
  have hone : parse one chunks = .error (.lexical fault) := by decide +kernel
  have htwo : parse two chunks = .ok values := by decide +kernel
  have hstreamed : parse streamed nested = .ok [.array []] := by decide +kernel
  obtain ⟨-, hexceeds, hfirst, -⟩ := parse_depthLimit one chunks
  obtain ⟨hroom, -, -, hnesting⟩ := parse_depthLimit two chunks
  obtain ⟨-, -, -, hitems⟩ := parse_depthLimit streamed nested
  have hseven : parse { depthLimit := 7 } chunks = .ok values := by
    rw [← htwo]
    refine hroom 7 (by decide) fun place herror => ?_
    cases htwo.symm.trans herror
  exact ⟨hone, hexceeds.mp ⟨⟨2, 2⟩, hone⟩, hfirst fault hone rfl,
    ⟨htwo, (hnesting values htwo).1, hseven⟩, hstreamed, (hitems _ hstreamed).2 rfl⟩

end StreamingJson
