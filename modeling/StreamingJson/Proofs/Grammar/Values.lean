import StreamingJson.Proofs.Grammar.Between

/-!
# Reading values

The scanner reads the texts of the grammar to the tokens of their values, and whatever it reads to
the tokens of a value is a text of that value. The first is by recursion on how the text is built,
the second by recursion on the value.

## Main statements

- `Scanner.reads_value`, `Scanner.reads_documents` — the texts of the grammar are read
- `Scanner.value_of_reads`, `Scanner.documents_of_reads` — what is read is a text of the grammar
-/

namespace StreamingJson

namespace Value

/-- The first token of a value closes no container. -/
theorem exists_tokens_eq_cons (v : Value) :
    ∃ token more, v.tokens = token :: more ∧ token ≠ .endArray ∧ token ≠ .endObject := by
  cases v <;> exact ⟨_, _, rfl, by simp, by simp⟩

/-- A value that is one token is the only one with that token in front. -/
theorem eq_of_tokens {v w : Value} {token : Token} {more : List Token} (hv : v.tokens = [token])
    (hw : w.tokens = token :: more) : v = w := by
  cases v <;> simp [tokens] at hv <;> subst hv <;> cases w <;> simp_all [tokens]

/-- Only after the last item the next token ends the array. -/
theorem tokensOfItems_append_eq_cons (items : List Value) (tokens : List Token) :
    ∃ token more, tokensOfItems items ++ ([.endArray] ++ tokens) = token :: more ∧
      (token = .endArray → items = [] ∧ more = tokens) := by
  cases items with
  | nil => exact ⟨.endArray, tokens, rfl, fun _ => ⟨rfl, rfl⟩⟩
  | cons v items =>
    obtain ⟨token, more, htokens, harray, -⟩ := v.exists_tokens_eq_cons
    rw [tokensOfItems, htokens]
    exact ⟨token, _, rfl, fun h => absurd h harray⟩

theorem tokensOfMembers_append_eq_cons (members : List (String × Value)) (tokens : List Token) :
    ∃ token more, tokensOfMembers members ++ ([.endObject] ++ tokens) = token :: more ∧
      (token = .endObject → members = [] ∧ more = tokens) := by
  cases members with
  | nil => exact ⟨.endObject, tokens, rfl, fun _ => ⟨rfl, rfl⟩⟩
  | cons member members => exact ⟨.fieldName member.1, _, rfl, fun h => nomatch h⟩

theorem nesting_of_tokens_singleton {v : Value} {token : Token} (h : v.tokens = [token]) :
    v.nesting = 0 := by
  cases v <;> first | rfl | simp [tokens] at h

end Value

namespace Scanner

variable {limit : Nat} {s : Scanner}

/-! ## From texts to tokens -/

/-- What may follow a value: anything after a container, and otherwise a byte that ends a number. -/
def Ends (v : Value) (rest : List UInt8) : Prop :=
  v.shape.isContainer = true ∨ ∃ b more, rest = b :: more ∧ Delimiter b

theorem ends_of_delimiter (v : Value) {blank rest : List UInt8} {b : UInt8} (hblank : Blank blank)
    (hb : Delimiter b) : Ends v (blank ++ b :: rest) := by
  right
  cases blank with
  | nil => exact ⟨b, rest, rfl, hb⟩
  | cons c blank => exact ⟨c, _, rfl, .inl (hblank c List.mem_cons_self)⟩

theorem reads_wordText {frames : List Frame} {rest : List UInt8} {tokens : List Token} {w : Word}
    {b : UInt8} (hF : AwaitsValue frames) (hlead : Lead.ofByte b = .word w)
    (hrest : Reads limit ⟨Frame.fill frames, .between⟩ rest tokens s) :
    Reads limit ⟨frames, .between⟩ (b :: w.tail ++ rest) (w.token :: tokens) s := by
  refine .shift (step_word_first hF hlead) (reads_word ?_ hrest)
  cases w <;> exact List.cons_ne_nil _ _

theorem reads_numberText {frames : List Frame} {rest : List UInt8} {tokens : List Token}
    {n : Numeral} {isInteger : Bool} {text : List UInt8} {token : Token} (hF : AwaitsValue frames)
    (h : NumberText n isInteger text) (htoken : Numeral.token isInteger text = .ok token)
    (hends : ∃ b more, rest = b :: more ∧ Delimiter b)
    (hrest : Reads limit ⟨Frame.fill frames, .between⟩ rest tokens s) :
    Reads limit ⟨frames, .between⟩ (text ++ rest) (token :: tokens) s := by
  obtain ⟨last, hreach, hcomplete, rfl⟩ := NumberPhase.reach_of_numberText h
  obtain ⟨b, more, rfl, hb⟩ := hends
  cases text with
  | nil => cases hreach
  | cons c text =>
    obtain ⟨first, hopening, hrun⟩ := Option.bind_eq_some_iff.mp hreach
    refine .shift (step_number_first hF (Lead.ofByte_of_opening hopening)) ?_
    exact reads_number hrun hcomplete #[c] htoken hb hrest

mutual

/-- The text of a value is read to its tokens. -/
theorem reads_value {v : Value} {text : List UInt8} (h : ValueText v text) {frames : List Frame}
    (hF : AwaitsValue frames) (hdepth : v.nesting + frames.length ≤ limit) {rest : List UInt8}
    (hends : Ends v rest) {tokens : List Token}
    (hrest : Reads limit ⟨Frame.fill frames, .between⟩ rest tokens s) :
    Reads limit ⟨frames, .between⟩ (text ++ rest) (v.tokens ++ tokens) s := by
  match v, text, h, hdepth, hends with
  | _, _, .null, _, _ => exact reads_wordText hF (w := .null) rfl hrest
  | _, _, .true, _, _ => exact reads_wordText hF (w := .true) rfl hrest
  | _, _, .false, _, _ => exact reads_wordText hF (w := .false) rfl hrest
  | _, _, .int h range, _, hends =>
    refine reads_numberText hF h ?_ (hends.resolve_left Bool.noConfusion) hrest
    rw [Numeral.token_of_numberText h, if_pos rfl, if_pos range]
  | _, _, .float h, _, hends =>
    refine reads_numberText hF h ?_ (hends.resolve_left Bool.noConfusion) hrest
    rw [Numeral.token_of_numberText h]
    rfl
  | _, _, .string h, _, _ =>
    rw [List.cons_append, List.append_assoc]
    exact .shift (step_quote hF) (reads_string h (placeText_of_awaits hF _) hrest)
  | _, _, .emptyArray h, hdepth, _ =>
    have hroom : 1 + frames.length ≤ limit := by
      simpa [Value.nesting, Value.nestingOfItems] using hdepth
    rw [List.cons_append, List.append_assoc]
    exact reads_open (by omega) (step_openArray hF)
      ((reads_blank_iff h).mpr (.consume (step_closeArray (.inl rfl)) hrest))
  | _, _, @ValueText.array items _ h, hdepth, _ =>
    have hroom : Value.nestingOfItems items + 1 + frames.length ≤ limit := hdepth
    rw [Value.tokens, List.cons_append, List.cons_append, List.append_assoc, List.append_assoc]
    exact reads_open (by omega) (step_openArray hF)
      (reads_items h (.inl rfl) (by omega) hrest)
  | _, _, .emptyObject h, hdepth, _ =>
    have hroom : 1 + frames.length ≤ limit := by
      simpa [Value.nesting, Value.nestingOfMembers] using hdepth
    rw [List.cons_append, List.append_assoc]
    exact reads_open (by omega) (step_openObject hF)
      ((reads_blank_iff h).mpr (.consume (step_closeObject (.inl rfl)) hrest))
  | _, _, @ValueText.object members _ h, hdepth, _ =>
    have hroom : Value.nestingOfMembers members + 1 + frames.length ≤ limit := hdepth
    rw [Value.tokens, List.cons_append, List.cons_append, List.append_assoc, List.append_assoc]
    exact reads_open (by omega) (step_openObject hF)
      (reads_members h (.inl rfl) (by omega) hrest)
termination_by structural h

theorem reads_items {items : List Value} {body : List UInt8} (h : ItemsText items body)
    {outer : List Frame} {phase : ArrayPhase} (hphase : phase = .first ∨ phase = .item)
    (hdepth : Value.nestingOfItems items + (outer.length + 1) ≤ limit) {rest : List UInt8}
    {tokens : List Token} (hrest : Reads limit ⟨Frame.fill outer, .between⟩ rest tokens s) :
    Reads limit ⟨.array phase :: outer, .between⟩ (body ++ Ascii.closeBracket :: rest)
      (Value.tokensOfItems items ++ .endArray :: tokens) s := by
  match items, body, h, hdepth with
  | _, _, @ItemsText.last v before text after hbefore h hafter, hdepth =>
    have hroom : max v.nesting 0 + (outer.length + 1) ≤ limit := hdepth
    have hclose : Reads limit ⟨.array .separator :: outer, .between⟩
        (after ++ Ascii.closeBracket :: rest) (.endArray :: tokens) s :=
      (reads_blank_iff hafter).mpr (.consume (step_closeArray (.inr rfl)) hrest)
    have hends : Ends v (after ++ Ascii.closeBracket :: rest) :=
      ends_of_delimiter v hafter (.inr (.inr (.inl rfl)))
    have hvalue := reads_value h (.array hphase outer) (by rw [List.length_cons]; omega) hends
      hclose
    rw [Value.tokensOfItems, Value.tokensOfItems, List.append_nil, List.append_assoc,
      List.append_assoc]
    exact (reads_blank_iff hbefore).mpr hvalue
  | _, _, @ItemsText.more v items before text after body hbefore h hafter hmore, hdepth =>
    have hroom : max v.nesting (Value.nestingOfItems items) + (outer.length + 1) ≤ limit := hdepth
    have hmoreRoom : Value.nestingOfItems items + (outer.length + 1) ≤ limit := by omega
    have hitems := reads_items hmore (.inr rfl) hmoreRoom hrest
    have hcomma : Reads limit ⟨.array .separator :: outer, .between⟩
        (after ++ Ascii.comma :: (body ++ Ascii.closeBracket :: rest))
        (Value.tokensOfItems items ++ .endArray :: tokens) s :=
      (reads_blank_iff hafter).mpr (.shift step_comma_array hitems)
    have hends : Ends v (after ++ Ascii.comma :: (body ++ Ascii.closeBracket :: rest)) :=
      ends_of_delimiter v hafter (.inr (.inl rfl))
    have hvalue := reads_value h (.array hphase outer) (by rw [List.length_cons]; omega) hends
      hcomma
    rw [Value.tokensOfItems, List.append_assoc, List.append_assoc, List.append_assoc,
      List.append_assoc]
    exact (reads_blank_iff hbefore).mpr hvalue
termination_by structural h

theorem reads_members {members : List (String × Value)} {body : List UInt8}
    (h : MembersText members body) {outer : List Frame} {phase : ObjectPhase}
    (hphase : phase = .first ∨ phase = .name)
    (hdepth : Value.nestingOfMembers members + (outer.length + 1) ≤ limit) {rest : List UInt8}
    {tokens : List Token} (hrest : Reads limit ⟨Frame.fill outer, .between⟩ rest tokens s) :
    Reads limit ⟨.object phase :: outer, .between⟩ (body ++ Ascii.closeBrace :: rest)
      (Value.tokensOfMembers members ++ .endObject :: tokens) s := by
  match members, body, h, hdepth with
  | _, _, @MembersText.last _ v before text after hbefore h hafter, hdepth =>
    have hroom : max v.nesting 0 + (outer.length + 1) ≤ limit := hdepth
    have hclose : Reads limit ⟨.object .separator :: outer, .between⟩
        (after ++ Ascii.closeBrace :: rest) (.endObject :: tokens) s :=
      (reads_blank_iff hafter).mpr (.consume (step_closeObject (.inr rfl)) hrest)
    have hends : Ends v (after ++ Ascii.closeBrace :: rest) :=
      ends_of_delimiter v hafter (.inr (.inr (.inr rfl)))
    have hmember := reads_member h hphase (by omega) hends hclose
    rw [Value.tokensOfMembers, Value.tokensOfMembers, List.append_nil, List.append_assoc,
      List.append_assoc]
    exact (reads_blank_iff hbefore).mpr hmember
  | _, _, @MembersText.more _ v members before text after body hbefore h hafter hmore, hdepth =>
    have hroom : max v.nesting (Value.nestingOfMembers members) + (outer.length + 1) ≤ limit :=
      hdepth
    have hmoreRoom : Value.nestingOfMembers members + (outer.length + 1) ≤ limit := by omega
    have hmembers := reads_members hmore (.inr rfl) hmoreRoom hrest
    have hcomma : Reads limit ⟨.object .separator :: outer, .between⟩
        (after ++ Ascii.comma :: (body ++ Ascii.closeBrace :: rest))
        (Value.tokensOfMembers members ++ .endObject :: tokens) s :=
      (reads_blank_iff hafter).mpr (.shift step_comma_object hmembers)
    have hends : Ends v (after ++ Ascii.comma :: (body ++ Ascii.closeBrace :: rest)) :=
      ends_of_delimiter v hafter (.inr (.inl rfl))
    have hmember := reads_member h hphase (by omega) hends hcomma
    rw [Value.tokensOfMembers, List.cons_append, List.append_assoc, List.append_assoc,
      List.append_assoc, List.append_assoc]
    exact (reads_blank_iff hbefore).mpr hmember
termination_by structural h

theorem reads_member {name : String} {v : Value} {text : List UInt8} (h : MemberText name v text)
    {outer : List Frame} {phase : ObjectPhase} (hphase : phase = .first ∨ phase = .name)
    (hdepth : v.nesting + (outer.length + 1) ≤ limit) {rest : List UInt8} (hends : Ends v rest)
    {tokens : List Token}
    (hrest : Reads limit ⟨.object .separator :: outer, .between⟩ rest tokens s) :
    Reads limit ⟨.object phase :: outer, .between⟩ (text ++ rest)
      (.fieldName name :: (v.tokens ++ tokens)) s := by
  match name, v, text, h, hdepth, hends with
  | _, _, _, @MemberText.mk _ v name before after text hname hbefore hafter h, hdepth, hends =>
    have hvalue := reads_value h (.value outer) hdepth hends hrest
    have hcolon : Reads limit ⟨.object .colon :: outer, .between⟩
        (before ++ Ascii.colon :: (after ++ (text ++ rest))) (v.tokens ++ tokens) s :=
      (reads_blank_iff hbefore).mpr (.shift step_colon ((reads_blank_iff hafter).mpr hvalue))
    have hstring := reads_string hname (placeText_name hphase _) hcolon
    have htext :
        Ascii.quote :: (name ++ Ascii.quote :: (before ++ Ascii.colon :: (after ++ text))) ++ rest =
          Ascii.quote ::
            (name ++ Ascii.quote :: (before ++ Ascii.colon :: (after ++ (text ++ rest)))) := by
      simp
    rw [htext]
    exact .shift (step_quote_name hphase) hstring
termination_by structural h

end

/-! ## From tokens to texts -/

mutual

/-- What is read to the tokens of a value begins with a text of it. -/
theorem value_of_reads (v : Value) {frames : List Frame} (hF : AwaitsValue frames)
    (hroom : frames.length ≤ limit) {bytes : List UInt8} {tokens : List Token}
    (h : Reads limit ⟨frames, .between⟩ bytes (v.tokens ++ tokens) s) :
    ∃ blank text rest, bytes = blank ++ text ++ rest ∧ Blank blank ∧ ValueText v text ∧
      v.nesting + frames.length ≤ limit ∧
      Reads limit ⟨Frame.fill frames, .between⟩ rest tokens s := by
  obtain ⟨token, more, htokens, harray, hobject⟩ := v.exists_tokens_eq_cons
  rw [htokens, List.cons_append] at h
  obtain ⟨blank, b, rest, rfl, hblank, hopens, hrest⟩ := value_start_of_reads hF harray hobject h
  rcases start_of_reads hF hopens hrest with
    ⟨rfl, rfl, hspace, hbody⟩ | ⟨rfl, rfl, hspace, hbody⟩ | ⟨w, text, later, heq, hw, htext, hlater⟩
  · match v, htokens with
    | .array items, htokens =>
      obtain rfl := (List.cons.inj htokens).2
      rw [List.append_assoc] at hbody
      obtain ⟨body, later, rfl, hitems, hdepth, hlater⟩ :=
        items_of_reads items (.inl rfl) hspace hbody
      refine ⟨blank, Ascii.openBracket :: (body ++ [Ascii.closeBracket]), later, by simp, hblank,
        ?_, ?_, hlater⟩
      · rcases hitems with ⟨rfl, -, hbody⟩ | hitems
        · exact .emptyArray hbody
        · exact .array hitems
      · rw [Value.nesting]
        omega
  · match v, htokens with
    | .object members, htokens =>
      obtain rfl := (List.cons.inj htokens).2
      rw [List.append_assoc] at hbody
      obtain ⟨body, later, rfl, hmembers, hdepth, hlater⟩ :=
        members_of_reads members (.inl rfl) hspace hbody
      refine ⟨blank, Ascii.openBrace :: (body ++ [Ascii.closeBrace]), later, by simp, hblank,
        ?_, ?_, hlater⟩
      · rcases hmembers with ⟨rfl, -, hbody⟩ | hmembers
        · exact .emptyObject hbody
        · exact .object hmembers
      · rw [Value.nesting]
        omega
  · -- a value without parts is determined by its only token
    obtain rfl := Value.eq_of_tokens hw htokens
    obtain rfl := (List.cons.inj (htokens.symm.trans hw)).2
    refine ⟨blank, text, later, by rw [heq, List.append_assoc], hblank, htext, ?_, hlater⟩
    rw [Value.nesting_of_tokens_singleton hw, Nat.zero_add]
    exact hroom

theorem items_of_reads (items : List Value) {outer : List Frame} {phase : ArrayPhase}
    (hphase : phase = .first ∨ phase = .item) (hroom : outer.length < limit) {bytes : List UInt8}
    {tokens : List Token}
    (h : Reads limit ⟨.array phase :: outer, .between⟩ bytes
      (Value.tokensOfItems items ++ ([.endArray] ++ tokens)) s) :
    ∃ body rest, bytes = body ++ Ascii.closeBracket :: rest ∧
      ((items = [] ∧ phase = .first ∧ Blank body) ∨ ItemsText items body) ∧
      Value.nestingOfItems items + (outer.length + 1) ≤ limit ∧
      Reads limit ⟨Frame.fill outer, .between⟩ rest tokens s := by
  match items with
  | [] =>
    obtain ⟨blank, rest, rfl, hblank, hfirst, hrest⟩ := endArray_of_reads hphase h
    refine ⟨blank, rest, rfl, .inl ⟨rfl, hfirst, hblank⟩, ?_, hrest⟩
    rw [Value.nestingOfItems]
    omega
  | v :: items =>
    rw [Value.tokensOfItems, List.append_assoc] at h
    obtain ⟨before, text, rest, rfl, hbefore, htext, hdepth, hrest⟩ :=
      value_of_reads v (.array hphase outer) hroom h
    rw [List.length_cons] at hdepth
    -- the next token tells whether this item is the last
    obtain ⟨token, more, htokens, hlast⟩ := Value.tokensOfItems_append_eq_cons items tokens
    rw [htokens] at hrest
    obtain ⟨after, rest, hafter, ⟨rfl, hcomma⟩ | ⟨rfl, htoken, hclose⟩⟩ := after_item_of_reads hrest
    · rw [← htokens] at hcomma
      obtain ⟨body, rest, rfl, hitems, hdepths, hrest⟩ :=
        items_of_reads items (.inr rfl) hroom hcomma
      rcases hitems with ⟨-, hfirst, -⟩ | hitems
      · cases hfirst
      · refine ⟨before ++ text ++ after ++ Ascii.comma :: body, rest, by simp,
          .inr (.more hbefore htext hafter hitems), ?_, hrest⟩
        rw [Value.nestingOfItems]
        omega
    · obtain ⟨rfl, rfl⟩ := hlast htoken
      refine ⟨before ++ text ++ after, rest, by simp, .inr (.last hbefore htext hafter), ?_, hclose⟩
      rw [Value.nestingOfItems, Value.nestingOfItems]
      omega

theorem members_of_reads (members : List (String × Value)) {outer : List Frame}
    {phase : ObjectPhase} (hphase : phase = .first ∨ phase = .name) (hroom : outer.length < limit)
    {bytes : List UInt8} {tokens : List Token}
    (h : Reads limit ⟨.object phase :: outer, .between⟩ bytes
      (Value.tokensOfMembers members ++ ([.endObject] ++ tokens)) s) :
    ∃ body rest, bytes = body ++ Ascii.closeBrace :: rest ∧
      ((members = [] ∧ phase = .first ∧ Blank body) ∨ MembersText members body) ∧
      Value.nestingOfMembers members + (outer.length + 1) ≤ limit ∧
      Reads limit ⟨Frame.fill outer, .between⟩ rest tokens s := by
  match members with
  | [] =>
    obtain ⟨blank, rest, hblank, ⟨chars, body, -, -, htoken, -⟩ | ⟨rfl, -, hfirst, hrest⟩⟩ :=
      name_or_end_of_reads hphase h
    · cases htoken
    · refine ⟨blank, rest, rfl, .inl ⟨rfl, hfirst, hblank⟩, ?_, hrest⟩
      rw [Value.nestingOfMembers]
      omega
  | (name, v) :: members =>
    rw [Value.tokensOfMembers, List.cons_append, List.append_assoc] at h
    obtain ⟨before, rest, hbefore, ⟨chars, text, rfl, hname, htoken, hrest⟩ | ⟨-, htoken, -⟩⟩ :=
      name_or_end_of_reads hphase h
    · obtain rfl := Token.fieldName.inj htoken
      obtain ⟨token, more, htokens, -⟩ := v.exists_tokens_eq_cons
      rw [htokens, List.cons_append] at hrest
      obtain ⟨behind, rest, rfl, hbehind, hrest⟩ := colon_of_reads hrest
      rw [← List.cons_append, ← htokens] at hrest
      obtain ⟨gap, value, rest, rfl, hgap, hvalue, hdepth, hrest⟩ :=
        value_of_reads v (.value outer) hroom hrest
      rw [List.length_cons] at hdepth
      have hmember := MemberText.mk hname hbehind hgap hvalue
      -- the next token tells whether this member is the last
      obtain ⟨token, more, htokens, hlast⟩ := Value.tokensOfMembers_append_eq_cons members tokens
      rw [htokens] at hrest
      obtain ⟨after, rest, hafter, ⟨rfl, hcomma⟩ | ⟨rfl, htoken, hclose⟩⟩ :=
        after_member_of_reads hrest
      · rw [← htokens] at hcomma
        obtain ⟨body, rest, rfl, hmembers, hdepths, hrest⟩ :=
          members_of_reads members (.inr rfl) hroom hcomma
        rcases hmembers with ⟨-, hfirst, -⟩ | hmembers
        · cases hfirst
        · refine ⟨_, rest, ?_, .inr (.more hbefore hmember hafter hmembers), ?_, hrest⟩
          · simp
          · rw [Value.nestingOfMembers]
            omega
      · obtain ⟨rfl, rfl⟩ := hlast htoken
        refine ⟨_, rest, ?_, .inr (.last hbefore hmember hafter), ?_, hclose⟩
        · simp
        · rw [Value.nestingOfMembers, Value.nestingOfMembers]
          omega
    · cases htoken

end

/-! ## Documents -/

/-- A row of containers is read to the tokens of all of them. -/
theorem reads_documents {documents : List Value} {text : List UInt8} (h : Documents documents text)
    (hdepth : ∀ d ∈ documents, d.nesting ≤ limit) :
    Reads limit ⟨[], .between⟩ text (documents.flatMap Value.tokens) ⟨[], .between⟩ := by
  induction h with
  | @done blank h =>
    have hblank : Reads limit ⟨[], .between⟩ (blank ++ []) [] ⟨[], .between⟩ :=
      (reads_blank_iff h).mpr (.done _)
    rwa [List.append_nil] at hblank
  | @more v documents before text rest hbefore container h _ ih =>
    have hrest := ih fun d hd => hdepth d (List.mem_cons_of_mem v hd)
    have hvalue := reads_value h .root (hdepth v List.mem_cons_self) (.inl container) hrest
    rw [List.append_assoc, List.flatMap_cons]
    exact (reads_blank_iff hbefore).mpr hvalue

/-- What is read to the tokens of containers is a row of them. -/
theorem documents_of_reads {documents : List Value}
    (hcontainers : ∀ d ∈ documents, d.shape.isContainer = true) {bytes : List UInt8}
    (h : Reads limit ⟨[], .between⟩ bytes (documents.flatMap Value.tokens) ⟨[], .between⟩) :
    Documents documents bytes ∧ ∀ d ∈ documents, d.nesting ≤ limit := by
  induction documents generalizing bytes with
  | nil => exact ⟨.done (blank_of_reads h), List.forall_mem_nil _⟩
  | cons v documents ih =>
    obtain ⟨hv, hlater⟩ := List.forall_mem_cons.mp hcontainers
    obtain ⟨blank, text, rest, rfl, hblank, htext, hdepth, hrest⟩ :=
      value_of_reads v .root (Nat.zero_le limit) h
    obtain ⟨hdocuments, hdepths⟩ := ih hlater hrest
    exact ⟨.more hblank hv htext hdocuments, List.forall_mem_cons.mpr ⟨hdepth, hdepths⟩⟩

end Scanner

end StreamingJson
