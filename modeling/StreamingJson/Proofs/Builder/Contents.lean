import StreamingJson.Proofs.Builder.Coherence
import StreamingJson.Proofs.Cuts
import StreamingJson.Proofs.Lexer.Limits
import StreamingJson.Proofs.Streaming

/-!
# What all values have in common

What holds of the values that are single tokens, and of a container if it holds of what is inside,
holds of everything that a builder hands out, and so of everything that chunks yield. It may depend
on how many containers a value is in: the open containers of a builder are those that the tokens
have opened, so a bound on these bounds the nesting of the values.

## Main definitions

- `Value.Ascends` — what containers have that have it inside
- `Nest.Bear` — what the open containers hold so far has it

## Main statements

- `Builder.bear_push` — a token keeps it up, and what it completes has it
- `Builder.bears_of_mem_pushAll` — what tokens complete has it
- `Yield.bears_of_mem_ofChunks` — what chunks yield has it
-/

namespace StreamingJson

/-- What a container has that stands in some number of others, if there are fewer than `limit` and
all that is in it has it, one container further in. The members of an object have distinct names. -/
structure Value.Ascends (limit : Nat) (P : Nat → Value → Prop) : Prop where
  array {level : Nat} {items : List Value} (room : level < limit)
    (inside : ∀ v ∈ items, P (level + 1) v) : P level (.array items)
  object {level : Nat} {members : List (String × Value)} (room : level < limit)
    (names : (members.map Prod.fst).Nodup)
    (inside : ∀ member ∈ members, P (level + 1) member.2) : P level (.object members)

theorem Value.mem_insertMember {name : String} {v : Value} {members : List (String × Value)}
    {member : String × Value} (h : member ∈ insertMember name v members) :
    member = (name, v) ∨ member ∈ members := by
  induction members with
  | nil => exact .inl (List.mem_singleton.mp h)
  | cons first members ih =>
    obtain ⟨known, old⟩ := first
    rw [insertMember] at h
    split at h
    next hknown =>
      rw [hknown] at h
      exact (List.mem_cons.mp h).imp_right (List.mem_cons_of_mem _)
    next =>
      rcases List.mem_cons.mp h with rfl | h
      · exact .inr List.mem_cons_self
      · exact (ih h).imp_right (List.mem_cons_of_mem _)

/-- All that a container holds so far has the property, under distinct names if it is an object. -/
def Container.Bears (P : Value → Prop) : Container → Prop
  | .array items => ∀ v ∈ items.toList, P v
  | .object members => (members.map Prod.fst).Nodup ∧ ∀ member ∈ members, P member.2

theorem Container.Bears.value {limit : Nat} {P : Nat → Value → Prop} (hP : Value.Ascends limit P)
    {level : Nat} (room : level < limit) {container : Container}
    (h : container.Bears (P (level + 1))) : P level container.value := by
  cases container with
  | array items => exact hP.array room h
  | object members => exact hP.object room h.1 h.2

/-- All that the open containers hold so far has the property, each in as many containers as it
is. -/
def Nest.Bear (P : Nat → Value → Prop) : List Nest → Prop
  | [] => True
  | nest :: outer => nest.container.Bears (P (outer.length + 1)) ∧ Bear P outer

namespace Builder

section

variable {limit : Nat} {P : Nat → Value → Prop} {b next : Builder} {built : Built} {v : Value}
  {slot : Option String} {token : Token}

/-- What the open containers of a builder hold has the property, and so has what was handed out. -/
def Bears (P : Nat → Value → Prop) (built : Built) (b : Builder) : Prop :=
  Nest.Bear P b.nests ∧ ∀ v, built = .value v → P b.depth v

theorem bears_incomplete (h : Nest.Bear P b.nests) : b.Bears P .incomplete :=
  ⟨h, fun _ hbuilt => nomatch hbuilt⟩

theorem bear_attach (h : Nest.Bear P b.nests) (hv : P b.depth v)
    (hattach : b.attach v slot = (.ok built, next)) : next.Bears P built := by
  have hgiven : b.Bears P (.value v) := by
    refine ⟨h, ?_⟩
    rintro w ⟨⟩
    exact hv
  obtain ⟨streamRootArray, policy, nests, pending, streaming⟩ := b
  rw [attach] at hattach
  split at hattach
  next =>
    cases hattach
    exact hgiven
  next nest outer hnests =>
    obtain rfl : nests = nest :: outer := hnests
    split at hattach
    next =>
      cases hattach
      exact hgiven
    next =>
      obtain ⟨hnest, houter⟩ := h
      obtain ⟨container, known⟩ := nest
      split at hattach
      next slot items heq =>
        cases hattach
        obtain rfl : container = .array items := heq
        refine bears_incomplete ⟨fun w hw => ?_, houter⟩
        rw [Array.toList_push] at hw
        rcases List.mem_append.mp hw with hw | hw
        · exact hnest w hw
        · rw [List.mem_singleton.mp hw]
          exact hv
      next members name heq =>
        cases hattach
        obtain rfl : container = .object members := heq
        refine bears_incomplete ⟨⟨Value.nodup_insertMember hnest.1 name v, fun member hmem => ?_⟩,
          houter⟩
        rcases Value.mem_insertMember hmem with rfl | hmem
        · exact hv
        · exact hnest.2 member hmem
      next => cases hattach

theorem bear_openNest (h : Nest.Bear P b.nests) {container : Container} (isArray : Bool)
    (hempty : container.Bears (P (b.depth + 1)))
    (hopen : b.openNest container isArray = (.ok built, next)) : next.Bears P built := by
  have hstart : (if b.nests.isEmpty then
      { b with streaming := b.streamRootArray && isArray } else b).nests = b.nests := by
    split <;> rfl
  rw [openNest] at hopen
  split at hopen
  next => cases hopen
  next slot b' htake =>
    cases hopen
    have hnests : b'.nests = b.nests := (takeSlot_ok htake).1.trans hstart
    refine bears_incomplete ?_
    show Nest.Bear P (⟨container, slot⟩ :: b'.nests)
    rw [hnests]
    exact ⟨hempty, h⟩

theorem bear_closeNest (hP : Value.Ascends limit P) (h : Nest.Bear P b.nests)
    (hdepth : b.depth ≤ limit) {found : Token.Kind}
    (hclose : b.closeNest found = (.ok built, next)) : next.Bears P built := by
  obtain ⟨streamRootArray, policy, nests, pending, streaming⟩ := b
  cases nests with
  | nil => cases hclose
  | cons nest outer =>
    obtain ⟨hnest, houter⟩ := h
    rw [closeNest] at hclose
    dsimp only at hclose
    split at hclose
    · cases hclose
    · split at hclose
      · cases hclose
      · split at hclose
        · cases hclose
          refine ⟨houter, ?_⟩
          rintro _ ⟨⟩
        · exact bear_attach (b := ⟨streamRootArray, policy, outer, none, streaming⟩) houter
            (hnest.value hP hdepth) hclose

theorem bear_scalar (h : Nest.Bear P b.nests) (hv : P b.depth v) {kind : Token.Kind}
    (hscalar : b.scalar v kind = (.ok built, next)) : next.Bears P built := by
  rw [scalar] at hscalar
  split at hscalar
  · cases hscalar
  · split at hscalar
    next => cases hscalar
    next slot b' htake =>
      have hnests : b'.nests = b.nests := (takeSlot_ok htake).1
      refine bear_attach ?_ ?_ hscalar
      · rw [hnests]
        exact h
      · rw [depth, hnests]
        exact hv

theorem bear_fieldName (h : Nest.Bear P b.nests) {name : String}
    (hname : b.fieldName name = (.ok built, next)) : next.Bears P built := by
  rw [fieldName] at hname
  split at hname
  · cases hname
  · split at hname
    · cases hname
    · cases hname
      exact bears_incomplete h
  · cases hname

/-- A token that is taken keeps it up that what the open containers hold has a property, and what
the token completes has it. -/
theorem bear_push (hP : Value.Ascends limit P) (h : Nest.Bear P b.nests) (hdepth : b.depth ≤ limit)
    (hsingle : ∀ v : Value, v.tokens = [token] → P b.depth v)
    (hpush : b.push token = (.ok built, next)) : next.Bears P built := by
  have hobject : (Container.object []).Bears (P (b.depth + 1)) :=
    ⟨List.nodup_nil, fun _ hmem => (List.not_mem_nil hmem).elim⟩
  have harray : (Container.array #[]).Bears (P (b.depth + 1)) :=
    fun _ hmem => (List.not_mem_nil hmem).elim
  cases token with
  | startObject => exact bear_openNest h false hobject hpush
  | startArray => exact bear_openNest h true harray hpush
  | endObject | endArray => exact bear_closeNest hP h hdepth hpush
  | fieldName name => exact bear_fieldName h hpush
  | string text => exact bear_scalar h (hsingle (.string text) rfl) hpush
  | int i => exact bear_scalar h (hsingle (.int i) rfl) hpush
  | float x => exact bear_scalar h (hsingle (.float x) rfl) hpush
  | bool t => exact bear_scalar h (hsingle (.bool t) rfl) hpush
  | null => exact bear_scalar h (hsingle .null rfl) hpush

/-- After a token that is taken as many containers are open as the tokens have opened and not
closed. -/
theorem depth_push_eq {kinds : List Token.Kind} (hkinds : kinds.length = b.depth)
    (hpush : b.push token = (.ok built, next)) :
    (token.closingAfter kinds).length = next.depth := by
  have hdepth := depth_push hpush
  cases token <;>
    simp only [Token.closes, Token.opens, Token.closingAfter, List.length_cons, List.length_tail,
      Bool.false_eq_true, if_true, if_false] at hdepth ⊢ <;> omega

end

end Builder

/-- What tokens complete has a property that single tokens have, and containers that have it
inside. -/
theorem Builder.bears_of_mem_pushAll {limit : Nat} {P : Nat → Value → Prop}
    (hP : Value.Ascends limit P) {placed : List PlacedToken} {b : Builder}
    (h : Nest.Bear P b.nests) {kinds : List Token.Kind} (hkinds : kinds.length = b.depth)
    (hwithin : Token.StaysWithin limit kinds (placed.map PlacedToken.token))
    (hsingle : ∀ t ∈ placed, ∀ v : Value, v.tokens = [t.token] → ∀ level ≤ limit, P level v) :
    ∀ v ∈ (b.pushAll placed).1, ∃ level, P level v := by
  induction placed generalizing b kinds with
  | nil => exact fun v hv => (List.not_mem_nil hv).elim
  | cons t placed ih =>
    intro v hv
    have hdepth : b.depth ≤ limit := hkinds ▸ hwithin.length_le
    have hlater {next : Builder} {built : Built} (hpush : b.push t.token = (.ok built, next))
        (hnext : next.Bears P built) (hmem : v ∈ (next.pushAll placed).1) : ∃ level, P level v :=
      ih hnext.1 (depth_push_eq hkinds hpush) hwithin.2
        (fun u hu => hsingle u (List.mem_cons_of_mem t hu)) v hmem
    rcases hpush : b.push t.token with ⟨cause | built, next⟩
    · rw [pushAll_refused placed hpush] at hv
      exact (List.not_mem_nil hv).elim
    · have hnext := bear_push hP h hdepth
        (fun w hw => hsingle t List.mem_cons_self w hw b.depth hdepth) hpush
      cases built with
      | incomplete =>
        rw [pushAll_incomplete placed hpush] at hv
        exact hlater hpush hnext hv
      | rootClosed =>
        rw [pushAll_closed placed hpush] at hv
        exact (List.not_mem_nil hv).elim
      | value w =>
        rw [pushAll_value placed hpush] at hv
        rcases List.mem_cons.mp hv with rfl | hv
        · exact ⟨_, hnext.2 v rfl⟩
        · exact hlater hpush hnext hv

namespace Yield

/-- Everything that chunks yield has what single values have, floating-point numbers that are
nearest to literals among them, and containers in fewer others than are allowed that have it
inside. -/
theorem bears_of_mem_ofChunks {options : Options} {P : Nat → Value → Prop}
    (hP : Value.Ascends options.depthLimit P)
    (hsingle : ∀ token v, v.tokens = [token] → token.Rounded →
      ∀ level ≤ options.depthLimit, P level v)
    (chunks : List (List UInt8)) : ∀ v ∈ (ofChunks options chunks).values, ∃ level, P level v := by
  have hvalues : (ofChunks options chunks).values = ((Builder.new options).pushAll
      (({ depthLimit := options.depthLimit } : Lexer).readBytes chunks.flatten).tokens).1 :=
    values_congr (unplaced_foldl_feed rfl (Builder.new options) chunks)
  have hnone : ([] : List Token.Kind).length = (Builder.new options).depth := rfl
  rw [hvalues]
  exact Builder.bears_of_mem_pushAll hP trivial hnone
    (Lexer.staysWithin_readBytes { depthLimit := options.depthLimit } (Nat.zero_le _) _)
    fun t ht v hv => hsingle t.token v hv (Lexer.rounded_of_mem_readBytes _ _ t ht)

/-- The values of a parsed text are what its chunks yield. -/
theorem values_of_parse {options : Options} {chunks : List (List UInt8)} {vs : List Value}
    (h : parse options chunks = .ok vs) : vs = (ofChunks options chunks).values := by
  rw [parse_eq_outcome] at h
  exact values_of_outcome h

end Yield

end StreamingJson
