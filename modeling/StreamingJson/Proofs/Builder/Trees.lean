import StreamingJson.Proofs.Builder.Lockstep
import StreamingJson.Proofs.Builder.Merging

/-!
# The tokens that a builder takes

A builder answers every token. Where root arrays are not streamed it refuses none exactly as long as
the tokens are the beginning of a row of containers, and it answers the last token of each container
with the tree that its tokens make up, and every other token with nothing.

## Main definitions

- `Builder.answers`, `Builder.after` — what a builder answers to tokens, and what it is after them

## Main statements

- `Draft.exists_documents` — what a builder has seen can be completed to a row of containers
- `Draft.answers_documents` — what a builder answers to the tokens of a row of containers
- `Builder.builds_trees` — which tokens are refused, and what the others are answered with
-/

namespace StreamingJson

namespace Token

/-- Whether a token opens a container. -/
def opens : Token → Bool
  | .startObject | .startArray => true
  | _ => false

/-- Whether a token closes a container. -/
def closes : Token → Bool
  | .endObject | .endArray => true
  | _ => false

end Token

namespace Builder

/-! ## Answers -/

/-- What a builder answers to tokens that are pushed one after the other. -/
def answers (b : Builder) : List Token → List (Except StructureError Built)
  | [] => []
  | token :: tokens => (b.push token).1 :: (b.push token).2.answers tokens

/-- The builder after tokens were pushed. -/
def after (b : Builder) (tokens : List Token) : Builder :=
  tokens.foldl (fun b token => (b.push token).2) b

/-- Whether no token is refused. -/
def TakesAll (b : Builder) (tokens : List Token) : Prop :=
  ∀ answer ∈ b.answers tokens, ∃ built, answer = .ok built

theorem answers_append (b : Builder) (ts us : List Token) :
    b.answers (ts ++ us) = b.answers ts ++ (b.after ts).answers us := by
  induction ts generalizing b with
  | nil => rfl
  | cons t ts ih => exact congrArg ((b.push t).1 :: ·) (ih (b.push t).2)

theorem length_answers (b : Builder) (tokens : List Token) :
    (b.answers tokens).length = tokens.length := by
  induction tokens generalizing b with
  | nil => rfl
  | cons t ts ih => exact congrArg (· + 1) (ih (b.push t).2)

/-- Later tokens do not change what earlier ones are answered with. -/
theorem answers_of_isPrefix (b : Builder) {ts us : List Token} (h : ts <+: us) :
    b.answers ts = (b.answers us).take ts.length := by
  obtain ⟨more, rfl⟩ := h
  rw [answers_append, ← b.length_answers ts, List.take_left]

theorem TakesAll.of_isPrefix {b : Builder} {ts us : List Token} (h : b.TakesAll us)
    (hbegins : ts <+: us) : b.TakesAll ts := by
  intro answer hmem
  rw [b.answers_of_isPrefix hbegins] at hmem
  exact h answer (List.mem_of_mem_take hmem)

theorem takesAll_cons_iff {b : Builder} {token : Token} {tokens : List Token} :
    b.TakesAll (token :: tokens) ↔
      (∃ built, (b.push token).1 = .ok built) ∧ (b.push token).2.TakesAll tokens :=
  List.forall_mem_cons

theorem after_of_takes {b last : Builder} {tokens : List Token} {values : List Value}
    (h : Takes b tokens values last) : b.after tokens = last := by
  induction h with
  | done => rfl
  | keep hpush _ ih | hand hpush _ ih =>
    rw [← ih, after, List.foldl_cons, hpush]
    rfl

theorem takesAll_of_takes {b last : Builder} {tokens : List Token} {values : List Value}
    (h : Takes b tokens values last) : b.TakesAll tokens := by
  induction h with
  | done => exact fun _ hmem => (List.not_mem_nil hmem).elim
  | keep hpush _ ih | hand hpush _ ih =>
    refine takesAll_cons_iff.mpr ⟨⟨_, congrArg Prod.fst hpush⟩, ?_⟩
    rw [hpush]
    exact ih

/-- Tokens that complete no value are all answered with nothing. -/
theorem answers_of_takes_nil {b last : Builder} {tokens : List Token}
    (h : Takes b tokens [] last) :
    b.answers tokens = List.replicate tokens.length (.ok .incomplete) := by
  generalize hvalues : ([] : List Value) = values at h
  induction h with
  | done => rfl
  | keep hpush _ ih =>
    rw [answers, hpush, ih hvalues]
    rfl
  | hand => cases hvalues

/-! ## Open containers -/

end Builder

namespace Nest

/-- The open containers without what is in them: what closes each, and where it will be stored. -/
def outline (nests : List Nest) : List (Token.Kind × Option String) :=
  nests.map fun nest => (nest.closing, nest.slot)

theorem suits_of_outline {nests nests' : List Nest} (h : outline nests' = outline nests)
    {slot : Option String} (hsuits : Suits slot nests) : Suits slot nests' := by
  cases nests' with
  | nil => trivial
  | cons nest' outer' =>
    cases nests with
    | nil => cases h
    | cons nest outer =>
      obtain ⟨hnest, -⟩ := List.cons.inj h
      exact fun hobject => hsuits ((Prod.mk.inj hnest).1.symm.trans hobject)

theorem slotted_of_outline {nests nests' : List Nest} (h : outline nests' = outline nests)
    (hslotted : Slotted nests) : Slotted nests' := by
  induction nests generalizing nests' with
  | nil =>
    obtain rfl : nests' = [] := List.map_eq_nil_iff.mp h
    trivial
  | cons nest outer ih =>
    obtain ⟨nest', outer', rfl, hnest, houter⟩ := List.map_eq_cons_iff.mp h
    refine ⟨?_, ih houter hslotted.2⟩
    rw [(Prod.mk.inj hnest).2]
    exact suits_of_outline houter hslotted.1

/-- What a token that is taken does to the open containers. -/
inductive Changes (token : Token) : List Nest → List Nest → Prop where
  | opened (opens : token.opens = true) {nest : Nest} {nests : List Nest}
    (suits : Suits nest.slot nests) : Changes token nests (nest :: nests)
  | closed (closes : token.closes = true) {nest : Nest} {outer nests : List Nest}
    (same : outline nests = outline outer) : Changes token (nest :: outer) nests
  | kept (opens : token.opens = false) (closes : token.closes = false) {nests nests' : List Nest}
    (same : outline nests' = outline nests) : Changes token nests nests'

end Nest

namespace Builder

section

open Nest (Changes outline)

variable {b next : Builder} {token : Token} {built : Built} {slot : Option String} {v : Value}

theorem takeSlot_ok (h : b.takeSlot = (.ok slot, next)) :
    next.nests = b.nests ∧ Nest.Suits slot b.nests := by
  obtain ⟨streamRootArray, policy, nests, pending, streaming⟩ := b
  cases nests with
  | nil =>
    cases h
    exact ⟨rfl, trivial⟩
  | cons nest outer =>
    obtain ⟨container, known⟩ := nest
    cases container with
    | array items =>
      cases h
      exact ⟨rfl, fun hobject => nomatch hobject⟩
    | object members =>
      cases pending with
      | none => cases h
      | some name =>
        cases h
        exact ⟨rfl, fun _ => rfl⟩

theorem outline_attach (h : b.attach v slot = (.ok built, next)) :
    outline next.nests = outline b.nests := by
  obtain ⟨streamRootArray, policy, nests, pending, streaming⟩ := b
  cases nests with
  | nil =>
    cases h
    rfl
  | cons nest outer =>
    obtain ⟨container, known⟩ := nest
    rw [attach] at h
    dsimp only at h
    split at h
    · cases h
      rfl
    · split at h
      next items slot => cases h; rfl
      next => cases h; rfl
      next => cases h

theorem changes_openNest {container : Container} {isArray : Bool} (hopens : token.opens = true)
    (h : b.openNest container isArray = (.ok built, next)) : Changes token b.nests next.nests := by
  have hstart : (if b.nests.isEmpty then
      { b with streaming := b.streamRootArray && isArray } else b).nests = b.nests := by
    split <;> rfl
  rw [openNest] at h
  split at h
  next => cases h
  next slot b' htake =>
    cases h
    obtain ⟨hnests, hsuits⟩ := takeSlot_ok htake
    rw [hstart] at hnests hsuits
    show Changes token b.nests (⟨container, slot⟩ :: b'.nests)
    rw [hnests]
    exact .opened hopens hsuits

theorem changes_closeNest {found : Token.Kind} (hcloses : token.closes = true)
    (h : b.closeNest found = (.ok built, next)) : Changes token b.nests next.nests := by
  obtain ⟨streamRootArray, policy, nests, pending, streaming⟩ := b
  cases nests with
  | nil => cases h
  | cons nest outer =>
    rw [closeNest] at h
    dsimp only at h
    split at h
    · cases h
    · split at h
      · cases h
      · split at h
        · cases h
          exact .closed hcloses rfl
        · exact .closed hcloses (outline_attach h)

theorem changes_fieldName {name : String}
    (h : b.fieldName name = (.ok built, next)) : Changes (.fieldName name) b.nests next.nests := by
  rw [fieldName] at h
  split at h
  · cases h
  · split at h
    · cases h
    · cases h
      exact .kept rfl rfl rfl
  · cases h

theorem changes_scalar {kind : Token.Kind} (hopens : token.opens = false)
    (hcloses : token.closes = false) (h : b.scalar v kind = (.ok built, next)) :
    Changes token b.nests next.nests := by
  rw [scalar] at h
  split at h
  · cases h
  · split at h
    next => cases h
    next slot b' htake =>
      refine .kept hopens hcloses ?_
      rw [outline_attach h, (takeSlot_ok htake).1]

theorem changes_push (h : b.push token = (.ok built, next)) : Changes token b.nests next.nests := by
  cases token with
  | startObject | startArray => exact changes_openNest rfl h
  | endObject | endArray => exact changes_closeNest rfl h
  | fieldName name => exact changes_fieldName h
  | string text | int i | float x | bool t | null => exact changes_scalar rfl rfl h

/-- A token that is taken adds a container to the open ones, takes one away or leaves their number
as it is. -/
theorem depth_push (h : b.push token = (.ok built, next)) :
    next.depth + (if token.closes then 1 else 0) = b.depth + if token.opens then 1 else 0 := by
  have hlength {nests nests' : List Nest} (h : outline nests' = outline nests) :
      nests'.length = nests.length := by
    have hmap := congrArg List.length h
    rwa [outline, outline, List.length_map, List.length_map] at hmap
  have hchanges := changes_push h
  rw [depth, depth]
  generalize b.nests = nests at hchanges
  generalize next.nests = nests' at hchanges
  cases hchanges with
  | opened opens =>
    have hcloses : token.closes = false := by cases token <;> first | rfl | cases opens
    rw [opens, hcloses]
    rfl
  | closed closes same =>
    have hopens : token.opens = false := by cases token <;> first | rfl | cases closes
    rw [closes, hopens, hlength same]
    rfl
  | kept opens closes same => rw [opens, closes, hlength same]

theorem depth_after {tokens : List Token} (h : b.TakesAll tokens) :
    (b.after tokens).depth + tokens.countP Token.closes = b.depth + tokens.countP Token.opens := by
  induction tokens generalizing b with
  | nil => rfl
  | cons token tokens ih =>
    obtain ⟨⟨built, hpush⟩, hlater⟩ := takesAll_cons_iff.mp h
    have hstep : b.push token = (.ok built, (b.push token).2) := Prod.ext hpush rfl
    have hdepth := depth_push hstep
    have hafter := ih hlater
    calc (b.after (token :: tokens)).depth + (token :: tokens).countP Token.closes
        = ((b.push token).2.after tokens).depth + tokens.countP Token.closes +
            if token.closes then 1 else 0 := by
          rw [List.countP_cons, ← Nat.add_assoc]
          rfl
      _ = b.depth + (token :: tokens).countP Token.opens := by
          rw [List.countP_cons]
          omega

theorem slotted_push (hslotted : Nest.Slotted b.nests) (h : b.push token = (.ok built, next)) :
    Nest.Slotted next.nests := by
  have hchanges := changes_push h
  generalize b.nests = nests at hchanges hslotted
  generalize next.nests = nests' at hchanges
  cases hchanges with
  | opened opens suits => exact ⟨suits, hslotted⟩
  | closed closes same => exact Nest.slotted_of_outline same hslotted.2
  | kept opens closes same => exact Nest.slotted_of_outline same hslotted

theorem slotted_of_takes {tokens : List Token} {values : List Value}
    (h : Takes b tokens values next) (hslotted : Nest.Slotted b.nests) :
    Nest.Slotted next.nests := by
  induction h with
  | done => exact hslotted
  | keep hpush _ ih | hand hpush _ ih => exact ih (slotted_push hslotted hpush)

end

end Builder

/-! ## Completing what a builder has seen -/

namespace Part

/-- A container can be closed, at the latest after a value for the name that has none. -/
theorem exists_close (part : Part) :
    ∃ (v : Value) (more : List Token), v.shape.isContainer = true ∧
      (part.NamesDistinct → v.NamesDistinct) ∧ v.tokens = part.tokens ++ more := by
  cases part with
  | array items => exact ⟨.array items, [.endArray], rfl, id, rfl⟩
  | object members name =>
    cases name with
    | none =>
      have hclose : (Part.object members none).close Token.endObject.kind =
          some (.object members) := rfl
      obtain ⟨hcontainer, hdistinct, htokens⟩ := of_close hclose
      exact ⟨_, _, hcontainer, hdistinct, htokens⟩
    | some known =>
      refine ⟨.object (members ++ [(known, .null)]), [.null, .endObject], rfl, ?_, ?_⟩
      · intro hdistinct
        have hstored := namesDistinct_store (v := .null) hdistinct trivial
        simpa [store, NamesDistinct, Value.NamesDistinct] using hstored
      · simp [tokens, Value.tokens, Value.tokensOfMembers_append, Value.tokensOfMembers]

end Part

namespace Draft

variable {duplicates : DuplicatePolicy} {d : Draft}

/-- The container around an open one awaits a value. -/
theorem awaits_of_suits {parts : List Part} (h : Nest.Suits (name parts) (nests parts)) :
    awaits parts = true := by
  cases parts with
  | nil => rfl
  | cons part outer =>
    cases part with
    | array items => rfl
    | object members known => exact h rfl

theorem slotted_store {documents : List Value} {parts : List Part}
    (h : Nest.Slotted (nests parts)) (v : Value) :
    Nest.Slotted (nests (store ⟨documents, parts⟩ v).parts) := by
  cases parts with
  | nil => exact h
  | cons part outer => exact h

/-- What a builder has seen can be completed: closing one open container after the other, from the
innermost, makes a row of containers of it. -/
theorem exists_documents (hd : d.Sound duplicates) (hslotted : Nest.Slotted (nests d.parts)) :
    ∃ documents : List Value, (∀ v ∈ documents, v.shape.isContainer = true) ∧
      (duplicates = .reject → ∀ v ∈ documents, v.NamesDistinct) ∧
      d.tokens <+: documents.flatMap Value.tokens := by
  obtain ⟨documents, parts⟩ := d
  induction hcount : parts.length generalizing documents parts with
  | zero =>
    obtain rfl := List.eq_nil_of_length_eq_zero hcount
    have htokens : tokens ⟨documents, []⟩ = documents.flatMap Value.tokens := by
      rw [tokens, tokensOfParts, List.append_nil]
    exact ⟨documents, hd.containers, fun hreject => (hd.distinct hreject).1,
      htokens ▸ List.prefix_rfl⟩
  | succ count ih =>
    cases parts with
    | nil => cases hcount
    | cons part outer =>
      obtain ⟨v, more, hcontainer, hdistinct, htokens⟩ := part.exists_close
      have houter : Sound duplicates ⟨documents, outer⟩ := by
        refine ⟨hd.containers, fun hreject => ⟨(hd.distinct hreject).1, ?_⟩⟩
        exact (List.forall_mem_cons.mp (hd.distinct hreject).2).2
      have hstored : Sound duplicates (store ⟨documents, outer⟩ v) :=
        sound_store houter (fun _ => hcontainer)
          fun hreject => hdistinct ((hd.distinct hreject).2 part List.mem_cons_self)
      have hlength : (store ⟨documents, outer⟩ v).parts.length = count := by
        rw [← Nat.succ.inj hcount]
        cases outer <;> rfl
      have hgrown : (store ⟨documents, outer⟩ v).tokens =
          tokens ⟨documents, part :: outer⟩ ++ more := by
        rw [tokens_store (awaits_of_suits hslotted.1), htokens]
        simp [tokens, tokensOfParts]
      obtain ⟨later, hcontainers, hnames, hbegins⟩ :=
        ih _ _ hstored (slotted_store hslotted.2 v) hlength
      refine ⟨later, hcontainers, hnames, ?_⟩
      have hseen : tokens ⟨documents, part :: outer⟩ <+: (store ⟨documents, outer⟩ v).tokens :=
        ⟨more, hgrown.symm⟩
      exact hseen.trans hbegins

/-- Tokens none of which is refused are taken: where the root array is not streamed it does not
close. -/
theorem exists_takes (hd : d.Sound duplicates) {tokens : List Token}
    (h : (d.builder duplicates).TakesAll tokens) :
    ∃ values last, Builder.Takes (d.builder duplicates) tokens values last := by
  induction tokens generalizing d with
  | nil => exact ⟨[], _, .done _⟩
  | cons token tokens ih =>
    obtain ⟨⟨built, hpush⟩, hlater⟩ := Builder.takesAll_cons_iff.mp h
    have hstep : (d.builder duplicates).push token =
        (.ok built, ((d.builder duplicates).push token).2) := Prod.ext hpush rfl
    obtain ⟨d', hd', hnext, -, hbuilt⟩ := grows_of_push hd hstep
    rw [hnext] at hstep hlater
    obtain ⟨values, last, htakes⟩ := ih hd' hlater
    rcases hbuilt with ⟨rfl, -⟩ | ⟨v, rfl, -⟩
    · exact ⟨values, last, .keep hstep htakes⟩
    · exact ⟨v :: values, last, .hand hstep htakes⟩

/-! ## The tokens of containers -/

/-- The answers to the tokens of a container: nothing to all but the last, and to that the container
with its members merged. -/
def announced (v : Value) : List (Except StructureError Built) :=
  List.replicate (v.tokens.length - 1) (.ok .incomplete) ++ [.ok (.value v.merged)]

/-- Tokens that complete nothing and then the one that ends a container. -/
theorem answers_of_takes_end {part : Part} {v : Value} {b : Builder} {documents : List Value}
    {before : List Token} {token : Token} (htokens : v.tokens = before ++ [token])
    (htakes : Builder.Takes b before [] (builder duplicates ⟨documents, [part]⟩))
    (hend : Builder.Takes (builder duplicates ⟨documents, [part]⟩) [token] [v.merged]
      (builder duplicates ⟨documents ++ [v], []⟩)) :
    b.answers v.tokens = announced v := by
  have hlast : (builder duplicates ⟨documents, [part]⟩).answers [token] =
      [.ok (.value v.merged)] := by
    cases hend with
    | keep hpush hrest => cases hrest
    | hand hpush hrest => rw [Builder.answers, hpush, Builder.answers]
  rw [announced, htokens, Builder.answers_append, Builder.answers_of_takes_nil htakes,
    Builder.after_of_takes htakes, hlast, List.length_append, List.length_singleton,
    Nat.add_sub_cancel]

/-- With nothing open, the tokens of a container are answered with nothing but for the last. -/
theorem answers_container {v : Value} (hcontainer : v.shape.isContainer = true)
    (hdistinct : duplicates = .reject → v.NamesDistinct) (documents : List Value) :
    (builder duplicates ⟨documents, []⟩).answers v.tokens = announced v := by
  have hawaits : awaits (Draft.mk documents []).parts = true := rfl
  cases v with
  | array items =>
    have hclose : (Part.array items).close Token.endArray.kind = some (.array items) := by
      simp [Part.close, Token.kind]
    have hopen : Builder.Takes (builder duplicates ⟨documents, []⟩)
        (.startArray :: Value.tokensOfItems items) []
        (builder duplicates ⟨documents, [.array items]⟩) :=
      .keep (openNest_builder hawaits (.array []) true rfl)
        (takes_items items documents [] [] hdistinct)
    exact answers_of_takes_end rfl hopen (takes_end hawaits hclose rfl)
  | object members =>
    have hclose : (Part.object members none).close Token.endObject.kind =
        some (.object members) := by
      simp [Part.close, Token.kind]
    have hopen : Builder.Takes (builder duplicates ⟨documents, []⟩)
        (.startObject :: Value.tokensOfMembers members) []
        (builder duplicates ⟨documents, [.object members none]⟩) :=
      .keep (openNest_builder hawaits (.object [] none) false rfl)
        (takes_members members documents [] [] hdistinct)
    exact answers_of_takes_end rfl hopen (takes_end hawaits hclose rfl)
  | null | bool _ | int _ | float _ | string _ => cases hcontainer

theorem answers_documents {documents : List Value}
    (hcontainers : ∀ v ∈ documents, v.shape.isContainer = true)
    (hdistinct : duplicates = .reject → ∀ v ∈ documents, v.NamesDistinct) (done : List Value) :
    (builder duplicates ⟨done, []⟩).answers (documents.flatMap Value.tokens) =
      documents.flatMap announced := by
  induction documents generalizing done with
  | nil => rfl
  | cons v documents ih =>
    obtain ⟨hv, hlater⟩ := List.forall_mem_cons.mp hcontainers
    have hnames : duplicates = .reject → v.NamesDistinct :=
      fun hreject => hdistinct hreject v List.mem_cons_self
    have htakes : Builder.Takes (builder duplicates ⟨done, []⟩) v.tokens [v.merged]
        (builder duplicates ⟨done ++ [v], []⟩) := takes_value v ⟨done, []⟩ rfl (.inl hv) hnames
    rw [List.flatMap_cons, List.flatMap_cons, Builder.answers_append, answers_container hv hnames,
      Builder.after_of_takes htakes, ih hlater _ (done ++ [v])]
    exact fun hreject w hw => hdistinct hreject w (List.mem_cons_of_mem v hw)

end Draft

/-- A builder that does not stream root arrays refuses none of the tokens it is given exactly if
they are the beginning of a row of containers, in none of which an object has a name twice where
that is refused. It answers each token that ends a container of the row with that container, its
members merged, and the others with nothing, and its depth is the number of containers that are
opened and not closed. Merged members stand in the order in which their names first occurred, each
with the value that the name had last. So the tokens of a container in which no object has a name
twice give just that container. -/
theorem Builder.builds_trees (duplicates : DuplicatePolicy) (tokens : List Token) :
    let b := Builder.new { streamRootArray := false, duplicates }
    ((∀ answer ∈ b.answers tokens, ∃ built, answer = .ok built) ↔
        ∃ documents : List Value, (∀ v ∈ documents, v.shape.isContainer = true) ∧
          (duplicates = .reject → ∀ v ∈ documents, v.NamesDistinct) ∧
          tokens <+: documents.flatMap Value.tokens) ∧
      (∀ documents : List Value, (∀ v ∈ documents, v.shape.isContainer = true) →
        (duplicates = .reject → ∀ v ∈ documents, v.NamesDistinct) →
        tokens <+: documents.flatMap Value.tokens →
        b.answers tokens =
            (documents.flatMap fun v =>
              List.replicate (v.tokens.length - 1) (.ok .incomplete) ++
                [.ok (.value v.merged)]).take tokens.length ∧
          ∀ pushed, pushed <+: tokens →
            (b.after pushed).depth + pushed.countP Token.closes = pushed.countP Token.opens) ∧
      (∀ members, Value.merged (.object members) =
          .object (Value.collected (Value.mergedMembers members)) ∧
        (Value.collected members).map Prod.fst = (members.map Prod.fst).eraseDups ∧
        ∀ name, Value.lookup name (Value.collected members) =
          Value.lookup name members.reverse) ∧
      ∀ v : Value, v.shape.isContainer = true → v.NamesDistinct →
        b.answers v.tokens =
          List.replicate (v.tokens.length - 1) (.ok .incomplete) ++ [.ok (.value v)] := by
  intro b
  have hanswers {documents : List Value} (hcontainers : ∀ v ∈ documents, v.shape.isContainer = true)
      (hdistinct : duplicates = .reject → ∀ v ∈ documents, v.NamesDistinct)
      (hbegins : tokens <+: documents.flatMap Value.tokens) :
      b.answers tokens = (documents.flatMap Draft.announced).take tokens.length := by
    rw [b.answers_of_isPrefix hbegins]
    exact congrArg (List.take _) (Draft.answers_documents hcontainers hdistinct [])
  have htakesAll {documents : List Value}
      (hcontainers : ∀ v ∈ documents, v.shape.isContainer = true)
      (hdistinct : duplicates = .reject → ∀ v ∈ documents, v.NamesDistinct)
      (hbegins : tokens <+: documents.flatMap Value.tokens) : b.TakesAll tokens :=
    (takesAll_of_takes
      (Draft.takes_documents documents [] hcontainers hdistinct)).of_isPrefix hbegins
  refine ⟨⟨?_, ?_⟩, ?_, ?_, ?_⟩
  · -- what was taken is a draft, and a draft can be completed
    intro htakes
    have hnew := Draft.sound_nil duplicates
    obtain ⟨values, last, hlast⟩ := Draft.exists_takes hnew htakes
    obtain ⟨d, hd, rfl, htokens, -⟩ := Draft.grows_of_takes hnew hlast
    obtain ⟨documents, hcontainers, hdistinct, hbegins⟩ :=
      Draft.exists_documents hd (slotted_of_takes hlast trivial)
    rw [htokens] at hbegins
    exact ⟨documents, hcontainers, hdistinct, hbegins⟩
  · rintro ⟨documents, hcontainers, hdistinct, hbegins⟩
    exact htakesAll hcontainers hdistinct hbegins
  · intro documents hcontainers hdistinct hbegins
    refine ⟨hanswers hcontainers hdistinct hbegins, fun pushed hpushed => ?_⟩
    have hdepth := depth_after ((htakesAll hcontainers hdistinct hbegins).of_isPrefix hpushed)
    rw [hdepth]
    exact Nat.zero_add _
  · intro members
    exact ⟨rfl, Value.map_fst_collected members, fun name => Value.lookup_collected name members⟩
  · intro v hcontainer hdistinct
    have hcontainer : (Draft.builder duplicates ⟨[], []⟩).answers v.tokens = Draft.announced v :=
      Draft.answers_container hcontainer (fun _ => hdistinct) []
    rw [Draft.announced, Value.merged_eq_self v hdistinct] at hcontainer
    exact hcontainer

example : (Builder.new {}).answers
    [.startObject, .fieldName "a", .int 1, .fieldName "b", .null, .fieldName "a", .startArray,
      .endArray, .endObject] =
    List.replicate 8 (.ok .incomplete) ++
      [.ok (.value (.object [("a", .array []), ("b", .null)]))] := by
  decide

end StreamingJson
