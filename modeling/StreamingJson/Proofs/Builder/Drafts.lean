import StreamingJson.Proofs.Grammar.Text
import StreamingJson.Proofs.Pipeline.Yield
import StreamingJson.Value.Tokens

/-!
# What a builder has seen

A builder keeps merged containers only. A draft keeps all that was pushed, as complete values and
containers with their parts so far. Every token that a builder takes makes the draft behind it grow
by that token, so that a builder with nothing under construction has seen the tokens of values.

## Main definitions

- `Builder.Takes` — a builder takes tokens, hands out values and ends as another builder
- `Part`, `Draft` — containers with their parts so far, and all that was pushed
- `Draft.builder` — the builder of a draft

## Main statements

- `Draft.takes_value` — a value is taken by its tokens
- `Draft.grows_of_takes` — taken tokens make a draft grow by them
- `Builder.takes_iff` — a builder takes the tokens of containers and no others
-/

namespace StreamingJson

/-! ## Merging -/

namespace Value

/-- The members that an object has after the given ones were inserted one after the other. -/
def collected (members : List (String × Value)) : List (String × Value) :=
  members.foldl (fun done member => insertMember member.1 member.2 done) []

theorem collected_concat (members : List (String × Value)) (name : String) (v : Value) :
    collected (members ++ [(name, v)]) = insertMember name v (collected members) :=
  List.foldl_append

theorem mergedItems_append (items more : List Value) :
    mergedItems (items ++ more) = mergedItems items ++ mergedItems more := by
  induction items with
  | nil => rfl
  | cons v items ih => rw [List.cons_append, mergedItems, mergedItems, ih, List.cons_append]

theorem mergedMembers_append (members more : List (String × Value)) :
    mergedMembers (members ++ more) = mergedMembers members ++ mergedMembers more := by
  induction members with
  | nil => rfl
  | cons member members ih =>
    rw [List.cons_append, mergedMembers, mergedMembers, ih, List.cons_append]

theorem tokensOfItems_append (items more : List Value) :
    tokensOfItems (items ++ more) = tokensOfItems items ++ tokensOfItems more := by
  induction items with
  | nil => rfl
  | cons v items ih => rw [List.cons_append, tokensOfItems, tokensOfItems, ih, List.append_assoc]

theorem tokensOfMembers_append (members more : List (String × Value)) :
    tokensOfMembers (members ++ more) = tokensOfMembers members ++ tokensOfMembers more := by
  induction members with
  | nil => rfl
  | cons member members ih =>
    rw [List.cons_append, tokensOfMembers, tokensOfMembers, ih, List.cons_append, List.append_assoc]

theorem itemNamesDistinct_append {items more : List Value} :
    ItemNamesDistinct (items ++ more) ↔ ItemNamesDistinct items ∧ ItemNamesDistinct more := by
  induction items with
  | nil => simp [ItemNamesDistinct]
  | cons v items ih => simp only [List.cons_append, ItemNamesDistinct, ih, and_assoc]

theorem memberNamesDistinct_append {members more : List (String × Value)} :
    MemberNamesDistinct (members ++ more) ↔
      MemberNamesDistinct members ∧ MemberNamesDistinct more := by
  induction members with
  | nil => simp [MemberNamesDistinct]
  | cons member members ih => simp only [List.cons_append, MemberNamesDistinct, ih, and_assoc]

theorem hasMember_cons (name known : String) (v : Value) (members : List (String × Value)) :
    hasMember name ((known, v) :: members) = (decide (known = name) || hasMember name members) := by
  unfold hasMember
  rw [lookup]
  by_cases h : known = name <;> simp [h]

theorem hasMember_insertMember (name known : String) (v : Value) (members : List (String × Value)) :
    hasMember name (insertMember known v members) =
      (decide (known = name) || hasMember name members) := by
  induction members with
  | nil => rw [insertMember, hasMember_cons]
  | cons member members ih =>
    obtain ⟨other, w⟩ := member
    rw [insertMember]
    split
    next h =>
      subst h
      rw [hasMember_cons, hasMember_cons, ← Bool.or_assoc, Bool.or_self]
    next => rw [hasMember_cons, ih, hasMember_cons, Bool.or_left_comm]

theorem map_fst_mergedMembers (members : List (String × Value)) :
    (mergedMembers members).map Prod.fst = members.map Prod.fst := by
  induction members with
  | nil => rfl
  | cons member members ih => rw [mergedMembers, List.map_cons, List.map_cons, ih]

/-- The names in an object are those of the members that were inserted. -/
theorem hasMember_foldl (name : String) (members done : List (String × Value)) :
    hasMember name (members.foldl (fun done member => insertMember member.1 member.2 done) done) =
        true ↔ hasMember name done = true ∨ name ∈ members.map Prod.fst := by
  induction members generalizing done with
  | nil => simp
  | cons member members ih =>
    rw [List.foldl_cons, ih, hasMember_insertMember, Bool.or_eq_true, decide_eq_true_eq,
      List.map_cons, List.mem_cons, eq_comm (a := member.1), or_assoc, or_left_comm]

theorem hasMember_collected (name : String) (members : List (String × Value)) :
    hasMember name (collected (mergedMembers members)) = true ↔ name ∈ members.map Prod.fst := by
  rw [collected, hasMember_foldl, map_fst_mergedMembers]
  exact or_iff_right Bool.noConfusion

end Value

/-! ## Taking tokens -/

namespace Builder

/-- A builder takes tokens, hands out values and ends as another builder. -/
inductive Takes : Builder → List Token → List Value → Builder → Prop where
  | done (b : Builder) : Takes b [] [] b
  | keep {b next last : Builder} {token : Token} {tokens : List Token} {values : List Value}
    (hpush : b.push token = (.ok .incomplete, next)) (hrest : Takes next tokens values last) :
    Takes b (token :: tokens) values last
  | hand {b next last : Builder} {token : Token} {tokens : List Token} {v : Value}
    {values : List Value} (hpush : b.push token = (.ok (.value v), next))
    (hrest : Takes next tokens values last) : Takes b (token :: tokens) (v :: values) last

theorem Takes.append {b mid last : Builder} {ts us : List Token} {vs ws : List Value}
    (h : Takes b ts vs mid) (h' : Takes mid us ws last) : Takes b (ts ++ us) (vs ++ ws) last := by
  induction h with
  | done b => exact h'
  | keep hpush _ ih => exact .keep hpush (ih h')
  | hand hpush _ ih => exact .hand hpush (ih h')

theorem pushAll_of_takes {placed : List PlacedToken} {b last : Builder} {values : List Value}
    (h : Takes b (placed.map PlacedToken.token) values last) :
    b.pushAll placed = (values, .building last) := by
  induction placed generalizing b values with
  | nil =>
    cases h
    rfl
  | cons t placed ih =>
    cases h with
    | keep hpush hrest => rw [pushAll_incomplete placed hpush, ih hrest]
    | hand hpush hrest => rw [pushAll_value placed hpush, ih hrest]

theorem takes_of_pushAll {placed : List PlacedToken} {b last : Builder} {values : List Value}
    (h : b.pushAll placed = (values, .building last)) :
    Takes b (placed.map PlacedToken.token) values last := by
  induction placed generalizing b values with
  | nil =>
    cases h
    exact .done _
  | cons t placed ih =>
    rcases hpush : b.push t.token with ⟨cause | built, next⟩
    · rw [pushAll_refused placed hpush] at h
      cases h
    · cases built with
      | incomplete =>
        rw [pushAll_incomplete placed hpush] at h
        exact .keep hpush (ih h)
      | value v =>
        rw [pushAll_value placed hpush] at h
        cases hrest : next.pushAll placed with
        | mk vs outcome =>
          rw [hrest] at h
          cases h
          exact .hand hpush (ih hrest)
      | rootClosed =>
        rw [pushAll_closed placed hpush] at h
        cases h

end Builder

/-! ## Drafts -/

/-- A container with its parts so far. -/
inductive Part where
  | array (items : List Value)
  /-- The members so far and a name whose value is still to come. -/
  | object (members : List (String × Value)) (name : Option String)

namespace Part

/-- The name that the next value in the container belongs to. -/
def name : Part → Option String
  | .array _ => none
  | .object _ name => name

/-- Whether a value may come next in the container. -/
def awaits : Part → Bool
  | .array _ => true
  | .object _ name => name.isSome

/-- The container after one more value. -/
def store (v : Value) : Part → Part
  | .array items => .array (items ++ [v])
  | .object members name => .object (members ++ name.toList.map fun known => (known, v)) none

/-- The tokens of the container so far. -/
def tokens : Part → List Token
  | .array items => .startArray :: Value.tokensOfItems items
  | .object members name =>
    .startObject :: (Value.tokensOfMembers members ++ name.toList.map .fieldName)

/-- The container as a builder keeps it. -/
def container : Part → Container
  | .array items => .array (Value.mergedItems items).toArray
  | .object members _ => .object (Value.collected (Value.mergedMembers members))

/-- Whether no object has a name twice. -/
def NamesDistinct : Part → Prop
  | .array items => Value.ItemNamesDistinct items
  | .object members name =>
    (members.map Prod.fst ++ name.toList).Nodup ∧ Value.MemberNamesDistinct members

/-- The container when a token of the given kind ends it. -/
def close (found : Token.Kind) : Part → Option Value
  | .array items => if found = .endArray then some (.array items) else none
  | .object members name =>
    if found = .endObject ∧ name = none then some (.object members) else none

theorem of_close {part : Part} {token : Token} {v : Value} (h : part.close token.kind = some v) :
    v.shape.isContainer = true ∧ (part.NamesDistinct → v.NamesDistinct) ∧
      v.tokens = part.tokens ++ [token] := by
  cases part with
  | array items =>
    rw [close] at h
    split at h
    next hkind =>
      cases h
      cases token <;> cases hkind
      exact ⟨rfl, id, rfl⟩
    next => cases h
  | object members name =>
    rw [close] at h
    split at h
    next hkind =>
      cases h
      obtain ⟨hkind, rfl⟩ := hkind
      cases token <;> cases hkind
      refine ⟨rfl, fun hdistinct => ?_, ?_⟩
      · simpa [NamesDistinct, Value.NamesDistinct] using hdistinct
      · simp [tokens, Value.tokens]
    next => cases h

theorem tokens_store {part : Part} (h : part.awaits = true) (v : Value) :
    (part.store v).tokens = part.tokens ++ v.tokens := by
  cases part with
  | array items => simp [store, tokens, Value.tokensOfItems_append, Value.tokensOfItems]
  | object members name =>
    obtain ⟨known, rfl⟩ := Option.isSome_iff_exists.mp h
    simp [store, tokens, Value.tokensOfMembers_append, Value.tokensOfMembers]

theorem namesDistinct_store {part : Part} {v : Value} (h : part.NamesDistinct)
    (hv : v.NamesDistinct) : (part.store v).NamesDistinct := by
  cases part with
  | array items =>
    exact Value.itemNamesDistinct_append.mpr ⟨h, hv, trivial⟩
  | object members name =>
    obtain ⟨hnodup, hmembers⟩ := h
    cases name with
    | none =>
      refine ⟨by simpa using hnodup, ?_⟩
      exact Value.memberNamesDistinct_append.mpr ⟨hmembers, trivial⟩
    | some known =>
      refine ⟨by simpa using hnodup, ?_⟩
      exact Value.memberNamesDistinct_append.mpr ⟨hmembers, hv, trivial⟩

end Part

/-- Complete documents and the open containers behind them, innermost first. -/
structure Draft where
  documents : List Value
  parts : List Part

namespace Draft

/-- The name that the next value belongs to. -/
def name : List Part → Option String
  | [] => none
  | part :: _ => part.name

/-- The containers as a builder keeps them, each with the name it will be stored under. -/
def nests : List Part → List Nest
  | [] => []
  | part :: outer => ⟨part.container, name outer⟩ :: nests outer

/-- The builder that has seen what the draft holds. -/
def builder (duplicates : DuplicatePolicy) (d : Draft) : Builder :=
  { streamRootArray := false, duplicates, nests := nests d.parts, pending := name d.parts }

/-- The tokens of open containers, outermost first. -/
def tokensOfParts : List Part → List Token
  | [] => []
  | part :: outer => tokensOfParts outer ++ part.tokens

/-- All tokens so far. -/
def tokens (d : Draft) : List Token :=
  d.documents.flatMap Value.tokens ++ tokensOfParts d.parts

/-- All values that a builder has handed out. -/
def values (d : Draft) : List Value :=
  d.documents.map Value.merged

/-- Whether a value may come next. -/
def awaits : List Part → Bool
  | [] => true
  | part :: _ => part.awaits

/-- The draft after one more value. -/
def store (d : Draft) (v : Value) : Draft :=
  match d.parts with
  | [] => { d with documents := d.documents ++ [v] }
  | part :: outer => { d with parts := part.store v :: outer }

/-- The draft after a container is opened. -/
def start (d : Draft) (part : Part) : Draft :=
  { d with parts := part :: d.parts }

/-- What one more value completes. -/
def built (d : Draft) (v : Value) : Built :=
  if d.parts.isEmpty then .value v.merged else .incomplete

/-- Documents are containers, and no object has a name twice unless that is allowed. -/
structure Sound (duplicates : DuplicatePolicy) (d : Draft) : Prop where
  containers : ∀ v ∈ d.documents, v.shape.isContainer = true
  distinct : duplicates = .reject →
    (∀ v ∈ d.documents, v.NamesDistinct) ∧ ∀ part ∈ d.parts, part.NamesDistinct

variable {duplicates : DuplicatePolicy}

/-- Only an object whose next name is still to come awaits no value. -/
theorem of_not_awaits {parts : List Part} (h : awaits parts = false) :
    ∃ members outer, parts = .object members none :: outer := by
  cases parts with
  | nil => cases h
  | cons part outer =>
    cases part with
    | array items => cases h
    | object members known =>
      cases known with
      | none => exact ⟨members, outer, rfl⟩
      | some known => cases h

/-! ### What the builder of a draft does -/

theorem takeSlot_builder {d : Draft} (h : awaits d.parts = true) :
    (d.builder duplicates).takeSlot =
      (.ok (name d.parts), { d.builder duplicates with pending := none }) := by
  obtain ⟨documents, parts⟩ := d
  cases parts with
  | nil => rfl
  | cons part outer =>
    cases part with
    | array items => rfl
    | object members known =>
      obtain ⟨known, rfl⟩ := Option.isSome_iff_exists.mp h
      rfl

theorem takeSlot_builder_of_not_awaits {d : Draft} (h : awaits d.parts = false) :
    (d.builder duplicates).takeSlot = (.error .missingFieldName, d.builder duplicates) := by
  obtain ⟨documents, parts⟩ := d
  obtain ⟨members, outer, hparts⟩ := of_not_awaits h
  subst hparts
  rfl

theorem attach_builder {d : Draft} (h : awaits d.parts = true) (v : Value) :
    Builder.attach { d.builder duplicates with pending := none } v.merged (name d.parts) =
      (.ok (d.built v), (d.store v).builder duplicates) := by
  obtain ⟨documents, parts⟩ := d
  cases parts with
  | nil => rfl
  | cons part outer =>
    cases part with
    | array items =>
      simp [Builder.attach, builder, nests, name, store, built, Part.store, Part.container,
        Part.name, Value.mergedItems_append, Value.mergedItems]
    | object members known =>
      obtain ⟨known, rfl⟩ := Option.isSome_iff_exists.mp h
      simp [Builder.attach, builder, nests, name, store, built, Part.store, Part.container,
        Part.name, Value.mergedMembers_append, Value.mergedMembers, Value.collected_concat]

/-- A complete value is refused where a name has to come before it. -/
theorem attach_builder_of_not_awaits {d : Draft} (h : awaits d.parts = false) (v : Value) :
    Builder.attach { d.builder duplicates with pending := none } v (name d.parts) =
      (.error .missingFieldName, { d.builder duplicates with pending := none }) := by
  obtain ⟨documents, parts⟩ := d
  obtain ⟨members, outer, hparts⟩ := of_not_awaits h
  subst hparts
  rfl

theorem streaming_builder (d : Draft) (isArray : Bool) :
    (if (d.builder duplicates).nests.isEmpty then
      { d.builder duplicates with
        streaming := (d.builder duplicates).streamRootArray && isArray }
    else d.builder duplicates) = d.builder duplicates :=
  ite_self _

theorem openNest_builder {d : Draft} (h : awaits d.parts = true) (part : Part) (isArray : Bool)
    (hnew : part.name = none) :
    (d.builder duplicates).openNest part.container isArray =
      (.ok .incomplete, (d.start part).builder duplicates) := by
  simp only [Builder.openNest, streaming_builder, takeSlot_builder h]
  simp [builder, start, nests, name, hnew]

theorem openNest_builder_of_not_awaits {d : Draft} (h : awaits d.parts = false)
    (container : Container) (isArray : Bool) :
    (d.builder duplicates).openNest container isArray =
      (.error .missingFieldName, d.builder duplicates) := by
  simp only [Builder.openNest, streaming_builder, takeSlot_builder_of_not_awaits h]

theorem scalar_builder {d : Draft} (h : awaits d.parts = true) (hopen : d.parts ≠ []) {v : Value}
    (hv : v.merged = v) (kind : Token.Kind) :
    (d.builder duplicates).scalar v kind = (.ok .incomplete, (d.store v).builder duplicates) := by
  have hattach : Builder.attach { d.builder duplicates with pending := none } v.merged
      (name d.parts) = (.ok (d.built v), (d.store v).builder duplicates) := attach_builder h v
  rw [hv] at hattach
  obtain ⟨documents, parts⟩ := d
  cases parts with
  | nil => exact absurd rfl hopen
  | cons part outer =>
    rw [Builder.scalar, takeSlot_builder h]
    exact hattach

/-- A container is closed by its own token, and its value is stored or handed out. -/
theorem closeNest_builder {documents : List Value} {part : Part} {outer : List Part}
    {found : Token.Kind} {v : Value} (hclose : part.close found = some v) :
    Builder.closeNest (builder duplicates ⟨documents, part :: outer⟩) found =
      Builder.attach { builder duplicates ⟨documents, outer⟩ with pending := none } v.merged
        (name outer) := by
  cases part with
  | array items =>
    rw [Part.close] at hclose
    split at hclose
    next hfound =>
      cases hclose
      subst hfound
      simp [Builder.closeNest, builder, nests, name, Part.container, Part.name, Container.closing,
        Container.value, Value.merged]
    next => cases hclose
  | object members known =>
    rw [Part.close] at hclose
    split at hclose
    next hfound =>
      cases hclose
      obtain ⟨rfl, rfl⟩ := hfound
      simp [Builder.closeNest, builder, nests, name, Part.container, Part.name, Container.closing,
        Container.value, Value.merged, Value.ofMembers, Value.collected]
    next => cases hclose

theorem closeNest_builder_of_not_closes {documents : List Value} {part : Part} {outer : List Part}
    {found : Token.Kind} (hclose : part.close found = none) {built : Built} {next : Builder} :
    Builder.closeNest (builder duplicates ⟨documents, part :: outer⟩) found ≠
      (.ok built, next) := by
  cases part with
  | array items =>
    have hfound : .endArray ≠ found := by
      rintro rfl
      simp [Part.close] at hclose
    simp [Builder.closeNest, builder, nests, Part.container, Container.closing, hfound]
  | object members known =>
    by_cases hfound : .endObject = found
    · subst hfound
      cases known with
      | none => simp [Part.close] at hclose
      | some known =>
        simp [Builder.closeNest, builder, nests, name, Part.container, Part.name, Container.closing]
    · simp [Builder.closeNest, builder, nests, Part.container, Container.closing, hfound]

/-- A name is taken where one may stand, unless the object has it already and may not. -/
theorem fieldName_builder {documents : List Value} {members : List (String × Value)}
    {outer : List Part} {known : String}
    (hnew : duplicates = .reject → known ∉ members.map Prod.fst) :
    Builder.fieldName (builder duplicates ⟨documents, .object members none :: outer⟩) known =
      (.ok .incomplete, builder duplicates ⟨documents, .object members (some known) :: outer⟩) := by
  have hpass : ¬(duplicates = .reject &&
      Value.hasMember known (Value.collected (Value.mergedMembers members))) = true := by
    rw [Bool.and_eq_true, decide_eq_true_eq, Value.hasMember_collected]
    exact fun hboth => hnew hboth.1 hboth.2
  exact if_neg hpass

/-- A name that is taken is new to its object, or may occur again. -/
theorem of_fieldName_builder {d : Draft} {known : String} {built : Built} {next : Builder}
    (h : (d.builder duplicates).fieldName known = (.ok built, next)) :
    ∃ members outer, d.parts = .object members none :: outer ∧
      (duplicates = .reject → known ∉ members.map Prod.fst) := by
  obtain ⟨documents, parts⟩ := d
  cases parts with
  | nil => cases h
  | cons part outer =>
    cases part with
    | array items => cases h
    | object members pending =>
      cases pending with
      | some pending => cases h
      | none =>
        refine ⟨members, outer, rfl, fun hreject hknown => ?_⟩
        rw [← Value.hasMember_collected] at hknown
        simp [Builder.fieldName, builder, nests, name, Part.container, Part.name, hreject,
          hknown] at h

/-! ### Drafts grow by the tokens that are taken -/

theorem tokens_store {d : Draft} (h : awaits d.parts = true) (v : Value) :
    (d.store v).tokens = d.tokens ++ v.tokens := by
  obtain ⟨documents, parts⟩ := d
  cases parts with
  | nil => simp [store, tokens, tokensOfParts]
  | cons part outer => simp [store, tokens, tokensOfParts, Part.tokens_store h]

theorem values_store (d : Draft) (v : Value) :
    (d.store v).values = d.values ++ if d.parts.isEmpty then [v.merged] else [] := by
  obtain ⟨documents, parts⟩ := d
  cases parts with
  | nil => simp [store, values]
  | cons part outer => simp [store, values]

theorem sound_store {d : Draft} (h : d.Sound duplicates) {v : Value}
    (hcontainer : d.parts = [] → v.shape.isContainer = true)
    (hdistinct : duplicates = .reject → v.NamesDistinct) : (d.store v).Sound duplicates := by
  obtain ⟨documents, parts⟩ := d
  obtain ⟨hcontainers, hnames⟩ := h
  cases parts with
  | nil =>
    refine ⟨?_, fun hreject => ⟨?_, List.forall_mem_nil _⟩⟩
    · exact List.forall_mem_append.mpr ⟨hcontainers, List.forall_mem_singleton.mpr (hcontainer rfl)⟩
    · exact List.forall_mem_append.mpr
        ⟨(hnames hreject).1, List.forall_mem_singleton.mpr (hdistinct hreject)⟩
  | cons part outer =>
    refine ⟨hcontainers, fun hreject => ⟨(hnames hreject).1, ?_⟩⟩
    obtain ⟨hpart, houter⟩ := List.forall_mem_cons.mp (hnames hreject).2
    exact List.forall_mem_cons.mpr ⟨Part.namesDistinct_store hpart (hdistinct hreject), houter⟩

/-- One token: the draft grows by it, and by the value that it completes. -/
def Grows (duplicates : DuplicatePolicy) (d : Draft) (token : Token) (built : Built)
    (next : Builder) : Prop :=
  ∃ d' : Draft, d'.Sound duplicates ∧ next = d'.builder duplicates ∧
    d'.tokens = d.tokens ++ [token] ∧
    ((built = .incomplete ∧ d'.values = d.values) ∨
      ∃ v, built = .value v ∧ d'.values = d.values ++ [v])

variable {d : Draft} {token : Token} {built : Built} {next : Builder}

theorem grows_of_attach {outer : Draft} (houter : outer.Sound duplicates) {v : Value}
    (hcontainer : outer.parts = [] → v.shape.isContainer = true)
    (hdistinct : duplicates = .reject → v.NamesDistinct)
    (htokens : outer.tokens ++ v.tokens = d.tokens ++ [token]) (hvalues : outer.values = d.values)
    (h : Builder.attach { outer.builder duplicates with pending := none } v.merged
      (name outer.parts) = (.ok built, next)) : Grows duplicates d token built next := by
  cases hawaits : awaits outer.parts with
  | false =>
    rw [attach_builder_of_not_awaits hawaits] at h
    cases h
  | true =>
    rw [attach_builder hawaits] at h
    cases h
    refine ⟨outer.store v, sound_store houter hcontainer hdistinct, rfl, ?_, ?_⟩
    · rw [tokens_store hawaits, htokens]
    · rw [values_store, hvalues, Draft.built]
      cases outer.parts.isEmpty with
      | true => exact .inr ⟨v.merged, rfl, rfl⟩
      | false => exact .inl ⟨rfl, List.append_nil _⟩

theorem grows_of_scalar (hd : d.Sound duplicates) (v : Value) (hmerged : v.merged = v)
    (htokens : v.tokens = [token]) (hdistinct : v.NamesDistinct) {kind : Token.Kind}
    (h : (d.builder duplicates).scalar v kind = (.ok built, next)) :
    Grows duplicates d token built next := by
  obtain ⟨documents, parts⟩ := d
  cases parts with
  | nil => cases h
  | cons part outer =>
    rw [Builder.scalar] at h
    cases hawaits : awaits (part :: outer) with
    | false =>
      rw [takeSlot_builder_of_not_awaits hawaits] at h
      cases h
    | true =>
      rw [takeSlot_builder hawaits, ← hmerged] at h
      exact grows_of_attach hd (fun hnil => nomatch hnil) (fun _ => hdistinct) (by rw [htokens]) rfl
        h

theorem grows_of_openNest (hd : d.Sound duplicates) (part : Part) (hnew : part.name = none)
    (hdistinct : part.NamesDistinct) (htokens : part.tokens = [token]) {isArray : Bool}
    (h : (d.builder duplicates).openNest part.container isArray = (.ok built, next)) :
    Grows duplicates d token built next := by
  cases hawaits : awaits d.parts with
  | false =>
    rw [openNest_builder_of_not_awaits hawaits] at h
    cases h
  | true =>
    rw [openNest_builder hawaits part isArray hnew] at h
    cases h
    refine ⟨d.start part, ⟨hd.containers, fun hreject => ?_⟩, rfl, ?_, .inl ⟨rfl, rfl⟩⟩
    · obtain ⟨hdocuments, hparts⟩ := hd.distinct hreject
      exact ⟨hdocuments, List.forall_mem_cons.mpr ⟨hdistinct, hparts⟩⟩
    · rw [tokens, tokens, start, tokensOfParts, htokens, List.append_assoc]

theorem grows_of_closeNest (hd : d.Sound duplicates)
    (h : (d.builder duplicates).closeNest token.kind = (.ok built, next)) :
    Grows duplicates d token built next := by
  obtain ⟨documents, parts⟩ := d
  cases parts with
  | nil => cases h
  | cons part outer =>
    cases hclose : part.close token.kind with
    | none => exact absurd h (closeNest_builder_of_not_closes hclose)
    | some v =>
      rw [closeNest_builder hclose] at h
      obtain ⟨hcontainer, hdistinct, htokens⟩ := Part.of_close hclose
      have houter : Sound duplicates ⟨documents, outer⟩ := by
        refine ⟨hd.containers, fun hreject => ⟨(hd.distinct hreject).1, ?_⟩⟩
        exact (List.forall_mem_cons.mp (hd.distinct hreject).2).2
      refine grows_of_attach houter (fun _ => hcontainer) (fun hreject => ?_) ?_ rfl h
      · exact hdistinct ((hd.distinct hreject).2 part List.mem_cons_self)
      · simp [tokens, tokensOfParts, htokens]

theorem grows_of_fieldName (hd : d.Sound duplicates) {known : String}
    (h : (d.builder duplicates).fieldName known = (.ok built, next)) :
    Grows duplicates d (.fieldName known) built next := by
  obtain ⟨members, outer, hparts, hnew⟩ := of_fieldName_builder h
  obtain ⟨documents, parts⟩ := d
  subst hparts
  rw [fieldName_builder hnew] at h
  cases h
  refine ⟨⟨documents, .object members (some known) :: outer⟩, ⟨hd.containers, fun hreject => ?_⟩,
    rfl, ?_, .inl ⟨rfl, rfl⟩⟩
  · -- the members so far have other names
    obtain ⟨hdocuments, hparts⟩ := hd.distinct hreject
    obtain ⟨⟨hnodup, hmembers⟩, houter⟩ := List.forall_mem_cons.mp hparts
    refine ⟨hdocuments, List.forall_mem_cons.mpr ⟨⟨?_, hmembers⟩, houter⟩⟩
    rw [Option.toList_none, List.append_nil] at hnodup
    refine List.nodup_append.mpr ⟨hnodup, by simp, fun name hname other hother => ?_⟩
    rw [List.mem_singleton.mp hother]
    rintro rfl
    exact hnew hreject hname
  · simp [tokens, tokensOfParts, Part.tokens]

theorem grows_of_push (hd : d.Sound duplicates)
    (h : (d.builder duplicates).push token = (.ok built, next)) :
    Grows duplicates d token built next := by
  have hempty : Part.NamesDistinct (.object [] none) := ⟨List.nodup_nil, trivial⟩
  cases token with
  | startObject => exact grows_of_openNest hd (.object [] none) rfl hempty rfl h
  | startArray => exact grows_of_openNest hd (.array []) rfl trivial rfl h
  | endObject => exact grows_of_closeNest hd h
  | endArray => exact grows_of_closeNest hd h
  | fieldName known => exact grows_of_fieldName hd h
  | string text => exact grows_of_scalar hd (.string text) rfl rfl trivial h
  | int i => exact grows_of_scalar hd (.int i) rfl rfl trivial h
  | float x => exact grows_of_scalar hd (.float x) rfl rfl trivial h
  | bool t => exact grows_of_scalar hd (.bool t) rfl rfl trivial h
  | null => exact grows_of_scalar hd .null rfl rfl trivial h

/-- Taken tokens make a draft grow by them, and by the values that are handed out. -/
theorem grows_of_takes {tokens : List Token} {values : List Value} {last : Builder}
    (hd : d.Sound duplicates) (h : Builder.Takes (d.builder duplicates) tokens values last) :
    ∃ d' : Draft, d'.Sound duplicates ∧ last = d'.builder duplicates ∧
      d'.tokens = d.tokens ++ tokens ∧ d'.values = d.values ++ values := by
  generalize hb : d.builder duplicates = b at h
  induction h generalizing d with
  | done b => exact ⟨d, hd, hb.symm, (List.append_nil _).symm, (List.append_nil _).symm⟩
  | keep hpush _ ih =>
    subst hb
    obtain ⟨mid, hmid, rfl, htokens, ⟨-, hvalues⟩ | ⟨v, hbuilt, -⟩⟩ := grows_of_push hd hpush
    · obtain ⟨d', hd', hlast, htokens', hvalues'⟩ := ih hmid rfl
      refine ⟨d', hd', hlast, ?_, ?_⟩
      · rw [htokens', htokens, List.append_assoc, List.singleton_append]
      · rw [hvalues', hvalues]
    · cases hbuilt
  | hand hpush _ ih =>
    subst hb
    obtain ⟨mid, hmid, rfl, htokens, ⟨hbuilt, -⟩ | ⟨v, hbuilt, hvalues⟩⟩ := grows_of_push hd hpush
    · cases hbuilt
    · cases hbuilt
      obtain ⟨d', hd', hlast, htokens', hvalues'⟩ := ih hmid rfl
      refine ⟨d', hd', hlast, ?_, ?_⟩
      · rw [htokens', htokens, List.append_assoc, List.singleton_append]
      · rw [hvalues', hvalues, List.append_assoc, List.singleton_append]

/-- Where the root array is not streamed, its end is like that of any other container. -/
theorem pushAll_ne_closed (hd : d.Sound duplicates) (placed : List PlacedToken) :
    ((d.builder duplicates).pushAll placed).2 ≠ .closed := by
  induction placed generalizing d with
  | nil => exact Builder.Outcome.noConfusion
  | cons t placed ih =>
    rcases hpush : (d.builder duplicates).push t.token with ⟨cause | built, next⟩
    · rw [Builder.pushAll_refused placed hpush]
      exact Builder.Outcome.noConfusion
    · obtain ⟨d', hd', rfl, -, ⟨rfl, -⟩ | ⟨v, rfl, -⟩⟩ := grows_of_push hd hpush
      · rw [Builder.pushAll_incomplete placed hpush]
        exact ih hd'
      · rw [Builder.pushAll_value placed hpush]
        exact ih hd'

/-! ### The tokens of values are taken -/

theorem takes_scalar {kind : Token.Kind} {v : Value} (h : awaits d.parts = true)
    (hopen : d.parts ≠ []) (hmerged : v.merged = v)
    (hpush : (d.builder duplicates).push token = (d.builder duplicates).scalar v kind) :
    Builder.Takes (d.builder duplicates) [token] (if d.parts.isEmpty then [v.merged] else [])
      ((d.store v).builder duplicates) := by
  rw [if_neg (by simpa using hopen)]
  exact .keep (hpush.trans (scalar_builder h hopen hmerged kind)) (.done _)

theorem takes_end {part : Part} {v : Value} (h : awaits d.parts = true)
    (hclose : part.close token.kind = some v)
    (hpush : (builder duplicates ⟨d.documents, part :: d.parts⟩).push token =
      (builder duplicates ⟨d.documents, part :: d.parts⟩).closeNest token.kind) :
    Builder.Takes (builder duplicates ⟨d.documents, part :: d.parts⟩) [token]
      (if d.parts.isEmpty then [v.merged] else []) ((d.store v).builder duplicates) := by
  have hattach : Builder.attach { d.builder duplicates with pending := none } v.merged
      (name d.parts) = (.ok (d.built v), (d.store v).builder duplicates) := attach_builder h v
  rw [← closeNest_builder hclose, ← hpush, built] at hattach
  cases hroot : d.parts.isEmpty with
  | true =>
    rw [hroot] at hattach
    exact .hand hattach (.done _)
  | false =>
    rw [hroot] at hattach
    exact .keep hattach (.done _)

mutual

/-- A value is taken by its tokens where one may come next. -/
theorem takes_value (v : Value) (d : Draft) (h : awaits d.parts = true)
    (hplace : v.shape.isContainer = true ∨ d.parts ≠ [])
    (hdistinct : duplicates = .reject → v.NamesDistinct) :
    Builder.Takes (d.builder duplicates) v.tokens (if d.parts.isEmpty then [v.merged] else [])
      ((d.store v).builder duplicates) := by
  match v with
  | .null => exact takes_scalar h (hplace.resolve_left Bool.noConfusion) rfl rfl
  | .bool t => exact takes_scalar h (hplace.resolve_left Bool.noConfusion) rfl rfl
  | .int i => exact takes_scalar h (hplace.resolve_left Bool.noConfusion) rfl rfl
  | .float x => exact takes_scalar h (hplace.resolve_left Bool.noConfusion) rfl rfl
  | .string text => exact takes_scalar h (hplace.resolve_left Bool.noConfusion) rfl rfl
  | .array items =>
    have hitems := takes_items items d.documents [] d.parts hdistinct
    have hend : (Part.array items).close Token.endArray.kind = some (.array items) := by
      simp [Part.close, Token.kind]
    exact .keep (openNest_builder h (.array []) true rfl) (hitems.append (takes_end h hend rfl))
  | .object members =>
    have hmembers := takes_members members d.documents [] d.parts hdistinct
    have hend : (Part.object members none).close Token.endObject.kind = some (.object members) := by
      simp [Part.close, Token.kind]
    exact .keep (openNest_builder h (.object [] none) false rfl)
      (hmembers.append (takes_end h hend rfl))

theorem takes_items (items documents done : List Value) (outer : List Part)
    (hdistinct : duplicates = .reject → Value.ItemNamesDistinct items) :
    Builder.Takes (builder duplicates ⟨documents, .array done :: outer⟩)
      (Value.tokensOfItems items) []
      (builder duplicates ⟨documents, .array (done ++ items) :: outer⟩) := by
  match items with
  | [] =>
    rw [List.append_nil]
    exact .done _
  | v :: items =>
    have hv := takes_value v ⟨documents, .array done :: outer⟩ rfl (.inr (List.cons_ne_nil _ _))
      fun hreject => (hdistinct hreject).1
    have hitems := takes_items items documents (done ++ [v]) outer
      fun hreject => (hdistinct hreject).2
    rw [List.append_assoc, List.singleton_append] at hitems
    exact hv.append hitems

theorem takes_members (members : List (String × Value)) (documents : List Value)
    (done : List (String × Value)) (outer : List Part)
    (hdistinct : duplicates = .reject →
      ((done ++ members).map Prod.fst).Nodup ∧ Value.MemberNamesDistinct members) :
    Builder.Takes (builder duplicates ⟨documents, .object done none :: outer⟩)
      (Value.tokensOfMembers members) []
      (builder duplicates ⟨documents, .object (done ++ members) none :: outer⟩) := by
  match members with
  | [] =>
    rw [List.append_nil]
    exact .done _
  | (known, v) :: members =>
    have hnew : duplicates = .reject → known ∉ done.map Prod.fst := by
      intro hreject hknown
      obtain ⟨hnodup, -⟩ := hdistinct hreject
      rw [List.map_append, List.nodup_append] at hnodup
      exact hnodup.2.2 known hknown known List.mem_cons_self rfl
    have hv := takes_value v ⟨documents, .object done (some known) :: outer⟩ rfl
      (.inr (List.cons_ne_nil _ _)) fun hreject => (hdistinct hreject).2.1
    have hmembers := takes_members members documents (done ++ [(known, v)]) outer fun hreject => by
      rw [List.append_assoc, List.singleton_append]
      exact ⟨(hdistinct hreject).1, (hdistinct hreject).2.2⟩
    rw [List.append_assoc, List.singleton_append] at hmembers
    exact .keep (fieldName_builder hnew) (hv.append hmembers)

end

theorem takes_documents (documents done : List Value)
    (hcontainers : ∀ v ∈ documents, v.shape.isContainer = true)
    (hdistinct : duplicates = .reject → ∀ v ∈ documents, v.NamesDistinct) :
    Builder.Takes (builder duplicates ⟨done, []⟩) (documents.flatMap Value.tokens)
      (documents.map Value.merged) (builder duplicates ⟨done ++ documents, []⟩) := by
  induction documents generalizing done with
  | nil => exact .done _
  | cons v documents ih =>
    obtain ⟨hv, hlater⟩ := List.forall_mem_cons.mp hcontainers
    have hfirst := takes_value v ⟨done, []⟩ rfl (.inl hv)
      fun hreject => hdistinct hreject v List.mem_cons_self
    have hrest := ih (done ++ [v]) hlater
      fun hreject w hw => hdistinct hreject w (List.mem_cons_of_mem v hw)
    exact hfirst.append hrest

end Draft

/-- A builder with nothing under construction is that of the empty draft. -/
theorem Draft.sound_nil (duplicates : DuplicatePolicy) : Draft.Sound duplicates ⟨[], []⟩ :=
  ⟨List.forall_mem_nil _, fun _ => ⟨List.forall_mem_nil _, List.forall_mem_nil _⟩⟩

/-- With nothing under construction before and after, a builder takes the tokens of containers and
hands out these containers, merged. -/
theorem Builder.takes_iff {duplicates : DuplicatePolicy} {tokens : List Token}
    {values : List Value} :
    (∃ last, Takes { streamRootArray := false, duplicates } tokens values last ∧ last.depth = 0) ↔
      ∃ documents : List Value, (∀ v ∈ documents, v.shape.isContainer = true) ∧
        (duplicates = .reject → ∀ v ∈ documents, v.NamesDistinct) ∧
        tokens = documents.flatMap Value.tokens ∧ values = documents.map Value.merged := by
  constructor
  · rintro ⟨last, htakes, hdepth⟩
    obtain ⟨d, hd, rfl, htokens, hvalues⟩ :=
      Draft.grows_of_takes (Draft.sound_nil duplicates) htakes
    -- nothing is open, so that the draft consists of its documents
    obtain ⟨documents, parts⟩ := d
    cases parts with
    | nil =>
      refine ⟨documents, hd.containers, fun hreject => (hd.distinct hreject).1, ?_, hvalues.symm⟩
      exact (htokens.symm.trans (List.append_nil _))
    | cons part outer => cases hdepth
  · rintro ⟨documents, hcontainers, hdistinct, rfl, rfl⟩
    exact ⟨_, Draft.takes_documents documents [] hcontainers hdistinct, rfl⟩

end StreamingJson
