import StreamingJson.Proofs.Builder.Trees

/-!
# The names that objects have received

Tokens alone tell which names the open containers have received: a name goes to the innermost of
them. A builder keeps the names of complete members only, and the name whose value is still to come
in the slot of that value. Together these are the names received, also where the items of a root
array are handed out.

## Main definitions

- `Token.namesAfter`, `openNames` — the names that the open containers have received
- `NamesFresh` — no container receives a name twice
- `Builder.Knows` — a builder keeps the names that its containers have received

## Main statements

- `foldl_namesAfter_tokens` — what is inside a complete value does not count
- `Builder.Knows.push`, `Builder.Knows.of_takes` — tokens keep this up
- `Builder.Knows.hasMember_iff` — where a name may come, the members have the names received
-/

namespace StreamingJson

/-! ## Names among tokens -/

/-- The names that the open containers have received, innermost container first, after one more
token. -/
def Token.namesAfter (names : List (List String)) : Token → List (List String)
  | .startObject | .startArray => [] :: names
  | .endObject | .endArray => names.tail
  | .fieldName name =>
    match names with
    | [] => []
    | received :: outer => (received ++ [name]) :: outer
  | .string _ | .int _ | .float _ | .bool _ | .null => names

/-- The names that the containers which the tokens leave open have received, innermost container
first. -/
def openNames (tokens : List Token) : List (List String) :=
  tokens.foldl Token.namesAfter []

/-- No container receives a name twice among the tokens, where the open containers have received the
given names before. -/
def NamesFresh (names : List (List String)) : List Token → Prop
  | [] => True
  | token :: tokens =>
    (∀ name, token = .fieldName name → name ∉ names.headD []) ∧
      NamesFresh (token.namesAfter names) tokens

mutual

/-- A complete value leaves what the containers around it have received as it is. -/
theorem foldl_namesAfter_tokens (v : Value) (names : List (List String)) :
    v.tokens.foldl Token.namesAfter names = names := by
  match v with
  | .null | .bool t | .int i | .float x | .string text => rfl
  | .array items =>
    rw [Value.tokens, List.foldl_cons, List.foldl_append, Token.namesAfter,
      foldl_namesAfter_tokensOfItems]
    rfl
  | .object members =>
    rw [Value.tokens, List.foldl_cons, List.foldl_append, Token.namesAfter,
      foldl_namesAfter_tokensOfMembers]
    rfl

theorem foldl_namesAfter_tokensOfItems (items : List Value) (names : List (List String)) :
    (Value.tokensOfItems items).foldl Token.namesAfter names = names := by
  match items with
  | [] => rfl
  | v :: items =>
    rw [Value.tokensOfItems, List.foldl_append, foldl_namesAfter_tokens,
      foldl_namesAfter_tokensOfItems]

/-- Members leave their names with the object that they are in. -/
theorem foldl_namesAfter_tokensOfMembers (members : List (String × Value)) (received : List String)
    (names : List (List String)) :
    (Value.tokensOfMembers members).foldl Token.namesAfter (received :: names) =
      (received ++ members.map Prod.fst) :: names := by
  match members with
  | [] => rw [List.map_nil, List.append_nil]; rfl
  | (known, v) :: members =>
    rw [Value.tokensOfMembers, List.foldl_cons, List.foldl_append, Token.namesAfter,
      foldl_namesAfter_tokens, foldl_namesAfter_tokensOfMembers, List.map_cons, List.append_assoc,
      List.singleton_append]

end

/-! ## Names in a builder -/

/-- A container keeps the names that it has received: those of its members, and the name whose value
is still to come. -/
def Container.Keeps (waiting : Option String) (received : List String) : Container → Prop
  | .array _ => waiting = none
  | .object members =>
    ∀ name, name ∈ received ↔ Value.hasMember name members = true ∨ waiting = some name

/-- The open containers keep the names that they have received, the innermost one with the name that
waits for its value. If the outermost container is streamed it is an array. -/
def Nest.Keep (streaming : Bool) : Option String → List Nest → List (List String) → Prop
  | waiting, [], [] => waiting = none
  | waiting, nest :: outer, received :: names =>
    nest.container.Keeps waiting received ∧
      ((streaming && outer.isEmpty) = true → nest.closing = .endArray) ∧
      Keep streaming nest.slot outer names
  | _, _, _ => False

namespace Builder

/-- A builder keeps the names that its containers have received. -/
def Knows (b : Builder) (names : List (List String)) : Prop :=
  Nest.Keep b.streaming b.pending b.nests names

theorem knows_new (options : Options) : (Builder.new options).Knows [] := rfl

variable {b next : Builder} {names : List (List String)} {built : Built} {slot : Option String}
  {v : Value} {token : Token}

namespace Knows

/-- A value that starts takes the name that waits, if any. -/
theorem takeSlot (h : b.Knows names) (htake : b.takeSlot = (.ok slot, next)) :
    slot = b.pending ∧ next = { b with pending := none } := by
  obtain ⟨streamRootArray, policy, nests, pending, streaming⟩ := b
  cases nests with
  | nil =>
    cases names with
    | cons received names => exact h.elim
    | nil =>
      obtain rfl : pending = none := h
      cases htake
      exact ⟨rfl, rfl⟩
  | cons nest outer =>
    obtain ⟨container, known⟩ := nest
    cases names with
    | nil => exact h.elim
    | cons received names =>
      cases container with
      | array items =>
        obtain rfl : pending = none := h.1
        cases htake
        exact ⟨rfl, rfl⟩
      | object members =>
        cases pending with
        | none => cases htake
        | some name =>
          cases htake
          exact ⟨rfl, rfl⟩

end Knows

/-- A value that is stored turns the name that it takes into that of a member. -/
theorem knows_attach (h : Nest.Keep b.streaming slot b.nests names) (hpending : b.pending = none)
    (hattach : b.attach v slot = (.ok built, next)) : next.Knows names := by
  obtain ⟨streamRootArray, policy, nests, pending, streaming⟩ := b
  obtain rfl : pending = none := hpending
  cases nests with
  | nil =>
    cases names with
    | cons received names => exact h.elim
    | nil =>
      cases hattach
      rfl
  | cons nest outer =>
    obtain ⟨container, known⟩ := nest
    cases names with
    | nil => exact h.elim
    | cons received names =>
      obtain ⟨hkeeps, hstreamed, houter⟩ := h
      rw [attach] at hattach
      dsimp only at hattach
      split at hattach
      next hroot =>
        cases hattach
        cases container with
        | array items => exact ⟨rfl, hstreamed, houter⟩
        | object members => cases hstreamed hroot
      next =>
        split at hattach
        next items slot =>
          cases hattach
          exact ⟨rfl, fun _ => rfl, houter⟩
        next members name =>
          cases hattach
          refine ⟨fun other => ?_, hstreamed, houter⟩
          rw [hkeeps other, Value.hasMember_insertMember, Bool.or_eq_true, decide_eq_true_eq,
            Option.some.injEq, or_comm]
          exact (or_iff_left (Option.some_ne_none other).symm).symm
        next => cases hattach

namespace Knows

/-- A container that starts has received no name. -/
theorem openNest (h : b.Knows names) {container : Container} {isArray : Bool}
    (hempty : container.Keeps none []) (hkind : isArray = true → container.closing = .endArray)
    (hopen : b.openNest container isArray = (.ok built, next)) : next.Knows ([] :: names) := by
  -- outside containers it may be one that is streamed
  have hstart : Knows (if b.nests.isEmpty then
      { b with streaming := b.streamRootArray && isArray } else b) names := by
    split
    next hnone =>
      obtain ⟨streamRootArray, policy, nests, pending, streaming⟩ := b
      obtain rfl := List.isEmpty_iff.mp hnone
      cases names with
      | nil => exact h
      | cons received names => exact h.elim
    next => exact h
  have hroot (start : Builder) (hsame : (if b.nests.isEmpty then
      { b with streaming := b.streamRootArray && isArray } else b) = start)
      (hstreamed : (start.streaming && start.nests.isEmpty) = true) : isArray = true := by
    obtain ⟨hstreaming, hnone⟩ := Bool.and_eq_true_iff.mp hstreamed
    split at hsame
    next =>
      rw [← hsame] at hstreaming
      exact (Bool.and_eq_true_iff.mp hstreaming).2
    next hsome =>
      rw [← hsame] at hnone
      exact absurd hnone hsome
  rw [Builder.openNest] at hopen
  generalize (if b.nests.isEmpty then
      { b with streaming := b.streamRootArray && isArray } else b) = start at hstart hroot hopen
  split at hopen
  next => cases hopen
  next slot b' htake =>
    cases hopen
    obtain ⟨rfl, rfl⟩ := hstart.takeSlot htake
    exact ⟨hempty, fun hstreamed => hkind (hroot start rfl hstreamed), hstart⟩

theorem closeNest (h : b.Knows names) {found : Token.Kind}
    (hclose : b.closeNest found = (.ok built, next)) : next.Knows names.tail := by
  obtain ⟨streamRootArray, policy, nests, pending, streaming⟩ := b
  cases nests with
  | nil => cases hclose
  | cons nest outer =>
    cases names with
    | nil => exact h.elim
    | cons received names =>
      obtain ⟨-, -, houter⟩ := h
      rw [Builder.closeNest] at hclose
      dsimp only at hclose
      split at hclose
      · cases hclose
      split at hclose
      · cases hclose
      split at hclose
      next hroot =>
        cases hclose
        obtain rfl := List.isEmpty_iff.mp (Bool.and_eq_true_iff.mp hroot).2
        cases names with
        | nil => rfl
        | cons received names => exact houter.elim
      next =>
        exact knows_attach (b := ⟨streamRootArray, policy, outer, none, streaming⟩) houter rfl
          hclose

/-- A name waits for its value from now on. -/
theorem fieldName (h : b.Knows names) {name : String}
    (hname : b.fieldName name = (.ok built, next)) :
    next.Knows ((Token.fieldName name).namesAfter names) := by
  obtain ⟨streamRootArray, policy, nests, pending, streaming⟩ := b
  rw [Builder.fieldName] at hname
  split at hname
  next => cases hname
  next members slot outer hnests hpending =>
    split at hname
    · cases hname
    · cases hname
      obtain rfl : nests = ⟨.object members, slot⟩ :: outer := hnests
      obtain rfl : pending = none := hpending
      cases names with
      | nil => exact h.elim
      | cons received names =>
        obtain ⟨hkeeps, hstreamed, houter⟩ := h
        refine ⟨fun other => ?_, hstreamed, houter⟩
        rw [List.mem_append, hkeeps other, List.mem_singleton, Option.some.injEq,
          eq_comm (a := name)]
        exact or_congr_left (or_iff_left (Option.some_ne_none other).symm)
  next => cases hname

theorem scalar (h : b.Knows names) {kind : Token.Kind}
    (hscalar : b.scalar v kind = (.ok built, next)) : next.Knows names := by
  rw [Builder.scalar] at hscalar
  split at hscalar
  · cases hscalar
  · split at hscalar
    next => cases hscalar
    next slot b' htake =>
      obtain ⟨rfl, rfl⟩ := h.takeSlot htake
      exact knows_attach (b := { b with pending := none }) h rfl hscalar

/-- A token that is taken keeps the account of names. -/
theorem push (h : b.Knows names) (hpush : b.push token = (.ok built, next)) :
    next.Knows (token.namesAfter names) := by
  have hnothing : (Container.object []).Keeps none [] := fun name => by
    simp [Value.hasMember, Value.lookup]
  cases token with
  | startObject => exact h.openNest hnothing (fun harray => Bool.noConfusion harray) hpush
  | startArray =>
    have hitems : (Container.array #[]).Keeps none [] := rfl
    exact h.openNest hitems (fun _ => rfl) hpush
  | endObject | endArray => exact h.closeNest hpush
  | fieldName name => exact h.fieldName hpush
  | string text | int i | float x | bool t | null => exact h.scalar hpush

theorem of_takes {tokens : List Token} {values : List Value} (h : b.Knows names)
    (htakes : Takes b tokens values next) :
    next.Knows (tokens.foldl Token.namesAfter names) := by
  induction htakes generalizing names with
  | done => exact h
  | keep hpush _ ih | hand hpush _ ih => exact ih (h.push hpush)

/-- Where a name may come, the members of the innermost object have the names received. -/
theorem hasMember_iff (h : b.Knows names) {members : List (String × Value)} {outer : List Nest}
    (hnests : b.nests = ⟨.object members, slot⟩ :: outer) (hpending : b.pending = none)
    (name : String) : Value.hasMember name members = true ↔ name ∈ names.headD [] := by
  rw [Knows, hnests, hpending] at h
  cases names with
  | nil => exact h.elim
  | cons received names =>
    rw [List.headD_cons, h.1 name]
    exact (or_iff_left (Option.some_ne_none name).symm).symm

end Knows

end Builder

end StreamingJson
