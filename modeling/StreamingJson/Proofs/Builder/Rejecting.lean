import StreamingJson.Proofs.Builder.Names
import StreamingJson.Proofs.Builder.Tidy

/-!
# Rejecting names that occur again

A builder that rejects names that occur again does with each token what a builder does that keeps
the last member of each name, but for a name that the innermost object has received already. So it
takes the tokens that the other takes as long as no name is received twice in one object.

## Main definitions

- `Builder.rejecting` — the builder that rejects names that occur again and is otherwise the same
- `Builder.repeats` — whether a name occurs again
- `Builder.Rejects` — what the two builders do with one token

## Main statements

- `Builder.rejects_push` — this is what they do
- `Builder.takes_rejecting`, `Builder.takes_of_rejecting` — the tokens that the two take
-/

namespace StreamingJson

namespace Builder

/-- The builder that rejects names that occur again and is otherwise the same. -/
def rejecting (b : Builder) : Builder :=
  { b with duplicates := .reject }

/-- Whether a name that comes now goes to an object that has a member of this name. -/
def repeats (b : Builder) (name : String) : Bool :=
  match b.nests, b.pending with
  | ⟨.object members, _⟩ :: _, none => Value.hasMember name members
  | _, _ => false

/-- What becomes of a token in a builder that keeps the last member of each name, and in the one
that rejects names that occur again. -/
inductive Rejects (b : Builder) (token : Token) :
    Except StructureError Built × Builder → Except StructureError Built × Builder → Prop where
  /-- The same. -/
  | agrees (fresh : ∀ name, token = .fieldName name → b.repeats name = false)
    (answer : Except StructureError Built) (next : Builder) :
    Rejects b token (answer, next) (answer, next.rejecting)
  /-- A name occurs again. -/
  | again {name : String} (isName : token = .fieldName name) (repeats : b.repeats name = true)
    (next : Builder) :
    Rejects b token (.ok .incomplete, next) (.error (.duplicateKey name), b.rejecting)

variable {b next last : Builder} {names : List (List String)} {token : Token} {built : Built}

/-! ### One token -/

theorem takeSlot_rejecting (b : Builder) :
    b.rejecting.takeSlot = Prod.map id rejecting b.takeSlot := by
  obtain ⟨streamRootArray, policy, nests, pending, streaming⟩ := b
  rcases nests with _ | ⟨⟨_ | _, slot⟩, outer⟩ <;> cases pending <;> rfl

theorem attach_rejecting (b : Builder) (v : Value) (slot : Option String) :
    b.rejecting.attach v slot = Prod.map id rejecting (b.attach v slot) := by
  obtain ⟨streamRootArray, policy, nests, pending, streaming⟩ := b
  cases nests with
  | nil => rfl
  | cons nest outer =>
    obtain ⟨container, known⟩ := nest
    cases hroot : streaming && outer.isEmpty <;> cases container <;> cases slot <;>
      simp [attach, rejecting, hroot]

theorem openNest_rejecting (b : Builder) (container : Container) (isArray : Bool) :
    b.rejecting.openNest container isArray =
      Prod.map id rejecting (b.openNest container isArray) := by
  have hstart : (if b.rejecting.nests.isEmpty then
      { b.rejecting with streaming := b.rejecting.streamRootArray && isArray } else b.rejecting) =
        (if b.nests.isEmpty then
          { b with streaming := b.streamRootArray && isArray } else b).rejecting := by
    cases hempty : b.nests.isEmpty <;> simp [rejecting, hempty]
  rw [openNest, openNest, hstart, takeSlot_rejecting]
  generalize takeSlot _ = r
  obtain ⟨_ | slot, b'⟩ := r <;> rfl

theorem closeNest_rejecting (b : Builder) (found : Token.Kind) :
    b.rejecting.closeNest found = Prod.map id rejecting (b.closeNest found) := by
  obtain ⟨streamRootArray, policy, nests, pending, streaming⟩ := b
  cases nests with
  | nil => rfl
  | cons nest outer =>
    by_cases hkind : nest.container.closing = found
    · cases pending with
      | some name => simp [closeNest, rejecting, hkind]
      | none =>
        cases hroot : streaming && outer.isEmpty with
        | true => simp [closeNest, rejecting, hkind, hroot]
        | false =>
          simp only [closeNest, rejecting, hkind, hroot, ne_eq, not_true_eq_false,
            Bool.false_eq_true, if_false]
          exact attach_rejecting ⟨streamRootArray, policy, outer, none, streaming⟩ _ _
    · simp [closeNest, rejecting, hkind]

theorem scalar_rejecting (b : Builder) (v : Value) (kind : Token.Kind) :
    b.rejecting.scalar v kind = Prod.map id rejecting (b.scalar v kind) := by
  have hnests : b.rejecting.nests = b.nests := rfl
  rw [scalar, scalar, hnests, takeSlot_rejecting]
  by_cases hempty : b.nests.isEmpty = true
  · rw [if_pos hempty, if_pos hempty]
    rfl
  · rw [if_neg hempty, if_neg hempty]
    rcases b.takeSlot with ⟨_ | slot, b'⟩
    · rfl
    · exact attach_rejecting b' v slot

theorem rejects_fieldName (h : b.duplicates = .keepLast) (name : String) :
    Rejects b (.fieldName name) (b.fieldName name) (b.rejecting.fieldName name) := by
  obtain ⟨streamRootArray, policy, nests, pending, streaming⟩ := b
  obtain rfl : policy = .keepLast := h
  have hagrees {answer : Except StructureError Built} {b next : Builder}
      (hfresh : b.repeats name = false) :
      Rejects b (.fieldName name) (answer, next) (answer, next.rejecting) := by
    refine .agrees (fun other hother => ?_) answer next
    rw [← Token.fieldName.inj hother]
    exact hfresh
  cases nests with
  | nil => exact hagrees rfl
  | cons nest outer =>
    obtain ⟨container, slot⟩ := nest
    cases container with
    | array items => cases pending <;> exact hagrees rfl
    | object members =>
      cases pending with
      | some waiting => exact hagrees rfl
      | none =>
        cases hmember : Value.hasMember name members with
        | true =>
          simp only [fieldName, rejecting, hmember, Bool.and_true, decide_true, if_true]
          refine .again rfl ?_ _
          exact hmember
        | false =>
          simp only [fieldName, rejecting, hmember, Bool.and_false, Bool.false_eq_true, if_false]
          exact hagrees hmember

theorem rejects_of_eq (hname : ∀ name, token ≠ .fieldName name)
    {r r' : Except StructureError Built × Builder} (h : r' = Prod.map id rejecting r) :
    Rejects b token r r' := by
  subst h
  exact .agrees (fun name hisName => absurd hisName (hname name)) r.1 r.2

/-- The two builders do the same with a token, but for a name that occurs again. -/
theorem rejects_push (h : b.duplicates = .keepLast) (token : Token) :
    Rejects b token (b.push token) (b.rejecting.push token) := by
  cases token with
  | startObject | startArray =>
    exact rejects_of_eq (fun _ hname => Token.noConfusion hname) (openNest_rejecting b _ _)
  | endObject | endArray =>
    exact rejects_of_eq (fun _ hname => Token.noConfusion hname) (closeNest_rejecting b _)
  | fieldName name => exact rejects_fieldName h name
  | string text | int i | float x | bool t | null =>
    exact rejects_of_eq (fun _ hname => Token.noConfusion hname) (scalar_rejecting b _ _)

/-- Tokens do not change what is done with names that occur again. -/
theorem duplicates_push {answer : Except StructureError Built}
    (h : b.push token = (answer, next)) : next.duplicates = b.duplicates := by
  have hsettings := (keeps_push b token).settings
  rw [h] at hsettings
  have hsame := congrArg duplicates hsettings
  exact hsame

/-- A name that is taken goes to the innermost object, and it occurs again if this has received it
already. -/
theorem repeats_iff (hb : b.Knows names) {name : String}
    (hpush : b.push (.fieldName name) = (.ok built, next)) :
    b.repeats name = true ↔ name ∈ names.headD [] := by
  have hname : b.fieldName name = (.ok built, next) := hpush
  rw [fieldName] at hname
  split at hname
  next => cases hname
  next members slot outer hnests hpending =>
    rw [repeats, hnests, hpending]
    exact hb.hasMember_iff hnests hpending name
  next => cases hname

/-- A token that is taken where names that occur again are rejected is taken where they are not, and
if it is a name it does not occur again. -/
theorem push_of_rejecting (h : b.duplicates = .keepLast) (hb : b.Knows names)
    (hpush : b.rejecting.push token = (.ok built, last)) :
    ∃ next : Builder, last = next.rejecting ∧ b.push token = (.ok built, next) ∧
      ∀ name, token = .fieldName name → name ∉ names.headD [] := by
  have hrejects := rejects_push h token
  rw [hpush] at hrejects
  generalize hpush' : b.push token = r at hrejects
  cases hrejects with
  | agrees fresh answer next =>
    refine ⟨next, rfl, rfl, ?_⟩
    rintro name rfl hmem
    exact absurd ((repeats_iff hb hpush').mpr hmem) (Bool.eq_false_iff.mp (fresh name rfl))

/-! ### Refusals -/

theorem takeSlot_ne_again (b : Builder) (name : String) :
    b.takeSlot.1 ≠ .error (.duplicateKey name) := by
  rw [takeSlot]
  split
  · split <;> simp
  · simp

theorem attach_ne_again (b : Builder) (v : Value) (slot : Option String) (name : String) :
    (b.attach v slot).1 ≠ .error (.duplicateKey name) := by
  rw [attach]
  split
  · simp
  · split
    · simp
    · split <;> simp

theorem openNest_ne_again (b : Builder) (container : Container) (isArray : Bool) (name : String) :
    (b.openNest container isArray).1 ≠ .error (.duplicateKey name) := by
  rw [openNest]
  split
  next cause b' htake =>
    intro hcause
    exact takeSlot_ne_again _ name (by rw [htake, Except.error.inj hcause])
  next => simp

theorem closeNest_ne_again (b : Builder) (found : Token.Kind) (name : String) :
    (b.closeNest found).1 ≠ .error (.duplicateKey name) := by
  rw [closeNest]
  split
  · simp
  · dsimp only
    split
    · simp
    · split
      · simp
      · split
        · simp
        · exact attach_ne_again _ _ _ name

theorem scalar_ne_again (b : Builder) (v : Value) (kind : Token.Kind) (name : String) :
    (b.scalar v kind).1 ≠ .error (.duplicateKey name) := by
  rw [scalar]
  split
  · simp
  · split
    next cause b' htake =>
      intro hcause
      exact takeSlot_ne_again b name (by rw [htake, Except.error.inj hcause])
    next => exact attach_ne_again _ _ _ name

theorem fieldName_ne_again (h : b.duplicates = .keepLast) (known name : String) :
    (b.fieldName known).1 ≠ .error (.duplicateKey name) := by
  rw [fieldName, h]
  split
  · simp
  · simp
  · simp

/-- A builder that keeps the last member of each name refuses no name for occurring again. -/
theorem push_ne_again (h : b.duplicates = .keepLast) (token : Token) (name : String) :
    (b.push token).1 ≠ .error (.duplicateKey name) := by
  cases token with
  | startObject | startArray => exact openNest_ne_again b _ _ name
  | endObject | endArray => exact closeNest_ne_again b _ name
  | fieldName known => exact fieldName_ne_again h known name
  | string text | int i | float x | bool t | null => exact scalar_ne_again b _ _ name

/-! ### Many tokens -/

theorem Takes.exists_mid {ts us : List Token} {values : List Value}
    (h : Takes b (ts ++ us) values last) :
    ∃ vs ws mid, Takes b ts vs mid ∧ Takes mid us ws last := by
  induction ts generalizing b values with
  | nil => exact ⟨[], values, b, .done b, h⟩
  | cons t ts ih =>
    cases h with
    | keep hpush hrest =>
      obtain ⟨vs, ws, mid, hts, hus⟩ := ih hrest
      exact ⟨vs, ws, mid, .keep hpush hts, hus⟩
    | hand hpush hrest =>
      obtain ⟨vs, ws, mid, hts, hus⟩ := ih hrest
      exact ⟨_, ws, mid, .hand hpush hts, hus⟩

theorem duplicates_of_takes {tokens : List Token} {values : List Value}
    (h : Takes b tokens values last) : last.duplicates = b.duplicates := by
  induction h with
  | done => rfl
  | keep hpush _ ih | hand hpush _ ih => exact ih.trans (duplicates_push hpush)

/-- Where no name is received twice, the builder that rejects such names takes the same tokens. -/
theorem takes_rejecting (h : b.duplicates = .keepLast) (hb : b.Knows names) {tokens : List Token}
    {values : List Value} (htakes : Takes b tokens values last)
    (hfresh : NamesFresh names tokens) : Takes b.rejecting tokens values last.rejecting := by
  induction htakes generalizing names with
  | done b => exact .done _
  | @keep b next last token tokens values hpush hrest ih =>
    have hrejects := rejects_push h token
    rw [hpush] at hrejects
    generalize hpush' : b.rejecting.push token = r at hrejects
    cases hrejects with
    | agrees fresh =>
      exact .keep hpush' (ih ((duplicates_push hpush).trans h) (hb.push hpush) hfresh.2)
    | @again name isName repeats =>
      subst isName
      exact absurd ((repeats_iff hb hpush).mp repeats) (hfresh.1 name rfl)
  | @hand b next last token tokens v values hpush hrest ih =>
    have hrejects := rejects_push h token
    rw [hpush] at hrejects
    generalize hpush' : b.rejecting.push token = r at hrejects
    cases hrejects with
    | agrees fresh =>
      exact .hand hpush' (ih ((duplicates_push hpush).trans h) (hb.push hpush) hfresh.2)

/-- The tokens that the builder takes which rejects names that occur again are taken by the other,
and no name among them is received twice. -/
theorem takes_of_rejecting (h : b.duplicates = .keepLast) (hb : b.Knows names)
    {tokens : List Token} {values : List Value} (htakes : Takes b.rejecting tokens values last) :
    ∃ next : Builder, last = next.rejecting ∧ Takes b tokens values next ∧
      NamesFresh names tokens := by
  induction tokens generalizing b names values with
  | nil =>
    cases htakes
    exact ⟨b, rfl, .done b, trivial⟩
  | cons token tokens ih =>
    cases htakes with
    | keep hpush hrest =>
      obtain ⟨next, rfl, hpush', hname⟩ := push_of_rejecting h hb hpush
      obtain ⟨end', rfl, htakes, hfresh⟩ :=
        ih ((duplicates_push hpush').trans h) (hb.push hpush') hrest
      exact ⟨end', rfl, .keep hpush' htakes, hname, hfresh⟩
    | hand hpush hrest =>
      obtain ⟨next, rfl, hpush', hname⟩ := push_of_rejecting h hb hpush
      obtain ⟨end', rfl, htakes, hfresh⟩ :=
        ih ((duplicates_push hpush').trans h) (hb.push hpush') hrest
      exact ⟨end', rfl, .hand hpush' htakes, hname, hfresh⟩

/-- A token is refused by a builder that has taken all tokens before it. -/
theorem refused_iff {placed : List PlacedToken} {cause : StructureError} :
    (∃ place, (b.pushAll placed).2 = .refused cause place) ↔
      ∃ before token after values last next,
        placed.map PlacedToken.token = before ++ token :: after ∧ Takes b before values last ∧
          last.push token = (.error cause, next) := by
  constructor
  · intro h
    induction placed generalizing b with
    | nil =>
      obtain ⟨place, hplace⟩ := h
      cases hplace
    | cons t placed ih =>
      rcases hpush : b.push t.token with ⟨other | built, next⟩
      · rw [pushAll_refused placed hpush] at h
        obtain ⟨place, hplace⟩ := h
        cases hplace
        exact ⟨[], t.token, _, [], b, next, rfl, .done b, hpush⟩
      · cases built with
        | incomplete =>
          rw [pushAll_incomplete placed hpush] at h
          obtain ⟨before, token, after, values, last, next', htokens, htakes, hrefused⟩ := ih h
          exact ⟨t.token :: before, token, after, values, last, next',
            congrArg (t.token :: ·) htokens, .keep hpush htakes, hrefused⟩
        | value v =>
          rw [pushAll_value placed hpush] at h
          obtain ⟨before, token, after, values, last, next', htokens, htakes, hrefused⟩ := ih h
          exact ⟨t.token :: before, token, after, v :: values, last, next',
            congrArg (t.token :: ·) htokens, .hand hpush htakes, hrefused⟩
        | rootClosed =>
          rw [pushAll_closed placed hpush] at h
          obtain ⟨place, hplace⟩ := h
          cases hplace
  · rintro ⟨before, token, after, values, last, next, htokens, htakes, hrefused⟩
    obtain ⟨front, back, rfl, rfl, hback⟩ := List.map_eq_append_iff.mp htokens
    obtain ⟨t, rest, rfl, rfl, -⟩ := List.map_eq_cons_iff.mp hback
    refine ⟨t.after, ?_⟩
    rw [pushAll_append, pushAll_of_takes htakes]
    exact congrArg Prod.snd (pushAll_refused rest hrefused)

/-- Where names that occur again are rejected, a name is refused for that if all tokens before are
taken where they are not, the name as well, the innermost object has received the name, and no name
before was received twice. -/
theorem refused_again_iff (h : b.duplicates = .keepLast) (hb : b.Knows names)
    {placed : List PlacedToken} {name : String} :
    (∃ place, (b.rejecting.pushAll placed).2 = .refused (.duplicateKey name) place) ↔
      ∃ before after, placed.map PlacedToken.token = before ++ .fieldName name :: after ∧
        (∃ values last, Takes b (before ++ [.fieldName name]) values last) ∧
          name ∈ (before.foldl Token.namesAfter names).headD [] ∧ NamesFresh names before := by
  rw [refused_iff]
  constructor
  · rintro ⟨before, token, after, values, last, next, htokens, htakes, hrefused⟩
    obtain ⟨last, rfl, htakes, hfresh⟩ := takes_of_rejecting h hb htakes
    have hkeeps : last.duplicates = .keepLast := (duplicates_of_takes htakes).trans h
    have hrejects := rejects_push hkeeps token
    rw [hrefused] at hrejects
    generalize hpush : last.push token = r at hrejects
    cases hrejects with
    | agrees => exact absurd (congrArg Prod.fst hpush) (push_ne_again hkeeps token name)
    | again isName repeats next =>
      subst isName
      exact ⟨before, after, htokens, ⟨_, _, htakes.append (.keep hpush (.done next))⟩,
        (repeats_iff (hb.of_takes htakes) hpush).mp repeats, hfresh⟩
  · rintro ⟨before, after, htokens, ⟨values, last, htakes⟩, hmem, hfresh⟩
    obtain ⟨vs, ws, mid, hbefore, hname⟩ := htakes.exists_mid
    have hkeeps : mid.duplicates = .keepLast := (duplicates_of_takes hbefore).trans h
    obtain ⟨built, next, hpush⟩ :
        ∃ built next, mid.push (.fieldName name) = (.ok built, next) := by
      cases hname with
      | keep hpush | hand hpush => exact ⟨_, _, hpush⟩
    refine ⟨before, .fieldName name, after, vs, mid.rejecting, mid.rejecting, htokens,
      takes_rejecting h hb hbefore hfresh, ?_⟩
    have hrejects := rejects_push hkeeps (.fieldName name)
    generalize hpush' : mid.rejecting.push (.fieldName name) = r at hrejects
    rw [hpush] at hrejects
    cases hrejects with
    | agrees fresh =>
      have hrepeats := (repeats_iff (hb.of_takes hbefore) hpush).mpr hmem
      exact absurd hrepeats (Bool.eq_false_iff.mp (fresh name rfl))
    | again isName repeats =>
      obtain rfl := Token.fieldName.inj isName
      rfl

end Builder

end StreamingJson
