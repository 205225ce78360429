import StreamingJson.Proofs.Builder.Tidy

/-!
# What holds of a builder at all times

The fields of a builder depend on each other: a name waits for its value only in an object, a
container has a name to be stored under exactly if it is in an object, and an array that is streamed
stays empty. The objects, finished or not, have every name once. All of this holds of a builder that
was just reset, and every token that is taken keeps it up. Outside containers nothing else is left,
so there a builder is as good as new.

## Main definitions

- `Nest.inObject`, `Nest.inRootArray` — what the innermost and the outermost container are
- `Builder.Coherent` — how the fields of a builder fit together

## Main statements

- `Value.memberNamesDistinct_insertMember` — a member that is inserted keeps the names distinct
- `Builder.Coherent.push` — a token that is taken keeps a builder coherent
- `Builder.coherent_after` — a builder is coherent as long as no token is refused
-/

namespace StreamingJson

namespace Value

variable {name : String} {v : Value} {members : List (String × Value)}

theorem nodup_insertMember (h : (members.map Prod.fst).Nodup) (name : String) (v : Value) :
    ((insertMember name v members).map Prod.fst).Nodup := by
  rw [map_fst_insertMember]
  split
  next => exact h
  next hnew =>
    rw [List.nodup_append]
    refine ⟨h, List.pairwise_singleton _ name, fun known hknown other hother hsame => ?_⟩
    rw [hsame, List.mem_singleton.mp hother] at hknown
    exact hnew hknown

theorem memberNamesDistinct_insertMember (h : MemberNamesDistinct members)
    (hv : v.NamesDistinct) (name : String) :
    MemberNamesDistinct (insertMember name v members) := by
  induction members with
  | nil => exact ⟨hv, trivial⟩
  | cons member members ih =>
    obtain ⟨known, old⟩ := member
    rw [insertMember]
    split
    · exact ⟨hv, h.2⟩
    · exact ⟨h.1, ih h.2⟩

end Value

/-- Whether no object in what a token completes has a name twice. -/
def Built.NamesDistinct (built : Built) : Prop :=
  ∀ v, built = .value v → v.NamesDistinct

theorem Built.namesDistinct_incomplete : Built.incomplete.NamesDistinct :=
  fun _ h => nomatch h

/-! ## Coherent builders -/

namespace Nest

/-- Whether the innermost open container is an object. -/
def inObject : List Nest → Bool
  | ⟨.object _, _⟩ :: _ => true
  | _ => false

/-- Whether the outermost open container is an array. -/
def inRootArray (nests : List Nest) : Bool :=
  nests.getLast?.any fun nest => nest.closing = .endArray

end Nest

namespace Builder

/-- The fields of a builder fit together. -/
structure Coherent (b : Builder) : Prop where
  /-- A name waits for its value only in an object. -/
  named : b.pending.isSome = true → Nest.inObject b.nests = true
  /-- A container is to be stored under a name exactly if it is in an object. -/
  slots : ∀ nest outer, nest :: outer <:+ b.nests → nest.slot.isSome = Nest.inObject outer
  /-- The root is streamed exactly if it is an array and such arrays are to be streamed. -/
  streamed : b.streaming = (b.streamRootArray && Nest.inRootArray b.nests)
  /-- A root array that is streamed keeps none of its items. -/
  emptied : b.streaming = true → b.nests.getLast?.map Nest.container = some (.array #[])
  /-- No object has a name twice, neither an open one nor one inside of an open container. -/
  distinct : ∀ nest ∈ b.nests, nest.container.value.NamesDistinct

variable {b next : Builder} {built : Built} {slot : Option String} {v : Value} {token : Token}

theorem coherent_reset (b : Builder) : b.reset.Coherent where
  named h := nomatch h
  slots _ _ h := (List.cons_ne_nil _ _ (List.suffix_nil.mp h)).elim
  streamed := (Bool.and_false _).symm
  emptied h := nomatch h
  distinct _ h := (List.not_mem_nil h).elim

namespace Coherent

/-- Outside objects no name waits for its value. -/
theorem pending_eq_none (h : b.Coherent) (hnests : Nest.inObject b.nests = false) :
    b.pending = none := by
  rw [← Option.not_isSome_iff_eq_none]
  intro hpending
  rw [h.named hpending] at hnests
  cases hnests

/-- A value that starts takes the name that waits, and gets one exactly if it is in an object. -/
theorem takeSlot (h : b.Coherent) (htake : b.takeSlot = (.ok slot, next)) :
    next = { b with pending := none } ∧ slot.isSome = Nest.inObject b.nests := by
  have hnone := h.pending_eq_none
  obtain ⟨streamRootArray, policy, nests, pending, streaming⟩ := b
  rw [Builder.takeSlot] at htake
  split at htake
  next members known outer hnests =>
    obtain rfl : nests = ⟨.object members, known⟩ :: outer := hnests
    split at htake
    next name hpending =>
      cases htake
      exact ⟨rfl, rfl⟩
    next => cases htake
  next hnests =>
    have houtside : Nest.inObject nests = false := by
      rw [Nest.inObject]
      exact hnests
    obtain rfl : pending = none := hnone houtside
    cases htake
    exact ⟨rfl, houtside.symm⟩

theorem of_pending_none (h : b.Coherent) : Coherent { b with pending := none } where
  named hpending := nomatch hpending
  slots := h.slots
  streamed := h.streamed
  emptied := h.emptied
  distinct := h.distinct

/-- The innermost container may change unless it is the streamed array, if it stays of its kind. -/
theorem replace {nest changed : Nest} {outer : List Nest} (h : b.Coherent)
    (hnests : b.nests = nest :: outer) (hkind : changed.closing = nest.closing)
    (hslot : changed.slot = nest.slot) (hstreamed : ¬(b.streaming && outer.isEmpty) = true)
    (hdistinct : changed.container.value.NamesDistinct) :
    Coherent { b with nests := changed :: outer } := by
  obtain ⟨streamRootArray, policy, nests, pending, streaming⟩ := b
  obtain rfl : nests = nest :: outer := hnests
  have hinner : Nest.inObject (changed :: outer) = Nest.inObject (nest :: outer) := by
    obtain ⟨container, slot⟩ := nest
    obtain ⟨container', slot'⟩ := changed
    cases container <;> cases container' <;> first | rfl | cases hkind
  refine ⟨fun hpending => hinner.trans (h.named hpending), fun inner rest hsuffix => ?_, ?_,
    fun hstreaming => ?_, fun inner hmem => ?_⟩
  · rcases List.suffix_cons_iff.mp hsuffix with hsame | hsuffix
    · obtain ⟨rfl, rfl⟩ := List.cons.inj hsame
      rw [hslot]
      exact h.slots nest rest List.suffix_rfl
    · exact h.slots inner rest (hsuffix.trans (List.suffix_cons nest outer))
  · have hroot : Nest.inRootArray (changed :: outer) = Nest.inRootArray (nest :: outer) := by
      cases outer with
      | nil => simp [Nest.inRootArray, hkind]
      | cons o outer => rfl
    exact h.streamed.trans (congrArg (streamRootArray && ·) hroot.symm)
  · -- the streamed array is another container further out
    cases outer with
    | nil => exact absurd (Bool.and_eq_true_iff.mpr ⟨hstreaming, rfl⟩) hstreamed
    | cons o outer => exact h.emptied hstreaming
  · rcases List.mem_cons.mp hmem with rfl | hmem
    · exact hdistinct
    · exact h.distinct inner (List.mem_cons_of_mem nest hmem)

theorem attach (h : b.Coherent) (hv : v.NamesDistinct)
    (hattach : b.attach v slot = (.ok built, next)) :
    next.Coherent ∧ built.NamesDistinct := by
  have hgiven : Built.NamesDistinct (.value v) := by
    rintro w ⟨⟩
    exact hv
  rw [Builder.attach] at hattach
  split at hattach
  next =>
    cases hattach
    exact ⟨h, hgiven⟩
  next nest outer hnests =>
    have hnest := h.distinct nest (hnests ▸ List.mem_cons_self)
    split at hattach
    next =>
      cases hattach
      exact ⟨h, hgiven⟩
    next hstreamed =>
      obtain ⟨container, known⟩ := nest
      split at hattach
      next slot items heq =>
        cases hattach
        obtain rfl : container = .array items := heq
        have hitems : Value.ItemNamesDistinct (items.push v).toList := by
          rw [Array.toList_push]
          exact Value.itemNamesDistinct_append.mpr ⟨hnest, hv, trivial⟩
        exact ⟨h.replace hnests rfl rfl hstreamed hitems, Built.namesDistinct_incomplete⟩
      next members name heq =>
        cases hattach
        obtain rfl : container = .object members := heq
        obtain ⟨hnodup, hmembers⟩ := hnest
        have hinserted : (Value.object (Value.insertMember name v members)).NamesDistinct :=
          ⟨Value.nodup_insertMember hnodup name v,
            Value.memberNamesDistinct_insertMember hmembers hv name⟩
        exact ⟨h.replace hnests rfl rfl hstreamed hinserted, Built.namesDistinct_incomplete⟩
      next => cases hattach

theorem openNest (h : b.Coherent) {container : Container} (isArray : Bool)
    (hempty : container = if isArray then .array #[] else .object [])
    (hopen : b.openNest container isArray = (.ok built, next)) :
    next.Coherent ∧ built.NamesDistinct := by
  have hdistinct : container.value.NamesDistinct := by
    cases isArray <;> subst hempty
    · exact ⟨List.nodup_nil, trivial⟩
    · trivial
  obtain ⟨streamRootArray, policy, nests, pending, streaming⟩ := b
  rw [Builder.openNest] at hopen
  cases nests with
  | nil =>
    -- the new root decides whether it is streamed
    cases hopen
    refine ⟨⟨fun hpending => ?_, fun inner rest hsuffix => ?_, ?_, fun hstreaming => ?_,
      fun inner hmem => ?_⟩, Built.namesDistinct_incomplete⟩
    · exact absurd (h.named hpending) Bool.false_ne_true
    · rcases List.suffix_cons_iff.mp hsuffix with hsame | hsuffix
      · obtain ⟨rfl, rfl⟩ := List.cons.inj hsame
        rfl
      · exact (List.cons_ne_nil _ _ (List.suffix_nil.mp hsuffix)).elim
    · cases isArray <;> subst hempty <;> rfl
    · obtain rfl : isArray = true := (Bool.and_eq_true_iff.mp hstreaming).2
      exact congrArg some hempty
    · rw [List.mem_singleton.mp hmem]
      exact hdistinct
  | cons nest outer =>
    simp only [List.isEmpty_cons, Bool.false_eq_true, if_false] at hopen
    split at hopen
    next => cases hopen
    next slot b' htake =>
      obtain ⟨rfl, hslot⟩ := h.takeSlot htake
      cases hopen
      refine ⟨⟨fun hpending => absurd hpending Bool.false_ne_true, fun inner rest hsuffix => ?_,
        h.streamed, h.emptied, fun inner hmem => ?_⟩, Built.namesDistinct_incomplete⟩
      · rcases List.suffix_cons_iff.mp hsuffix with hsame | hsuffix
        · obtain ⟨rfl, rfl⟩ := List.cons.inj hsame
          exact hslot
        · exact h.slots inner rest hsuffix
      · rcases List.mem_cons.mp hmem with rfl | hmem
        · exact hdistinct
        · exact h.distinct inner hmem

/-- The innermost container may go unless it is the streamed array, if no name waits in it. -/
theorem tail {nest : Nest} {outer : List Nest} (h : b.Coherent) (hnests : b.nests = nest :: outer)
    (hpending : b.pending = none) (hstreamed : ¬(b.streaming && outer.isEmpty) = true) :
    Coherent { b with nests := outer } := by
  obtain ⟨streamRootArray, policy, nests, pending, streaming⟩ := b
  obtain rfl : nests = nest :: outer := hnests
  obtain rfl : pending = none := hpending
  refine ⟨fun hpending => absurd hpending Bool.false_ne_true,
    fun inner rest hsuffix => h.slots inner rest (hsuffix.trans (List.suffix_cons nest outer)), ?_,
    fun hstreaming => ?_, fun inner hmem => h.distinct inner (List.mem_cons_of_mem nest hmem)⟩
  · cases outer with
    | nil =>
      rw [List.isEmpty_nil, Bool.and_true, Bool.not_eq_true] at hstreamed
      exact hstreamed.trans (Bool.and_false streamRootArray).symm
    | cons o outer => exact h.streamed
  · cases outer with
    | nil => exact absurd (Bool.and_eq_true_iff.mpr ⟨hstreaming, rfl⟩) hstreamed
    | cons o outer => exact h.emptied hstreaming

theorem closeNest (h : b.Coherent) {found : Token.Kind}
    (hclose : b.closeNest found = (.ok built, next)) :
    next.Coherent ∧ built.NamesDistinct := by
  rw [Builder.closeNest] at hclose
  split at hclose
  next => cases hclose
  next nest outer hnests =>
    dsimp only at hclose
    split at hclose
    · cases hclose
    split at hclose
    next => cases hclose
    next hpending =>
      split at hclose
      next hroot =>
        -- the streamed array leaves nothing behind
        cases hclose
        obtain rfl := List.isEmpty_iff.mp (Bool.and_eq_true_iff.mp hroot).2
        have hclosed : Built.rootClosed.NamesDistinct := by rintro v ⟨⟩
        rw [hpending]
        exact ⟨coherent_reset b, hclosed⟩
      next hstreamed =>
        have hnest := h.distinct nest (hnests ▸ List.mem_cons_self)
        exact (h.tail hnests hpending hstreamed).attach hnest hclose

theorem fieldName (h : b.Coherent) {name : String}
    (hname : b.fieldName name = (.ok built, next)) :
    next.Coherent ∧ built.NamesDistinct := by
  rw [Builder.fieldName] at hname
  split at hname
  next => cases hname
  next members slot outer hnests hpending =>
    split at hname
    · cases hname
    · cases hname
      refine ⟨⟨fun _ => ?_, h.slots, h.streamed, h.emptied, h.distinct⟩,
        Built.namesDistinct_incomplete⟩
      show Nest.inObject b.nests = true
      rw [hnests]
      rfl
  next => cases hname

theorem scalar (h : b.Coherent) {kind : Token.Kind} (hv : v.NamesDistinct)
    (hscalar : b.scalar v kind = (.ok built, next)) :
    next.Coherent ∧ built.NamesDistinct := by
  rw [Builder.scalar] at hscalar
  split at hscalar
  · cases hscalar
  · split at hscalar
    next => cases hscalar
    next slot b' htake =>
      obtain ⟨rfl, -⟩ := h.takeSlot htake
      exact h.of_pending_none.attach hv hscalar

/-- A token that is taken keeps a builder coherent, and no object that it hands out has a name
twice. -/
theorem push (h : b.Coherent) (hpush : b.push token = (.ok built, next)) :
    next.Coherent ∧ built.NamesDistinct := by
  cases token with
  | startObject => exact h.openNest false rfl hpush
  | startArray => exact h.openNest true rfl hpush
  | endObject | endArray => exact h.closeNest hpush
  | fieldName name => exact h.fieldName hpush
  | string text => exact h.scalar (v := .string text) trivial hpush
  | int i => exact h.scalar (v := .int i) trivial hpush
  | float x => exact h.scalar (v := .float x) trivial hpush
  | bool t => exact h.scalar (v := .bool t) trivial hpush
  | null => exact h.scalar (v := .null) trivial hpush

/-- Tokens that are all taken keep a builder coherent and tidy. -/
theorem after (h : b.Coherent) (htidy : b.Tidy) {tokens : List Token} (htakes : b.TakesAll tokens) :
    (b.after tokens).Coherent ∧ (b.after tokens).Tidy ∧ (b.after tokens).reset = b.reset ∧
      ∀ built, .ok built ∈ b.answers tokens → built.NamesDistinct := by
  induction tokens generalizing b with
  | nil => exact ⟨h, htidy, rfl, fun _ hmem => (List.not_mem_nil hmem).elim⟩
  | cons token tokens ih =>
    obtain ⟨⟨built, hbuilt⟩, hlater⟩ := takesAll_cons_iff.mp htakes
    have hpush : b.push token = (.ok built, (b.push token).2) := Prod.ext hbuilt rfl
    obtain ⟨hnext, hgiven⟩ := h.push hpush
    obtain ⟨htidy', hsettings⟩ := htidy.push hpush
    obtain ⟨hlast, hlastTidy, hsame, hrest⟩ := ih hnext htidy' hlater
    refine ⟨hlast, hlastTidy, hsame.trans hsettings, fun other hmem => ?_⟩
    rcases List.mem_cons.mp hmem with heq | hmem
    · rw [hbuilt] at heq
      cases heq
      exact hgiven
    · exact hrest other hmem

end Coherent

/-- A builder that was reset, as a new one is, stays coherent as long as it refuses no token, and no
object in a value that it hands out has a name twice. Whenever no container is open it does with all
later tokens what a new builder does. -/
theorem coherent_after (b : Builder) {tokens : List Token} (h : b.reset.TakesAll tokens) :
    let last := b.reset.after tokens
    last.Coherent ∧
      (∀ v, .ok (.value v) ∈ b.reset.answers tokens → v.NamesDistinct) ∧
      (last.depth = 0 → ∀ options : Options, options.streamRootArray = b.streamRootArray →
        options.duplicates = b.duplicates → ∀ later : List Token,
          last.answers later = (Builder.new options).answers later ∧
            last.after later = (Builder.new options).after later) := by
  have htidy : b.reset.Tidy := ⟨fun _ => rfl, fun hstreaming => nomatch hstreaming⟩
  obtain ⟨hcoherent, hlast, hsettings, hgiven⟩ := (coherent_reset b).after htidy h
  refine ⟨hcoherent, fun v hmem => hgiven _ hmem v rfl, fun hdepth options hstream hpolicy => ?_⟩
  have hnew : b.reset.after tokens = Builder.new options := by
    rw [hlast.outside (List.eq_nil_of_length_eq_zero hdepth), hsettings, Builder.new, hstream,
      hpolicy]
    rfl
  rw [hnew]
  exact fun later => ⟨rfl, rfl⟩

/-- After a streamed root array has handed out an item and was closed, the builder is as good as
new. -/
theorem coherent_after_streamed_root :
    let b := Builder.new { streamRootArray := true, duplicates := .reject }
    let tokens : List Token :=
      [.startArray, .startObject, .fieldName "a", .null, .endObject, .endArray]
    b.reset.TakesAll tokens ∧ (b.reset.after tokens).Coherent ∧
      .ok (.value (.object [("a", .null)])) ∈ b.reset.answers tokens ∧
      ∀ later, (b.reset.after tokens).answers later = b.answers later := by
  intro b tokens
  have hanswers : b.reset.answers tokens = [.incomplete, .incomplete, .incomplete, .incomplete,
      .value (.object [("a", .null)]), .rootClosed].map .ok := by decide +kernel
  have htakes : b.reset.TakesAll tokens := by
    intro answer hmem
    rw [hanswers] at hmem
    obtain ⟨built, -, rfl⟩ := List.mem_map.mp hmem
    exact ⟨built, rfl⟩
  have hitem : .ok (.value (.object [("a", .null)])) ∈ b.reset.answers tokens := by
    rw [hanswers]
    exact List.mem_map_of_mem (by simp)
  have hdepth : (b.reset.after tokens).depth = 0 := by decide +kernel
  obtain ⟨hcoherent, -, hnew⟩ := coherent_after b htakes
  refine ⟨htakes, hcoherent, hitem, fun later => ?_⟩
  exact (hnew hdepth { streamRootArray := true, duplicates := .reject } rfl rfl later).1

end Builder

end StreamingJson
