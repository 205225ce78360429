import StreamingJson.Builder
import StreamingJson.Proofs.Lexer.Containers

/-!
# Scanner and builder in step

The scanner and the builder keep track of the open containers independently, the one by bytes and
the other by tokens. They agree on what is open and on whether a name waits for its value, and a
token of the scanner keeps them in agreement. Hence a builder that is given the tokens of a scanner
refuses few of them, and only for reasons that a scanner does not look at.

## Main definitions

- `Lockstep` — the open containers of a scanner and a builder agree
- `StructureError.Remains` — what a builder may still have against the tokens of a scanner

## Main statements

- `Lockstep.push` — a token of the scanner keeps the agreement or is refused for such a reason
-/

namespace StreamingJson

/-- What a builder may still have against the tokens of a scanner: a value or a closing bracket
outside containers, and a name that occurs again. -/
inductive StructureError.Remains (duplicates : DuplicatePolicy) : StructureError → Prop where
  | outside {kind : Token.Kind} (value : kind ≠ .fieldName) :
    Remains duplicates (.unexpectedAtTopLevel kind)
  | again (reject : duplicates = .reject) (name : String) :
    Remains duplicates (.duplicateKey name)

namespace Nest

/-- The kind of token that ends the container. -/
def closing (nest : Nest) : Token.Kind :=
  nest.container.closing

/-- A slot names a member wherever the innermost container is an object. -/
def Suits (slot : Option String) : List Nest → Prop
  | [] => True
  | nest :: _ => nest.closing = .endObject → slot.isSome = true

/-- Each container will be stored under a name if it is in an object. -/
def Slotted : List Nest → Prop
  | [] => True
  | nest :: outer => Suits nest.slot outer ∧ Slotted outer

end Nest

/-- The open containers of a scanner and those of a builder are of the same kinds in the same order,
and a name is pending in the builder exactly if it waits for its value in the scanner. -/
structure Lockstep (duplicates : DuplicatePolicy) (frames : List Frame) (b : Builder) : Prop where
  kinds : frames.map Frame.closing = b.nests.map Nest.closing
  pending : b.pending.isSome = Frame.isNamed frames
  slotted : Nest.Slotted b.nests
  policy : b.duplicates = duplicates

namespace Lockstep

variable {duplicates : DuplicatePolicy} {frames frames' outer : List Frame} {b b' : Builder}
  {built : Built} {slot : Option String} {v : Value}

theorem depth_eq (h : Lockstep duplicates frames b) : b.depth = frames.length := by
  have hlength := congrArg List.length h.kinds
  rw [List.length_map, List.length_map] at hlength
  exact hlength.symm

theorem of_alike (h : Lockstep duplicates frames b) (halike : Frame.Alike frames frames') :
    Lockstep duplicates frames' b :=
  ⟨halike.1.trans h.kinds, h.pending.trans halike.2.symm, h.slotted, h.policy⟩

/-- A name is pending only in an object. -/
theorem pending_eq_none (h : Lockstep duplicates frames b) (hnamed : Frame.isNamed frames = false) :
    b.pending = none := by
  rw [← Option.not_isSome_iff_eq_none, h.pending, hnamed]
  exact Bool.false_ne_true

theorem nests_eq_nil (h : Lockstep duplicates [] b) : b.nests = [] :=
  List.map_eq_nil_iff.mp h.kinds.symm

theorem exists_nests_eq_cons {frame : Frame} (h : Lockstep duplicates (frame :: outer) b) :
    ∃ nest rest, b.nests = nest :: rest ∧ nest.closing = frame.closing ∧
      outer.map Frame.closing = rest.map Nest.closing ∧ Nest.Suits nest.slot rest ∧
      Nest.Slotted rest := by
  obtain ⟨hkinds, -, hslotted, -⟩ := h
  cases hnests : b.nests with
  | nil =>
    rw [hnests] at hkinds
    cases hkinds
  | cons nest rest =>
    rw [hnests] at hkinds hslotted
    obtain ⟨hclosing, houter⟩ := List.cons.inj hkinds
    exact ⟨nest, rest, rfl, hclosing.symm, houter, hslotted⟩

/-- Where a value may stand the builder finds the name for it, if it needs one. -/
theorem takeSlot (h : Lockstep duplicates frames b) (place : AwaitsValue frames) :
    ∃ slot, b.takeSlot = (.ok slot, { b with pending := none }) ∧ Nest.Suits slot b.nests := by
  obtain ⟨streamRootArray, policy, nests, pending, streaming⟩ := b
  cases place with
  | root =>
    obtain rfl : nests = [] := h.nests_eq_nil
    obtain rfl : pending = none := h.pending_eq_none rfl
    exact ⟨none, rfl, trivial⟩
  | first | item =>
    obtain ⟨⟨container, known⟩, rest, rfl, hclosing, -⟩ := h.exists_nests_eq_cons
    obtain rfl : pending = none := h.pending_eq_none rfl
    cases container with
    | object members => cases hclosing
    | array items => exact ⟨none, rfl, fun hobject => nomatch hobject⟩
  | value =>
    obtain ⟨⟨container, known⟩, rest, rfl, hclosing, -⟩ := h.exists_nests_eq_cons
    obtain ⟨name, rfl⟩ : ∃ name, pending = some name := Option.isSome_iff_exists.mp h.pending
    cases container with
    | array items => cases hclosing
    | object members => exact ⟨some name, rfl, fun _ => rfl⟩

/-- A complete value that has a name wherever it needs one is stored or handed out, and the open
containers stay. -/
theorem attach (h : Lockstep duplicates frames b) (hslot : Nest.Suits slot b.nests) (v : Value) :
    ∃ built b', b.attach v slot = (.ok built, b') ∧ Lockstep duplicates frames b' := by
  obtain ⟨streamRootArray, policy, nests, pending, streaming⟩ := b
  obtain ⟨hkinds, hpending, hslotted, hpolicy⟩ := h
  cases nests with
  | nil => exact ⟨.value v, _, rfl, hkinds, hpending, hslotted, hpolicy⟩
  | cons nest rest =>
    obtain ⟨container, known⟩ := nest
    by_cases hstreamed : (streaming && rest.isEmpty) = true
    · exact ⟨.value v, _, if_pos hstreamed, hkinds, hpending, hslotted, hpolicy⟩
    · cases container with
      | array items => exact ⟨.incomplete, _, if_neg hstreamed, hkinds, hpending, hslotted, hpolicy⟩
      | object members =>
        obtain ⟨name, rfl⟩ := Option.isSome_iff_exists.mp (hslot rfl)
        exact ⟨.incomplete, _, if_neg hstreamed, hkinds, hpending, hslotted, hpolicy⟩

/-! ### The tokens of a scanner -/

/-- What becomes of the agreement when the builder takes a token. -/
def After (duplicates : DuplicatePolicy) (frames : List Frame) :
    Except StructureError Built × Builder → Prop
  | (.ok _, b) => Lockstep duplicates frames b
  | (.error cause, _) => cause.Remains duplicates

/-- Whether the root array is streamed plays no part in the agreement. -/
theorem of_streaming (h : Lockstep duplicates frames b) (streaming : Bool) :
    Lockstep duplicates frames { b with streaming } :=
  ⟨h.kinds, h.pending, h.slotted, h.policy⟩

theorem openNest (h : Lockstep duplicates frames b) (place : AwaitsValue frames) {frame : Frame}
    (hnew : Frame.isNamed (frame :: frames) = false) (container : Container)
    (hkind : frame.closing = container.closing) (isArray : Bool) :
    After duplicates (frame :: frames) (b.openNest container isArray) := by
  have hopened {b : Builder} (h : Lockstep duplicates frames b) :
      ∃ slot, b.takeSlot = (.ok slot, { b with pending := none }) ∧
        Lockstep duplicates (frame :: frames)
          { b with nests := ⟨container, slot⟩ :: b.nests, pending := none } := by
    obtain ⟨slot, htake, hslot⟩ := h.takeSlot place
    refine ⟨slot, htake, ?_, hnew.symm, ⟨hslot, h.slotted⟩, h.policy⟩
    show frame.closing :: frames.map Frame.closing = container.closing :: b.nests.map Nest.closing
    rw [hkind, h.kinds]
  rw [Builder.openNest]
  by_cases hnests : b.nests.isEmpty = true
  · obtain ⟨slot, htake, hlockstep⟩ := hopened (h.of_streaming (b.streamRootArray && isArray))
    rw [if_pos hnests, htake]
    exact hlockstep
  · obtain ⟨slot, htake, hlockstep⟩ := hopened h
    rw [if_neg hnests, htake]
    exact hlockstep

theorem scalar (h : Lockstep duplicates frames b) (place : AwaitsValue frames) (v : Value)
    {kind : Token.Kind} (hkind : kind ≠ .fieldName) :
    After duplicates (Frame.fill frames) (b.scalar v kind) := by
  cases hnests : b.nests.isEmpty with
  | true =>
    rw [Builder.scalar, if_pos hnests]
    exact .outside hkind
  | false =>
    obtain ⟨slot, htake, hslot⟩ := h.takeSlot place
    have hfilled : Lockstep duplicates (Frame.fill frames) { b with pending := none } := by
      refine ⟨?_, ?_, h.slotted, h.policy⟩
      · rw [Frame.map_closing_fill, h.kinds]
      · rw [Frame.isNamed_fill]
        rfl
    obtain ⟨built, b', hattach, hb'⟩ := hfilled.attach hslot v
    rw [Builder.scalar, hnests, htake]
    show After duplicates _ (Builder.attach _ v slot)
    rw [hattach]
    exact hb'

/-- A bracket closes the innermost container, if it is open in the scanner. -/
theorem closeNest {frame : Frame} (h : Lockstep duplicates (frame :: outer) b)
    (hnamed : Frame.isNamed (frame :: outer) = false) :
    After duplicates (Frame.fill outer) (b.closeNest frame.closing) := by
  obtain ⟨streamRootArray, policy, nests, pending, streaming⟩ := b
  obtain ⟨nest, rest, rfl, hclosing, houter, hsuits, hslotted⟩ := h.exists_nests_eq_cons
  obtain rfl : pending = none := h.pending_eq_none hnamed
  have hclosed : Lockstep duplicates (Frame.fill outer)
      { streamRootArray, duplicates := policy, nests := rest, streaming } := by
    refine ⟨?_, ?_, hslotted, h.policy⟩
    · rw [Frame.map_closing_fill, houter]
    · rw [Frame.isNamed_fill]
      rfl
  have hfound : ¬nest.container.closing ≠ frame.closing := not_not_intro hclosing
  rw [Builder.closeNest]
  simp only [if_neg hfound]
  by_cases hstreamed : (streaming && rest.isEmpty) = true
  · rw [if_pos hstreamed]
    exact hclosed.of_streaming false
  · rw [if_neg hstreamed]
    obtain ⟨built, b', hattach, hb'⟩ := hclosed.attach hsuits nest.container.value
    rw [hattach]
    exact hb'

theorem closeNest_stray (h : Lockstep duplicates [] b) {found : Token.Kind}
    (hfound : found ≠ .fieldName) : After duplicates [] (b.closeNest found) := by
  rw [Builder.closeNest, h.nests_eq_nil]
  exact .outside hfound

theorem fieldName {phase : ObjectPhase} (h : Lockstep duplicates (.object phase :: outer) b)
    (hnamed : Frame.isNamed (.object phase :: outer) = false) (name : String) :
    After duplicates (.object .colon :: outer) (b.fieldName name) := by
  obtain ⟨streamRootArray, policy, nests, pending, streaming⟩ := b
  obtain ⟨⟨container, known⟩, rest, rfl, hclosing, -⟩ := h.exists_nests_eq_cons
  obtain rfl : pending = none := h.pending_eq_none hnamed
  cases container with
  | array items => cases hclosing
  | object members =>
    rw [Builder.fieldName]
    by_cases hagain : (policy = .reject && Value.hasMember name members) = true
    · simp only [if_pos hagain]
      have hreject : policy = .reject := by
        rw [Bool.and_eq_true, decide_eq_true_eq] at hagain
        exact hagain.1
      exact .again (h.policy.symm.trans hreject) name
    · simp only [if_neg hagain]
      exact ⟨h.kinds, rfl, h.slotted, h.policy⟩

/-- A token of the scanner keeps the agreement, or is refused for a reason that remains. -/
theorem push {token : Token} (h : Lockstep duplicates frames b)
    (moves : Frame.Moves frames token frames') : After duplicates frames' (b.push token) := by
  cases moves with
  | openObject place => exact h.openNest place rfl (.object []) rfl false
  | openArray place => exact h.openNest place rfl (.array #[]) rfl true
  | closeObject place => exact h.closeNest place
  | closeArray phase outer => exact h.closeNest rfl
  | strayBrace => exact h.closeNest_stray (by decide)
  | strayBracket => exact h.closeNest_stray (by decide)
  | name place text => exact h.fieldName place text
  | scalar place single =>
    cases token with
    | string text => exact h.scalar place (.string text) (by decide)
    | int i => exact h.scalar place (.int i) (by decide)
    | float x => exact h.scalar place (.float x) (by decide)
    | bool t => exact h.scalar place (.bool t) (by decide)
    | null => exact h.scalar place .null (by decide)
    | startObject | endObject | startArray | endArray | fieldName name => cases single

end Lockstep

end StreamingJson
