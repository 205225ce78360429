import StreamingJson.Builder

/-!
# A builder that streams beside one that does not

Given the same tokens, a builder that hands out the items of a root array one by one and a builder
that keeps them for the array go hand in hand until a root array closes. Their open containers are
the same, but for the outermost one where that is an array: the one builder has its items in it and
the other has handed them out.

## Main definitions

- `Value.isArray` — the values that are handed out in parts
- `Nest.Mirrors` — the outermost containers of the two builders, with the items handed out so far
- `Builder.Mirrors` — the two builders
- `Builder.Reflects` — what becomes of them when they take a token

## Main statements

- `Builder.Mirrors.push` — builders that mirror each other go on to do so, fail alike, or reach the
  end of a root array
-/

namespace StreamingJson

/-- Whether a value is an array. -/
def Value.isArray : Value → Bool
  | .array _ => true
  | .object _ | .string _ | .int _ | .float _ | .bool _ | .null => false

/-- The outermost container of a builder that does not stream and that of one that does, the items
handed out so far, and whether the latter builder is streaming. -/
inductive Nest.Mirrors : List Value → Bool → Nest → Nest → Prop where
  | object (members : List (String × Value)) (slot : Option String) :
    Mirrors [] false ⟨.object members, slot⟩ ⟨.object members, slot⟩
  | array (items : Array Value) (slot : Option String) :
    Mirrors items.toList true ⟨.array items, slot⟩ ⟨.array #[], slot⟩

namespace Builder

/-- A builder that does not stream root arrays and one that does, with the items that the latter has
handed out of the array that is open. -/
inductive Mirrors (duplicates : DuplicatePolicy) : List Value → Builder → Builder → Prop where
  | outside (pending : Option String) :
    Mirrors duplicates [] ⟨false, duplicates, [], pending, false⟩
      ⟨true, duplicates, [], pending, false⟩
  | inside {items : List Value} {streaming : Bool} {bottom bottom' : Nest}
    (mirrors : Nest.Mirrors items streaming bottom bottom') (inner : List Nest)
    (pending : Option String) :
    Mirrors duplicates items ⟨false, duplicates, inner ++ [bottom], pending, false⟩
      ⟨true, duplicates, inner ++ [bottom'], pending, streaming⟩

/-- What becomes of two builders that take the same token, the first of which does not stream. -/
inductive Reflects (duplicates : DuplicatePolicy) (items : List Value) :
    Except StructureError Built × Builder → Except StructureError Built × Builder → Prop where
  /-- The token is refused by both. -/
  | refused (cause : StructureError) (b b' : Builder) :
    Reflects duplicates items (.error cause, b) (.error cause, b')
  /-- Nothing is complete. -/
  | incomplete {b b' : Builder} (mirrors : Mirrors duplicates items b b') :
    Reflects duplicates items (.ok .incomplete, b) (.ok .incomplete, b')
  /-- An item of the root array is complete. -/
  | item (v : Value) {b b' : Builder} (mirrors : Mirrors duplicates (items ++ [v]) b b') :
    Reflects duplicates items (.ok .incomplete, b) (.ok (.value v), b')
  /-- An object outside containers is complete. -/
  | object {v : Value} (other : v.isArray = false) {b b' : Builder} (fresh : items = [])
    (mirrors : Mirrors duplicates [] b b') :
    Reflects duplicates items (.ok (.value v), b) (.ok (.value v), b')
  /-- The root array is complete. -/
  | closed (b b' : Builder) :
    Reflects duplicates items (.ok (.value (.array items)), b) (.ok .rootClosed, b')

/-- What is inside another container is no item of a root array. -/
theorem not_streamed_above (streaming : Bool) (inner : List Nest) (bottom : Nest) :
    ¬(streaming && (inner ++ [bottom]).isEmpty) = true := by
  simp

namespace Mirrors

variable {duplicates : DuplicatePolicy} {items : List Value} {b b' : Builder}

/-- Both builders find the same name for a value, or neither finds one. -/
theorem takeSlot (h : Mirrors duplicates items b b') :
    (∃ slot next next', b.takeSlot = (.ok slot, next) ∧ b'.takeSlot = (.ok slot, next') ∧
        next.nests = b.nests ∧ Mirrors duplicates items next next') ∨
      ∃ cause, b.takeSlot = (.error cause, b) ∧ b'.takeSlot = (.error cause, b') := by
  cases h with
  | outside pending => exact .inl ⟨none, _, _, rfl, rfl, rfl, .outside pending⟩
  | inside mirrors inner pending =>
    cases inner with
    | nil =>
      cases mirrors with
      | object members slot =>
        cases pending with
        | none => exact .inr ⟨.missingFieldName, rfl, rfl⟩
        | some name =>
          exact .inl ⟨some name, _, _, rfl, rfl, rfl, .inside (.object members slot) [] none⟩
      | array items slot =>
        exact .inl ⟨none, _, _, rfl, rfl, rfl, .inside (.array items slot) [] pending⟩
    | cons nest inner =>
      obtain ⟨container, slot⟩ := nest
      cases container with
      | array known =>
        exact .inl ⟨none, _, _, rfl, rfl, rfl, .inside mirrors (⟨_, slot⟩ :: inner) pending⟩
      | object members =>
        cases pending with
        | none => exact .inr ⟨.missingFieldName, rfl, rfl⟩
        | some name =>
          exact .inl ⟨some name, _, _, rfl, rfl, rfl, .inside mirrors (⟨_, slot⟩ :: inner) none⟩

/-- A complete value inside a container is stored by both builders, or it is an item of the root
array and handed out by the one that streams. -/
theorem attach (h : Mirrors duplicates items b b') (hinside : b.nests ≠ []) (v : Value)
    (slot : Option String) : Reflects duplicates items (b.attach v slot) (b'.attach v slot) := by
  cases h with
  | outside pending => exact absurd rfl hinside
  | inside mirrors inner pending =>
    cases inner with
    | nil =>
      cases mirrors with
      | object members known =>
        cases slot with
        | none => exact .refused _ _ _
        | some name => exact .incomplete (.inside (.object _ known) [] pending)
      | array items known =>
        have hitem : Mirrors duplicates (items.toList ++ [v])
            ⟨false, duplicates, [⟨.array (items.push v), known⟩], pending, false⟩
            ⟨true, duplicates, [⟨.array #[], known⟩], pending, true⟩ := by
          rw [← Array.toList_push]
          exact .inside (.array (items.push v) known) [] pending
        exact .item v hitem
    | cons nest inner =>
      -- the outermost container is not the innermost one, so that nothing is handed out
      obtain ⟨container, known⟩ := nest
      rw [Builder.attach, Builder.attach]
      simp only [List.cons_append, if_neg (not_streamed_above _ inner _)]
      cases container with
      | array items => exact .incomplete (.inside mirrors (⟨_, known⟩ :: inner) pending)
      | object members =>
        cases slot with
        | none => exact .refused _ _ _
        | some name => exact .incomplete (.inside mirrors (⟨_, known⟩ :: inner) pending)

theorem isEmpty_nests (h : Mirrors duplicates items b b') : b'.nests.isEmpty = b.nests.isEmpty := by
  cases h with
  | outside pending => rfl
  | inside mirrors inner pending => cases inner <;> rfl

theorem depth_eq (h : Mirrors duplicates items b b') : b'.depth = b.depth := by
  cases h with
  | outside pending => rfl
  | inside mirrors inner pending =>
    show (inner ++ [_]).length = (inner ++ [_]).length
    rw [List.length_append, List.length_append]
    rfl

/-- Outside containers nothing is handed out of an array that is open. -/
theorem items_eq_nil (h : Mirrors duplicates items b b') (hdepth : b.depth = 0) : items = [] := by
  cases h with
  | outside pending => rfl
  | inside mirrors inner pending =>
    have hnests := List.eq_nil_of_length_eq_zero hdepth
    exact absurd hnests (List.append_ne_nil_of_right_ne_nil _ (List.cons_ne_nil _ _))

theorem opened (h : Mirrors duplicates items b b') (hinside : b.nests ≠ []) (nest : Nest) :
    Mirrors duplicates items { b with nests := nest :: b.nests }
      { b' with nests := nest :: b'.nests } := by
  cases h with
  | outside pending => exact absurd rfl hinside
  | inside mirrors inner pending => exact .inside mirrors (nest :: inner) pending

/-- A container opens in both builders. Outside containers it becomes the outermost one. -/
theorem openNest (h : Mirrors duplicates items b b') {container : Container} {isArray : Bool}
    (hnew : ∀ slot, Nest.Mirrors [] isArray ⟨container, slot⟩ ⟨container, slot⟩) :
    Reflects duplicates items (b.openNest container isArray) (b'.openNest container isArray) := by
  by_cases hempty : b.nests.isEmpty = true
  · cases h with
    | outside pending => exact .incomplete (.inside (hnew none) [] pending)
    | inside mirrors inner pending => cases inner <;> cases hempty
  · have hempty' : ¬b'.nests.isEmpty = true := by rwa [h.isEmpty_nests]
    have hinside : b.nests ≠ [] := fun hnil => hempty (List.isEmpty_iff.mpr hnil)
    rw [Builder.openNest, Builder.openNest, if_neg hempty, if_neg hempty']
    rcases h.takeSlot with ⟨slot, next, next', htake, htake', hnests, hnext⟩ |
      ⟨cause, htake, htake'⟩
    · rw [htake, htake']
      exact .incomplete (hnext.opened (hnests ▸ hinside) ⟨container, slot⟩)
    · rw [htake, htake']
      exact .refused _ _ _

theorem scalar (h : Mirrors duplicates items b b') (v : Value) (kind : Token.Kind) :
    Reflects duplicates items (b.scalar v kind) (b'.scalar v kind) := by
  rw [Builder.scalar, Builder.scalar, h.isEmpty_nests]
  by_cases hempty : b.nests.isEmpty = true
  · rw [if_pos hempty, if_pos hempty]
    exact .refused _ _ _
  · have hinside : b.nests ≠ [] := fun hnil => hempty (List.isEmpty_iff.mpr hnil)
    rw [if_neg hempty, if_neg hempty]
    rcases h.takeSlot with ⟨slot, next, next', htake, htake', hnests, hnext⟩ |
      ⟨cause, htake, htake'⟩
    · rw [htake, htake']
      exact hnext.attach (hnests ▸ hinside) v slot
    · rw [htake, htake']
      exact .refused _ _ _

/-- A closing bracket closes the innermost container of both builders. -/
theorem closeNest (h : Mirrors duplicates items b b') (found : Token.Kind) :
    Reflects duplicates items (b.closeNest found) (b'.closeNest found) := by
  cases h with
  | outside pending => exact .refused _ _ _
  | @inside _ streaming bottom bottom' mirrors inner pending =>
    rw [Builder.closeNest, Builder.closeNest]
    cases inner with
    | nil =>
      have hclosing : bottom'.container.closing = bottom.container.closing := by
        cases mirrors <;> rfl
      simp only [List.nil_append, hclosing]
      by_cases hfound : bottom.container.closing ≠ found
      · simp only [if_pos hfound]
        exact .refused _ _ _
      · simp only [if_neg hfound]
        cases pending with
        | some name => exact .refused _ _ _
        | none =>
          cases mirrors with
          | object members slot => exact .object rfl rfl (.outside none)
          | array items slot => exact .closed _ _
    | cons nest inner =>
      simp only [List.cons_append]
      by_cases hfound : nest.container.closing ≠ found
      · simp only [if_pos hfound]
        exact .refused _ _ _
      · simp only [if_neg hfound]
        cases pending with
        | some name => exact .refused _ _ _
        | none =>
          simp only [if_neg (not_streamed_above _ inner _)]
          exact attach (.inside mirrors inner none)
            (List.append_ne_nil_of_right_ne_nil _ (List.cons_ne_nil _ _)) _ _

/-- The name of a member is taken where the innermost container is an object and no name waits. -/
theorem fieldName (h : Mirrors duplicates items b b') (name : String) :
    Reflects duplicates items (b.fieldName name) (b'.fieldName name) := by
  cases h with
  | outside pending => exact .refused _ _ _
  | inside mirrors inner pending =>
    rw [Builder.fieldName, Builder.fieldName]
    cases inner with
    | nil =>
      cases mirrors with
      | array items slot => exact .refused _ _ _
      | object members slot =>
        cases pending with
        | some known => exact .refused _ _ _
        | none =>
          simp only [List.nil_append]
          split
          · exact .refused _ _ _
          · exact .incomplete (.inside (.object members slot) [] (some name))
    | cons nest inner =>
      obtain ⟨container, slot⟩ := nest
      cases container with
      | array items => exact .refused _ _ _
      | object members =>
        cases pending with
        | some known => exact .refused _ _ _
        | none =>
          simp only [List.cons_append]
          split
          · exact .refused _ _ _
          · exact .incomplete (.inside mirrors (⟨.object members, slot⟩ :: inner) (some name))

theorem push (h : Mirrors duplicates items b b') (token : Token) :
    Reflects duplicates items (b.push token) (b'.push token) := by
  cases token with
  | startObject => exact h.openNest fun slot => .object [] slot
  | startArray => exact h.openNest fun slot => .array #[] slot
  | endObject => exact h.closeNest _
  | endArray => exact h.closeNest _
  | fieldName name => exact h.fieldName name
  | string text => exact h.scalar _ _
  | int i => exact h.scalar _ _
  | float x => exact h.scalar _ _
  | bool t => exact h.scalar _ _
  | null => exact h.scalar _ _

end Mirrors

end Builder

end StreamingJson
