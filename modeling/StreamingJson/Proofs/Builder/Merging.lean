import Mathlib.Data.List.Induction
import StreamingJson.Proofs.Builder.Drafts

/-!
# Merged members

The members of an object after each of a list of members was inserted in turn: the names stand in
the order in which they first occurred, each with the value that it had last. A value in which no
object has a name twice is merged already.

## Main statements

- `Value.map_fst_collected`, `Value.lookup_collected` — names and values of merged members
- `Value.merged_eq_self` — values with distinct names are merged
-/

namespace StreamingJson.Value

variable {name : String} {v : Value} {members : List (String × Value)}

/-! ### Names and values -/

/-- A new name goes to the end, and a known one keeps its place. -/
theorem map_fst_insertMember (name : String) (v : Value) (members : List (String × Value)) :
    (insertMember name v members).map Prod.fst =
      if name ∈ members.map Prod.fst then members.map Prod.fst
      else members.map Prod.fst ++ [name] := by
  induction members with
  | nil => rfl
  | cons member members ih =>
    obtain ⟨known, w⟩ := member
    rw [insertMember]
    by_cases h : known = name
    · simp [h]
    · rw [if_neg h, List.map_cons, ih]
      by_cases hmem : name ∈ members.map Prod.fst
      · simp [hmem]
      · have hnew : name ∉ known :: members.map Prod.fst := by
          rw [List.mem_cons, not_or]
          exact ⟨Ne.symm h, hmem⟩
        rw [if_neg hmem, List.map_cons, if_neg hnew]
        rfl

theorem lookup_insertMember (name known : String) (v : Value) (members : List (String × Value)) :
    lookup name (insertMember known v members) =
      if known = name then some v else lookup name members := by
  induction members with
  | nil => rfl
  | cons member members ih =>
    obtain ⟨other, w⟩ := member
    rw [insertMember]
    by_cases hother : other = known
    · rw [if_pos hother, lookup, lookup, hother]
      split <;> rfl
    · rw [if_neg hother, lookup, lookup, ih]
      by_cases hname : other = name
      · have hknown : known ≠ name := fun h => hother (hname.trans h.symm)
        rw [if_pos hname, if_pos hname, if_neg hknown]
      · rw [if_neg hname, if_neg hname]

theorem insertMember_of_not_mem (h : name ∉ members.map Prod.fst) (v : Value) :
    insertMember name v members = members ++ [(name, v)] := by
  induction members with
  | nil => rfl
  | cons member members ih =>
    rw [List.map_cons, List.mem_cons, not_or] at h
    rw [insertMember, if_neg (Ne.symm h.1), ih h.2, List.cons_append]

/-- The names of merged members are those that occur, in the order of their first occurrences. -/
theorem map_fst_collected (members : List (String × Value)) :
    (collected members).map Prod.fst = (members.map Prod.fst).eraseDups := by
  -- from the left, as members are inserted: the last one decides on the end of the list only
  induction members using List.reverseRecOn with
  | nil => rfl
  | append_singleton members member ih =>
    obtain ⟨name, v⟩ := member
    rw [collected_concat, map_fst_insertMember, ih, List.map_append, List.eraseDups_append]
    by_cases h : name ∈ members.map Prod.fst
    · simp [List.removeAll, h]
    · simp [List.removeAll, h, List.eraseDups_cons]

/-- A name has the value that it had last. -/
theorem lookup_collected (name : String) (members : List (String × Value)) :
    lookup name (collected members) = lookup name members.reverse := by
  induction members using List.reverseRecOn with
  | nil => rfl
  | append_singleton members member ih =>
    obtain ⟨known, v⟩ := member
    rw [collected_concat, lookup_insertMember, ih, List.reverse_append]
    rfl

/-! ### Distinct names -/

theorem collected_eq_self (h : (members.map Prod.fst).Nodup) : collected members = members := by
  induction members using List.reverseRecOn with
  | nil => rfl
  | append_singleton members member ih =>
    obtain ⟨name, v⟩ := member
    rw [List.map_append, List.nodup_append] at h
    obtain ⟨hmembers, -, hdisjoint⟩ := h
    have hnew : name ∉ members.map Prod.fst :=
      fun hmem => hdisjoint name hmem name List.mem_cons_self rfl
    rw [collected_concat, ih hmembers, insertMember_of_not_mem hnew]

mutual

/-- A value in which no object has a name twice is merged. -/
theorem merged_eq_self (v : Value) (h : v.NamesDistinct) : v.merged = v := by
  match v with
  | .null | .bool _ | .int _ | .float _ | .string _ => rfl
  | .array items => rw [merged, mergedItems_eq_self items h]
  | .object members =>
    obtain ⟨hnodup, hmembers⟩ := h
    rw [merged, mergedMembers_eq_self members hmembers]
    exact congrArg Value.object (collected_eq_self hnodup)

theorem mergedItems_eq_self (items : List Value) (h : ItemNamesDistinct items) :
    mergedItems items = items := by
  match items with
  | [] => rfl
  | v :: items => rw [mergedItems, merged_eq_self v h.1, mergedItems_eq_self items h.2]

theorem mergedMembers_eq_self (members : List (String × Value))
    (h : MemberNamesDistinct members) : mergedMembers members = members := by
  match members with
  | [] => rfl
  | (name, v) :: members =>
    rw [mergedMembers, merged_eq_self v h.1, mergedMembers_eq_self members h.2]

end

end StreamingJson.Value
