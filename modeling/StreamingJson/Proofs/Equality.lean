import Mathlib.Data.List.Perm.Basic
import Mathlib.Logic.Relation
import StreamingJson.Proofs.Builder.Contents
import StreamingJson.Value.Equality

/-!
# Equality of values is rearrangement

Two objects are compared by looking up the members of one in the other and by their number. On
objects whose names are distinct this pairs the members off, so that equal values are those that
differ in the order of members and in the sign of zeros, at any depth, and equality is symmetric. A
value with a NaN in it is not equal to itself; parsing gives none.

## Main definitions

- `Value.hasNaN` — whether a value has a NaN in it
- `Value.Exchange`, `Value.Rearranged` — one change that equality ignores, and any number of them

## Main statements

- `Value.same_object_iff` — equal objects have their members paired off
- `Value.same_iff_rearranged` — equal values are rearranged ones
- `Value.same_rearranges` — equality is an equivalence on the values that parsing gives
-/

namespace StreamingJson

/-! ## Numbers -/

namespace Binary64

variable {x y : Binary64}

theorem magnitude_ofSignMagnitude (negative : Bool) {magnitude : Nat} (h : magnitude ≤ infinity) :
    (ofSignMagnitude negative magnitude).magnitude = magnitude := by
  have hsmall : magnitude < 2 ^ 63 := Nat.lt_of_le_of_lt h (by decide)
  rw [ofSignMagnitude, Binary64.magnitude, UInt64.toNat_ofNat']
  cases negative <;> simp only [Nat.shiftLeft_eq, if_true, if_false, Bool.false_eq_true] <;> omega

/-- What is nearest to a literal is a number. -/
theorem isNaN_ofDecimal (negative : Bool) (digits : Nat) (exponent : Int) :
    (ofDecimal negative digits exponent).isNaN = false := by
  have hfinite : ∀ magnitude ≤ infinity, (ofSignMagnitude negative magnitude).isNaN = false := by
    intro magnitude h
    rw [isNaN, magnitude_ofSignMagnitude negative h]
    exact decide_eq_false (Nat.not_lt.mpr h)
  rw [ofDecimal]
  apply hfinite
  split
  · exact Nat.zero_le _
  · split
    · exact Nat.le_refl _
    · split
      · exact Nat.zero_le _
      · rw [magnitudeOfQuotient]
        split
        · exact Nat.zero_le _
        · exact Nat.min_le_right _ _

/-- There are two numbers without magnitude, the zeros. -/
theorem exists_eq_zero (h : x.magnitude = 0) : ∃ negative, x = ofSignMagnitude negative 0 := by
  obtain ⟨bits⟩ := x
  have hbits : bits.toNat < 2 ^ 64 := bits.toNat_lt
  have hdvd : bits.toNat % 2 ^ 63 = 0 := by simpa [magnitude, Nat.shiftLeft_eq] using h
  have hsign : bits.toNat = 0 ∨ bits.toNat = 2 ^ 63 := by omega
  rcases hsign with hsign | hsign
  · exact ⟨false, congrArg mk (UInt64.toNat_inj.mp hsign)⟩
  · exact ⟨true, congrArg mk (UInt64.toNat_inj.mp hsign)⟩

theorem sameNumber_self (x : Binary64) : x.sameNumber x = !x.isNaN := by
  simp [sameNumber]

theorem sameNumber_comm (x y : Binary64) : x.sameNumber y = y.sameNumber x := by
  rw [Bool.eq_iff_iff]
  simp only [sameNumber, Bool.and_eq_true, Bool.or_eq_true, beq_iff_eq, eq_comm (a := x.bits)]
  tauto

theorem sameNumber_trans {z : Binary64} (h : x.sameNumber y = true) (h' : y.sameNumber z = true) :
    x.sameNumber z = true := by
  simp only [sameNumber, Bool.and_eq_true, Bool.or_eq_true, beq_iff_eq] at h h' ⊢
  obtain ⟨⟨hx, -⟩, hxy⟩ := h
  obtain ⟨⟨-, hz⟩, hyz⟩ := h'
  refine ⟨⟨hx, hz⟩, ?_⟩
  rcases hxy with hxy | ⟨hx0, hy0⟩
  · obtain rfl : x = y := congrArg mk hxy
    exact hyz
  · rcases hyz with hyz | ⟨-, hz0⟩
    · obtain rfl : y = z := congrArg mk hyz
      exact .inr ⟨hx0, hy0⟩
    · exact .inr ⟨hx0, hz0⟩

theorem sameNumber_zeros (negative other : Bool) :
    (ofSignMagnitude negative 0).sameNumber (ofSignMagnitude other 0) = true := by
  cases negative <;> cases other <;> decide

end Binary64

namespace Value

/-! ## Values by their parts -/

mutual

/-- What holds of single values, and of containers if it holds of all they hold, holds of every
value. -/
theorem induction_on {motive : Value → Prop}
    (single : ∀ v : Value, v.shape.isContainer = false → motive v)
    (array : ∀ items, (∀ v ∈ items, motive v) → motive (.array items))
    (object : ∀ members : List (String × Value), (∀ member ∈ members, motive member.2) →
      motive (.object members)) : ∀ v, motive v
  | .null => single .null rfl
  | .bool b => single (.bool b) rfl
  | .int i => single (.int i) rfl
  | .float x => single (.float x) rfl
  | .string text => single (.string text) rfl
  | .array items => array items (induction_on_items single array object items)
  | .object members => object members (induction_on_members single array object members)
termination_by structural v => v

theorem induction_on_items {motive : Value → Prop}
    (single : ∀ v : Value, v.shape.isContainer = false → motive v)
    (array : ∀ items, (∀ v ∈ items, motive v) → motive (.array items))
    (object : ∀ members : List (String × Value), (∀ member ∈ members, motive member.2) →
      motive (.object members)) : ∀ items : List Value, ∀ v ∈ items, motive v
  | [] => fun _ h => (List.not_mem_nil h).elim
  | first :: items => List.forall_mem_cons.mpr
    ⟨induction_on single array object first, induction_on_items single array object items⟩
termination_by structural items => items

theorem induction_on_members {motive : Value → Prop}
    (single : ∀ v : Value, v.shape.isContainer = false → motive v)
    (array : ∀ items, (∀ v ∈ items, motive v) → motive (.array items))
    (object : ∀ members : List (String × Value), (∀ member ∈ members, motive member.2) →
      motive (.object members)) :
    ∀ members : List (String × Value), ∀ member ∈ members, motive member.2
  | [] => fun _ h => (List.not_mem_nil h).elim
  | (_, v) :: members => List.forall_mem_cons.mpr
    ⟨induction_on single array object v, induction_on_members single array object members⟩
termination_by structural members => members

end

theorem itemNamesDistinct_iff {items : List Value} :
    ItemNamesDistinct items ↔ ∀ v ∈ items, v.NamesDistinct := by
  induction items with
  | nil => exact ⟨fun _ _ h => (List.not_mem_nil h).elim, fun _ => trivial⟩
  | cons v items ih =>
    rw [List.forall_mem_cons, ← ih]
    rfl

theorem memberNamesDistinct_iff {members : List (String × Value)} :
    MemberNamesDistinct members ↔ ∀ member ∈ members, member.2.NamesDistinct := by
  induction members with
  | nil => exact ⟨fun _ _ h => (List.not_mem_nil h).elim, fun _ => trivial⟩
  | cons member members ih =>
    rw [List.forall_mem_cons, ← ih]
    rfl

mutual

/-- Whether there is a NaN anywhere in a value. -/
def hasNaN : Value → Bool
  | .float x => x.isNaN
  | .array items => hasNaNInItems items
  | .object members => hasNaNInMembers members
  | _ => false
termination_by structural v => v

/-- Whether there is a NaN in the items of an array. -/
def hasNaNInItems : List Value → Bool
  | [] => false
  | v :: items => hasNaN v || hasNaNInItems items
termination_by structural items => items

/-- Whether there is a NaN in the members of an object. -/
def hasNaNInMembers : List (String × Value) → Bool
  | [] => false
  | (_, v) :: members => hasNaN v || hasNaNInMembers members
termination_by structural members => members

end

theorem hasNaN_array_eq_false {items : List Value} :
    (array items).hasNaN = false ↔ ∀ v ∈ items, v.hasNaN = false := by
  rw [hasNaN]
  induction items with
  | nil => exact ⟨fun _ _ h => (List.not_mem_nil h).elim, fun _ => rfl⟩
  | cons v items ih => rw [hasNaNInItems, Bool.or_eq_false_iff, List.forall_mem_cons, ih]

theorem hasNaN_object_eq_false {members : List (String × Value)} :
    (object members).hasNaN = false ↔ ∀ member ∈ members, member.2.hasNaN = false := by
  rw [hasNaN]
  induction members with
  | nil => exact ⟨fun _ _ h => (List.not_mem_nil h).elim, fun _ => rfl⟩
  | cons member members ih => rw [hasNaNInMembers, Bool.or_eq_false_iff, List.forall_mem_cons, ih]

/-! ## Looking up -/

section

variable {name : String} {v w : Value} {members ms ns : List (String × Value)}

theorem mem_of_lookup (h : lookup name members = some v) : (name, v) ∈ members := by
  induction members with
  | nil => cases h
  | cons member members ih =>
    obtain ⟨known, other⟩ := member
    rw [lookup] at h
    split at h
    next hknown =>
      cases h
      rw [hknown]
      exact List.mem_cons_self
    next => exact List.mem_cons_of_mem _ (ih h)

theorem lookup_of_mem (hnodup : (members.map Prod.fst).Nodup) (h : (name, v) ∈ members) :
    lookup name members = some v := by
  induction members with
  | nil => exact (List.not_mem_nil h).elim
  | cons member members ih =>
    obtain ⟨known, other⟩ := member
    obtain ⟨hnew, hnodup⟩ := List.nodup_cons.mp hnodup
    rw [lookup]
    rcases List.mem_cons.mp h with heq | h
    · cases heq
      rw [if_pos rfl]
    · have hne : known ≠ name := by
        rintro rfl
        exact hnew (List.mem_map.mpr ⟨_, h, rfl⟩)
      rw [if_neg hne, ih hnodup h]

theorem lookup_append (name : String) (before after : List (String × Value)) :
    lookup name (before ++ after) = (lookup name before).or (lookup name after) := by
  induction before with
  | nil => rfl
  | cons member before ih =>
    obtain ⟨known, other⟩ := member
    rw [List.cons_append, lookup, lookup]
    split
    · rfl
    · exact ih

/-- Without a member of another name the same is found. -/
theorem lookup_remove {other : String} (hne : other ≠ name) (before after : List (String × Value)) :
    lookup name (before ++ (other, w) :: after) = lookup name (before ++ after) := by
  rw [lookup_append, lookup_append, lookup, if_neg hne]

/-- Two members have the same name and related values. -/
def Paired (R : Value → Value → Prop) (m n : String × Value) : Prop :=
  m.1 = n.1 ∧ R m.2 n.2

theorem map_fst_eq_of_paired {R : Value → Value → Prop} (h : List.Forall₂ (Paired R) ms ns) :
    ms.map Prod.fst = ns.map Prod.fst := by
  induction h with
  | nil => rfl
  | cons hhead _ ih => rw [List.map_cons, List.map_cons, hhead.1, ih]

/-- Equality of values as a relation. -/
def Same (v w : Value) : Prop :=
  v.same w = true

theorem sameItems_iff {items others : List Value} :
    sameItems items others = true ↔
      List.Forall₂ Same items others := by
  induction items generalizing others with
  | nil => cases others <;> simp [sameItems]
  | cons v items ih => cases others <;> simp [sameItems, ih, Same]

theorem sameMembers_iff :
    sameMembers ms ns = true ↔
      ∀ m ∈ ms, ∃ w, lookup m.1 ns = some w ∧ m.2.Same w := by
  induction ms with
  | nil => exact ⟨fun _ _ h => (List.not_mem_nil h).elim, fun _ => rfl⟩
  | cons m ms ih =>
    obtain ⟨name, v⟩ := m
    rw [sameMembers, Bool.and_eq_true, ih, List.forall_mem_cons]
    cases lookup name ns <;> simp [Same]

/-- If every member is found in an object with as many members, their names being distinct, the
members are paired off. -/
theorem exists_perm_of_sameMembers (hnodup : (ms.map Prod.fst).Nodup)
    (hlength : ms.length = ns.length) (h : sameMembers ms ns = true) :
    ∃ found, List.Forall₂ (Paired Same) ms found ∧ found.Perm ns := by
  rw [sameMembers_iff] at h
  induction ms generalizing ns with
  | nil =>
    obtain rfl : ns = [] := List.length_eq_zero_iff.mp hlength.symm
    exact ⟨[], .nil, .nil⟩
  | cons m ms ih =>
    obtain ⟨hnew, hnodup⟩ := List.nodup_cons.mp hnodup
    obtain ⟨⟨w, hfound, hsame⟩, hlater⟩ := List.forall_mem_cons.mp h
    obtain ⟨before, after, rfl⟩ := List.append_of_mem (mem_of_lookup hfound)
    -- the others are found in what is left, for their names are others
    have hrest : ∀ n ∈ ms, ∃ u, lookup n.1 (before ++ after) = some u ∧ n.2.Same u := by
      intro n hn
      have hne : m.1 ≠ n.1 := by
        intro heq
        rw [heq] at hnew
        exact hnew (List.mem_map_of_mem hn)
      rw [← lookup_remove hne before after]
      exact hlater n hn
    have hleft : ms.length = (before ++ after).length := by
      simp only [List.length_cons, List.length_append] at hlength ⊢
      omega
    obtain ⟨found, hpaired, hperm⟩ := ih hnodup hleft hrest
    exact ⟨(m.1, w) :: found, .cons ⟨rfl, hsame⟩ hpaired,
      (hperm.cons _).trans List.perm_middle.symm⟩

theorem sameMembers_of_paired {found : List (String × Value)}
    (hpaired : List.Forall₂ (Paired Same) ms found)
    (hfound : ∀ n ∈ found, lookup n.1 ns = some n.2) : sameMembers ms ns = true := by
  induction hpaired with
  | nil => rfl
  | @cons m n ms found hmember _ ih =>
    obtain ⟨hn, hfound⟩ := List.forall_mem_cons.mp hfound
    obtain ⟨hname, hsame⟩ := hmember
    rw [sameMembers, hname, hn, ih hfound, Bool.and_true]
    exact hsame

/-- Equal objects have their members paired off in some order. -/
theorem same_object_iff (hnodup : (ms.map Prod.fst).Nodup) :
    (object ms).Same (object ns) ↔
      ∃ found, List.Forall₂ (Paired Same) ms found ∧ found.Perm ns := by
  rw [Same, same, Bool.and_eq_true, beq_iff_eq]
  constructor
  · rintro ⟨hlength, h⟩
    exact exists_perm_of_sameMembers hnodup hlength h
  · rintro ⟨found, hpaired, hperm⟩
    have hnames : (ns.map Prod.fst).Nodup := by
      rw [map_fst_eq_of_paired hpaired] at hnodup
      exact (hperm.map Prod.fst).nodup_iff.mp hnodup
    exact ⟨hpaired.length_eq.trans hperm.length_eq, sameMembers_of_paired hpaired fun n hn =>
      lookup_of_mem hnames (hperm.mem_iff.mp hn)⟩

end

/-! ## An equivalence -/

section

variable {u v w : Value}

/-- Single values are equal if they are the same, but for numbers. -/
theorem eq_of_same (hv : v.shape.isContainer = false) (h : v.Same w) :
    v = w ∨ ∃ x y, v = .float x ∧ w = .float y ∧ x.sameNumber y = true := by
  cases v with
  | array items | object members => cases hv
  | _ => cases w <;> simp_all [Same, same]

theorem exists_array_of_same {items : List Value} (h : (array items).Same w) :
    ∃ others, w = .array others ∧ List.Forall₂ Same items others := by
  cases w with
  | array others => exact ⟨others, rfl, sameItems_iff.mp h⟩
  | _ => cases h

theorem exists_object_of_same {members : List (String × Value)} (h : (object members).Same w) :
    ∃ others, w = .object others := by
  cases w with
  | object others => exact ⟨others, rfl⟩
  | _ => cases h

/-- A value is equal to itself just if there is no NaN in it. -/
theorem same_self_iff (hv : v.NamesDistinct) : v.Same v ↔ v.hasNaN = false := by
  induction v using induction_on with
  | single v hsingle =>
    cases v with
    | array items | object members => cases hsingle
    | float x => simp [Same, same, hasNaN, Binary64.sameNumber_self]
    | _ => simp [Same, same, hasNaN]
  | array items ih =>
    have hitems := itemNamesDistinct_iff.mp hv
    rw [hasNaN_array_eq_false, Same, same, sameItems_iff, List.forall₂_same]
    exact forall₂_congr fun v hmem => ih v hmem (hitems v hmem)
  | object members ih =>
    obtain ⟨hnodup, hmembers⟩ := hv
    have hmembers := memberNamesDistinct_iff.mp hmembers
    have hself : sameMembers members members = true ↔ ∀ m ∈ members, m.2.Same m.2 := by
      rw [sameMembers_iff]
      refine forall₂_congr fun m hmem => ?_
      rw [lookup_of_mem hnodup (v := m.2) hmem]
      simp
    rw [hasNaN_object_eq_false, Same, same, beq_self_eq_true, Bool.true_and, hself]
    exact forall₂_congr fun m hmem => ih m hmem (hmembers m hmem)

theorem Same.symm (hv : v.NamesDistinct) (h : v.Same w) : w.Same v := by
  induction v using induction_on generalizing w with
  | single v hsingle =>
    rcases eq_of_same hsingle h with rfl | ⟨x, y, rfl, rfl, hnumber⟩
    · exact h
    · exact (Binary64.sameNumber_comm y x).trans hnumber
  | array items ih =>
    obtain ⟨others, rfl, hitems⟩ := exists_array_of_same h
    have hdistinct := itemNamesDistinct_iff.mp hv
    have hflip : List.Forall₂ (flip Same) items others :=
      ((List.forall₂_and_left _ _).mpr ⟨fun v hmem => hmem, hitems⟩).imp
        fun v w hboth => ih v hboth.1 (hdistinct v hboth.1) hboth.2
    exact sameItems_iff.mpr hflip.flip
  | object members ih =>
    obtain ⟨others, rfl⟩ := exists_object_of_same h
    obtain ⟨hnodup, hmembers⟩ := hv
    have hdistinct := memberNamesDistinct_iff.mp hmembers
    obtain ⟨found, hpaired, hperm⟩ := (same_object_iff hnodup).mp h
    have hflip : List.Forall₂ (flip (Paired Same)) members found :=
      ((List.forall₂_and_left _ _).mpr ⟨fun m hmem => hmem, hpaired⟩).imp
        fun m n hboth => ⟨hboth.2.1.symm, ih m hboth.1 (hdistinct m hboth.1) hboth.2.2⟩
    obtain ⟨back, hback, hrest⟩ := List.perm_comp_forall₂ hperm.symm hflip.flip
    have hnames : (others.map Prod.fst).Nodup := by
      rw [map_fst_eq_of_paired hpaired] at hnodup
      exact (hperm.map Prod.fst).nodup_iff.mp hnodup
    exact (same_object_iff hnames).mpr ⟨back, hback, hrest⟩

theorem Same.trans (h : u.Same v) (h' : v.Same w) : u.Same w := by
  induction u using induction_on generalizing v w with
  | single u hsingle =>
    rcases eq_of_same hsingle h with rfl | ⟨x, y, rfl, rfl, hnumber⟩
    · exact h'
    · rcases eq_of_same rfl h' with rfl | ⟨y', z, heq, rfl, hnumber'⟩
      · exact h
      · cases heq
        exact Binary64.sameNumber_trans hnumber hnumber'
  | array items ih =>
    obtain ⟨others, rfl, hitems⟩ := exists_array_of_same h
    obtain ⟨last, rfl, hothers⟩ := exists_array_of_same h'
    refine sameItems_iff.mpr ?_
    clear h h'
    induction hitems generalizing last with
    | nil => exact hothers
    | cons hfirst _ ih' =>
      cases hothers with
      | cons hfirst' hothers =>
        obtain ⟨hhead, hlater⟩ := List.forall_mem_cons.mp ih
        exact .cons (hhead hfirst hfirst') (ih' hlater _ hothers)
  | object members ih =>
    obtain ⟨others, rfl⟩ := exists_object_of_same h
    obtain ⟨last, rfl⟩ := exists_object_of_same h'
    obtain ⟨hlength, hmembers⟩ := Bool.and_eq_true_iff.mp h
    obtain ⟨hlength', hothers⟩ := Bool.and_eq_true_iff.mp h'
    rw [beq_iff_eq] at hlength hlength'
    rw [sameMembers_iff] at hmembers hothers
    refine Bool.and_eq_true_iff.mpr ⟨beq_iff_eq.mpr (hlength.trans hlength'), ?_⟩
    refine sameMembers_iff.mpr fun m hm => ?_
    obtain ⟨v, hfound, hsame⟩ := hmembers m hm
    obtain ⟨w, hfound', hsame'⟩ := hothers _ (mem_of_lookup hfound)
    exact ⟨w, hfound', ih m hm hsame hsame'⟩

end

/-! ## Rearranging -/

/-- One change that makes another value of the same data. -/
inductive Exchange : Value → Value → Prop where
  /-- A zero takes the other sign. -/
  | zero (negative : Bool) :
    Exchange (.float (.ofSignMagnitude negative 0)) (.float (.ofSignMagnitude (!negative) 0))
  /-- The members of an object are put in another order. -/
  | order {ms ns : List (String × Value)} (h : ms.Perm ns) : Exchange (.object ms) (.object ns)
  /-- An item of an array changes so. -/
  | item {v w : Value} (h : Exchange v w) (before after : List Value) :
    Exchange (.array (before ++ v :: after)) (.array (before ++ w :: after))
  /-- The value of a member of an object changes so. -/
  | member {v w : Value} (h : Exchange v w) (name : String) (before after : List (String × Value)) :
    Exchange (.object (before ++ (name, v) :: after)) (.object (before ++ (name, w) :: after))

/-- Another value of the same data is made by any number of such changes. -/
def Rearranged : Value → Value → Prop :=
  Relation.ReflTransGen Exchange

/-- A value whose objects have every name once, and in which every number is one. -/
structure Comparable (v : Value) : Prop where
  names : v.NamesDistinct
  numbers : v.hasNaN = false

section

variable {v w : Value} {members ms ns : List (String × Value)}

theorem comparable_array {items : List Value} :
    (array items).Comparable ↔ ∀ v ∈ items, v.Comparable := by
  constructor
  · intro h v hv
    exact ⟨itemNamesDistinct_iff.mp h.names v hv, hasNaN_array_eq_false.mp h.numbers v hv⟩
  · intro h
    exact ⟨itemNamesDistinct_iff.mpr fun v hv => (h v hv).names,
      hasNaN_array_eq_false.mpr fun v hv => (h v hv).numbers⟩

theorem comparable_object :
    (object members).Comparable ↔
      (members.map Prod.fst).Nodup ∧ ∀ member ∈ members, member.2.Comparable := by
  constructor
  · intro h
    obtain ⟨hnodup, hmembers⟩ := h.names
    exact ⟨hnodup, fun m hm => ⟨memberNamesDistinct_iff.mp hmembers m hm,
      hasNaN_object_eq_false.mp h.numbers m hm⟩⟩
  · rintro ⟨hnodup, h⟩
    exact ⟨⟨hnodup, memberNamesDistinct_iff.mpr fun m hm => (h m hm).names⟩,
      hasNaN_object_eq_false.mpr fun m hm => (h m hm).numbers⟩

theorem Comparable.refl (h : v.Comparable) : v.Same v :=
  (same_self_iff h.names).mpr h.numbers

theorem forall₂_paired_refl (h : ∀ member ∈ members, member.2.Comparable) :
    List.Forall₂ (Paired Same) members members :=
  List.forall₂_same.mpr fun m hm => ⟨rfl, (h m hm).refl⟩

/-- What one change makes is comparable, too, and equal. -/
theorem Exchange.same (h : Exchange v w) (hv : v.Comparable) : w.Comparable ∧ v.Same w := by
  induction h with
  | zero negative =>
    have hzero (sign : Bool) : (Binary64.ofSignMagnitude sign 0).isNaN = false := by
      cases sign <;> decide
    exact ⟨⟨trivial, hzero _⟩, Binary64.sameNumber_zeros negative _⟩
  | @order ms ns hperm =>
    obtain ⟨hnodup, hmembers⟩ := comparable_object.mp hv
    refine ⟨comparable_object.mpr ⟨(hperm.map Prod.fst).nodup_iff.mp hnodup, fun m hm => ?_⟩, ?_⟩
    · exact hmembers m (hperm.mem_iff.mpr hm)
    · exact (same_object_iff hnodup).mpr ⟨ms, forall₂_paired_refl hmembers, hperm⟩
  | @item v w _ before after ih =>
    obtain ⟨hbefore, hlater⟩ := List.forall_mem_append.mp (comparable_array.mp hv)
    obtain ⟨hv, hafter⟩ := List.forall_mem_cons.mp hlater
    obtain ⟨hw, hsame⟩ := ih hv
    refine ⟨comparable_array.mpr ?_, sameItems_iff.mpr ?_⟩
    · exact List.forall_mem_append.mpr ⟨hbefore, List.forall_mem_cons.mpr ⟨hw, hafter⟩⟩
    · exact List.rel_append (List.forall₂_same.mpr fun u hu => (hbefore u hu).refl)
        (.cons hsame (List.forall₂_same.mpr fun u hu => (hafter u hu).refl))
  | @member v w _ name before after ih =>
    obtain ⟨hnodup, hmembers⟩ := comparable_object.mp hv
    obtain ⟨hbefore, hlater⟩ := List.forall_mem_append.mp hmembers
    obtain ⟨hv, hafter⟩ := List.forall_mem_cons.mp hlater
    obtain ⟨hw, hsame⟩ := ih hv
    refine ⟨comparable_object.mpr ⟨?_, ?_⟩, ?_⟩
    · simpa using hnodup
    · exact List.forall_mem_append.mpr ⟨hbefore, List.forall_mem_cons.mpr ⟨hw, hafter⟩⟩
    · have hpaired : List.Forall₂ (Paired Same) (before ++ (name, v) :: after)
          (before ++ (name, w) :: after) :=
        List.rel_append (forall₂_paired_refl hbefore)
          (.cons ⟨rfl, hsame⟩ (forall₂_paired_refl hafter))
      exact (same_object_iff hnodup).mpr ⟨_, hpaired, .refl _⟩

/-- Items may change one after the other. -/
theorem rearranged_array {items others : List Value} (h : List.Forall₂ Rearranged items others)
    (before : List Value) :
    Rearranged (.array (before ++ items)) (.array (before ++ others)) := by
  induction h generalizing before with
  | nil => exact .refl
  | @cons v w items others hfirst _ ih =>
    have hhead : Rearranged (.array (before ++ v :: items)) (.array (before ++ w :: items)) := by
      refine Relation.ReflTransGen.lift (fun u : Value => Value.array (before ++ u :: items))
        (fun _ _ hchange => ?_) _ _ hfirst
      exact hchange.item before items
    have hlater := ih (before ++ [w])
    rw [List.append_assoc, List.append_assoc] at hlater
    exact hhead.trans hlater

/-- The values of members may change one after the other. -/
theorem rearranged_object (h : List.Forall₂ (Paired Rearranged) ms ns)
    (before : List (String × Value)) :
    Rearranged (.object (before ++ ms)) (.object (before ++ ns)) := by
  induction h generalizing before with
  | nil => exact .refl
  | @cons m n ms ns hfirst _ ih =>
    obtain ⟨name, v⟩ := m
    obtain ⟨name', w⟩ := n
    obtain ⟨hname, hvalue⟩ := hfirst
    obtain rfl : name = name' := hname
    have hhead : Rearranged (.object (before ++ (name, v) :: ms))
        (.object (before ++ (name, w) :: ms)) := by
      refine Relation.ReflTransGen.lift
        (fun u : Value => Value.object (before ++ (name, u) :: ms)) (fun _ _ hchange => ?_) _ _
        hvalue
      exact hchange.member name before ms
    have hlater := ih (before ++ [(name, w)])
    rw [List.append_assoc, List.append_assoc] at hlater
    exact hhead.trans hlater

theorem Same.rearranged (hv : v.NamesDistinct) (h : v.Same w) : Rearranged v w := by
  induction v using induction_on generalizing w with
  | single v hsingle =>
    rcases eq_of_same hsingle h with rfl | ⟨x, y, rfl, rfl, hnumber⟩
    · exact .refl
    · simp only [Binary64.sameNumber, Bool.and_eq_true, Bool.or_eq_true, beq_iff_eq] at hnumber
      obtain ⟨-, hbits | ⟨hx, hy⟩⟩ := hnumber
      · obtain rfl : x = y := congrArg Binary64.mk hbits
        exact .refl
      · obtain ⟨negative, rfl⟩ := Binary64.exists_eq_zero hx
        obtain ⟨other, rfl⟩ := Binary64.exists_eq_zero hy
        by_cases hsign : other = negative
        · rw [hsign]
          exact .refl
        · obtain rfl : other = !negative := Bool.eq_not_of_ne hsign
          exact .single (.zero negative)
  | array items ih =>
    obtain ⟨others, rfl, hitems⟩ := exists_array_of_same h
    have hdistinct := itemNamesDistinct_iff.mp hv
    refine rearranged_array ?_ []
    exact ((List.forall₂_and_left _ _).mpr ⟨fun v hmem => hmem, hitems⟩).imp
      fun v w hboth => ih v hboth.1 (hdistinct v hboth.1) hboth.2
  | object members ih =>
    obtain ⟨others, rfl⟩ := exists_object_of_same h
    obtain ⟨hnodup, hmembers⟩ := hv
    have hdistinct := memberNamesDistinct_iff.mp hmembers
    -- the values change first, and then the members are put in order
    obtain ⟨found, hpaired, hperm⟩ := (same_object_iff hnodup).mp h
    have hvalues : Rearranged (.object members) (.object found) := by
      refine rearranged_object ?_ []
      exact ((List.forall₂_and_left _ _).mpr ⟨fun m hmem => hmem, hpaired⟩).imp
        fun m n hboth => ⟨hboth.2.1, ih m hboth.1 (hdistinct m hboth.1) hboth.2.2⟩
    exact hvalues.tail (.order hperm)

/-- Equal values are those that differ in the order of members and in the sign of zeros. -/
theorem same_iff_rearranged (hv : v.Comparable) : v.Same w ↔ Rearranged v w := by
  refine ⟨fun h => h.rearranged hv.names, fun h => ?_⟩
  induction h using Relation.ReflTransGen.head_induction_on with
  | refl => exact hv.refl
  | head hchange _ ih =>
    obtain ⟨hnext, hsame⟩ := hchange.same hv
    exact hsame.trans (ih hnext)

end

/-! ## Parsed values -/

theorem ascends_comparable (limit : Nat) : Ascends limit fun _ v => v.Comparable where
  array _ inside := comparable_array.mpr inside
  object _ names inside := comparable_object.mpr ⟨names, inside⟩

theorem comparable_of_tokens_singleton {v : Value} {token : Token} (h : v.tokens = [token])
    (hrounded : token.Rounded) : v.Comparable := by
  cases v with
  | array items | object members => simp [tokens] at h
  | float x =>
    obtain ⟨n, rfl⟩ := hrounded x (List.cons.inj h).1.symm
    exact ⟨trivial, Binary64.isNaN_ofDecimal _ _ _⟩
  | _ => exact ⟨trivial, rfl⟩

/-- Values that are parsed are comparable. -/
theorem comparable_of_parse {options : Options} {chunks : List (List UInt8)} {vs : List Value}
    (h : parse options chunks = .ok vs) : ∀ v ∈ vs, v.Comparable := by
  intro v hv
  rw [Yield.values_of_parse h] at hv
  obtain ⟨-, hcomparable⟩ := Yield.bears_of_mem_ofChunks (ascends_comparable options.depthLimit)
    (fun _ _ hsingle hrounded _ _ => comparable_of_tokens_singleton hsingle hrounded) chunks v hv
  exact hcomparable

/-- Values whose objects have distinct names, as those that are parsed do, are equal to themselves
just if there is no NaN in them. If one such value is equal to another one, the other is equal to
it, and to all that are equal to the other the one is, too. The values that are equal to one without
a NaN are those made from it by putting members in another order, at any depth, and by changing the
sign of zeros; numbers of the two forms are never equal. There is no NaN in what is parsed. -/
theorem same_rearranges :
    (∀ v : Value, v.NamesDistinct → (v.same v = true ↔ v.hasNaN = false)) ∧
    (∀ v w : Value, v.NamesDistinct → v.same w = true → w.same v = true) ∧
    (∀ u v w : Value, u.same v = true → v.same w = true → u.same w = true) ∧
    (∀ v w : Value, v.NamesDistinct → v.hasNaN = false → (v.same w = true ↔ Rearranged v w)) ∧
    (∀ i x, (Value.int i).same (.float x) = false ∧ (Value.float x).same (.int i) = false) ∧
    (∀ options chunks vs, parse options chunks = .ok vs →
      ∀ v ∈ vs, v.NamesDistinct ∧ v.hasNaN = false) := by
  refine ⟨fun v hv => same_self_iff hv, fun v w hv h => Same.symm hv h, fun u v w => Same.trans,
    fun v w hnames hnumbers => same_iff_rearranged ⟨hnames, hnumbers⟩, fun i x => ⟨rfl, rfl⟩,
    fun options chunks vs h v hv => ?_⟩
  have hcomparable := comparable_of_parse h v hv
  exact ⟨hcomparable.names, hcomparable.numbers⟩

/-- The value of the text `{"a":[0.0],"b":null}` is equal to the one with its members in the other
order and a negative zero, each way, and not to that with an integer. With a NaN in it a value is
not equal to itself. -/
theorem same_rearranges_object :
    let v : Value := .object [("a", .array [.float ⟨0⟩]), ("b", .null)]
    let w : Value := .object [("b", .null), ("a", .array [.float ⟨0x8000000000000000⟩])]
    let other : Value := .object [("a", .array [.int 0]), ("b", .null)]
    let undefined : Value := .array [.float ⟨0x7FF8000000000000⟩]
    let text : List UInt8 := [0x7B, 0x22, 0x61, 0x22, 0x3A, 0x5B, 0x30, 0x2E, 0x30, 0x5D, 0x2C,
      0x22, 0x62, 0x22, 0x3A, 0x6E, 0x75, 0x6C, 0x6C, 0x7D]
    (parse {} [text] = .ok [v] ∧ v.NamesDistinct ∧ v.hasNaN = false) ∧
      v.same v = true ∧ (v.same w = true ∧ Rearranged v w) ∧
      (w.same v = true ∧ w.same w = true) ∧ v.same other = false ∧
      (undefined.NamesDistinct ∧ undefined.hasNaN = true ∧ undefined.same undefined ≠ true) := by
  intro v w other undefined text
  obtain ⟨hself, hsymm, htrans, hiff, -, hparsed⟩ := same_rearranges
  have hparse : parse {} [text] = .ok [v] := by decide +kernel
  obtain ⟨hnames, hnumbers⟩ := hparsed {} [text] [v] hparse v (List.mem_singleton.mpr rfl)
  have hsame : v.same w = true := by decide
  have hback : w.same v = true := hsymm v w hnames hsame
  have hundefined : undefined.NamesDistinct := ⟨trivial, trivial⟩
  exact ⟨⟨hparse, hnames, hnumbers⟩, (hself v hnames).mpr hnumbers,
    ⟨hsame, (hiff v w hnames hnumbers).mp hsame⟩, ⟨hback, htrans w v w hback hsame⟩, by decide,
    hundefined, by decide, fun h => absurd ((hself undefined hundefined).mp h) (by decide)⟩

end Value

end StreamingJson
