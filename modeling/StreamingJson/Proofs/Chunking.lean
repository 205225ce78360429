import Mathlib.Algebra.Order.Floor.Div
import Mathlib.Data.List.Basic
import Mathlib.Data.List.Sort
import StreamingJson.Chunking

/-!
# Cutting loses nothing

A text cut at offsets is cut at the offsets inside it and nowhere else, however the offsets are
ordered, repeated or mixed with offsets outside. The places of the cuts are sorted and each stands
once (`pairwise_cutPoints`, `mem_cutPoints`); one induction over them then says what the pieces
between them are.

A text cut into parts of equal size is cut into as many chunks as its length divided by that size,
rounded up. Rounding up is the lower adjoint of multiplication (`ceilDiv_le_iff_le_smul`), which
bounds the number of chunks by the number of parts without a calculation with quotients.

## Main statements

- `Chunking.atOffsets_partitions` — what the chunks of a text cut at offsets are
- `Chunking.evenly_covers` — what the chunks of a text cut into parts of equal size are
-/

namespace StreamingJson.Chunking

variable {α : Type}

/-! ### The places of the cuts -/

theorem eraseReps_loop [BEq α] (first : α) (rest kept : List α) :
    List.eraseRepsBy.loop (· == ·) first rest kept =
      kept.reverse ++ List.eraseRepsBy.loop (· == ·) first rest [] := by
  induction rest generalizing first kept with
  | nil => simp [List.eraseRepsBy.loop]
  | cons second rest ih =>
    simp only [List.eraseRepsBy.loop]
    split
    · exact ih first kept
    · rw [ih second (first :: kept), ih second [first]]
      simp

theorem eraseReps_cons_cons [DecidableEq α] (first second : α) (rest : List α) :
    (first :: second :: rest).eraseReps =
      if first = second then (second :: rest).eraseReps
      else first :: (second :: rest).eraseReps := by
  simp only [List.eraseReps, List.eraseRepsBy, List.eraseRepsBy.loop]
  split
  · rename_i h
    rw [if_pos (beq_iff_eq.mp h), beq_iff_eq.mp h]
  · rename_i h
    rw [if_neg (by simpa using h), eraseReps_loop]
    rfl

theorem mem_eraseReps [DecidableEq α] {a : α} :
    ∀ elements : List α, a ∈ elements.eraseReps ↔ a ∈ elements
  | [] => Iff.rfl
  | [_] => Iff.rfl
  | first :: second :: rest => by
    have ih := mem_eraseReps (a := a) (second :: rest)
    rw [eraseReps_cons_cons]
    split
    · rename_i h
      rw [ih, h]
      simp
    · rw [List.mem_cons, ih, ← List.mem_cons]

theorem pairwise_lt_eraseReps :
    ∀ numbers : List Nat, numbers.Pairwise (· ≤ ·) → numbers.eraseReps.Pairwise (· < ·)
  | [], _ => .nil
  | [_], _ => List.pairwise_singleton _ _
  | first :: second :: rest, sorted => by
    have ih := pairwise_lt_eraseReps (second :: rest) sorted.tail
    rw [eraseReps_cons_cons]
    split
    · exact ih
    · rename_i distinct
      refine List.pairwise_cons.mpr ⟨fun n hn => ?_, ih⟩
      have small : first ≤ second := (List.pairwise_cons.mp sorted).1 second (by simp)
      rcases List.mem_cons.mp ((mem_eraseReps _).mp hn) with rfl | later
      · omega
      · have := (List.pairwise_cons.mp sorted.tail).1 n later
        omega

/-- The cuts are the offsets inside the text. -/
theorem mem_cutPoints {length : Nat} {offsets : List Nat} {offset : Nat} :
    offset ∈ cutPoints length offsets ↔ offset ∈ offsets ∧ 0 < offset ∧ offset < length := by
  simp [cutPoints, mem_eraseReps]

/-- The cuts stand in order, each once. -/
theorem pairwise_cutPoints (length : Nat) (offsets : List Nat) :
    (cutPoints length offsets).Pairwise (· < ·) := by
  apply pairwise_lt_eraseReps
  have transitive (a b c : Nat) (hab : decide (a ≤ b) = true) (hbc : decide (b ≤ c) = true) :
      decide (a ≤ c) = true := by
    rw [decide_eq_true_eq] at *
    exact Nat.le_trans hab hbc
  have total (a b : Nat) : (decide (a ≤ b) || decide (b ≤ a)) = true := by
    simp only [Bool.or_eq_true, decide_eq_true_eq]
    omega
  have sorted := List.pairwise_mergeSort transitive total
    (offsets.filter fun offset => 0 < offset && offset < length)
  simpa only [decide_eq_true_eq] using sorted

/-- Which cuts there are depends on the offsets inside the text alone, not on their order, not on
how often they stand there and not on those outside. -/
theorem cutPoints_congr {length : Nat} {offsets others : List Nat}
    (inside : ∀ offset, 0 < offset → offset < length → (offset ∈ others ↔ offset ∈ offsets)) :
    cutPoints length others = cutPoints length offsets := by
  have same : (cutPoints length others).Perm (cutPoints length offsets) := by
    rw [List.perm_ext_iff_of_nodup]
    · intro offset
      simp only [mem_cutPoints, and_congr_left_iff]
      exact fun h => inside offset h.1 h.2
    · exact (pairwise_cutPoints length others).imp Nat.ne_of_lt
    · exact (pairwise_cutPoints length offsets).imp Nat.ne_of_lt
  exact same.eq_of_pairwise (fun a b _ _ hab hba => absurd hab (Nat.lt_asymm hba))
    (pairwise_cutPoints length others) (pairwise_cutPoints length offsets)

/-! ### The pieces between the cuts -/

/-- An offset at which one chunk ends and the next one begins, counted from the first chunk. -/
def IsBoundary (chunks : List (List α)) (offset : Nat) : Prop :=
  ∃ before after, chunks = before ++ after ∧ before ≠ [] ∧ after ≠ [] ∧
    offset = before.flatten.length

/-- The boundaries of a row of chunks: the end of the first one, if another follows, and those of
the others. -/
theorem isBoundary_cons {chunk : List α} {chunks : List (List α)} {offset : Nat} :
    IsBoundary (chunk :: chunks) offset ↔
      chunks ≠ [] ∧ (offset = chunk.length ∨
        ∃ later, IsBoundary chunks later ∧ offset = chunk.length + later) := by
  constructor
  · rintro ⟨before, after, split, hbefore, hafter, rfl⟩
    obtain ⟨first, before, rfl⟩ := List.exists_cons_of_ne_nil hbefore
    obtain ⟨rfl, rfl⟩ : first = chunk ∧ before ++ after = chunks := by simpa using split.symm
    refine ⟨by simp [hafter], ?_⟩
    rcases List.eq_nil_or_concat before with rfl | ⟨_, _, rfl⟩
    · exact .inl (by simp)
    · exact .inr ⟨_, ⟨_, after, rfl, by simp, hafter, rfl⟩, by simp⟩
  · rintro ⟨more, rfl | ⟨_, ⟨before, after, rfl, _, hafter, rfl⟩, rfl⟩⟩
    · exact ⟨[chunk], chunks, rfl, by simp, more, by simp⟩
    · exact ⟨chunk :: before, after, rfl, by simp, hafter, by simp⟩

/-- The cuts that remain to be made in a text: in order, and all of them between its end and the
last one made. -/
structure Pending (elements : List α) (start : Nat) (cuts : List Nat) : Prop where
  /-- The cuts stand in order, each once. -/
  sorted : cuts.Pairwise (· < ·)
  /-- The cuts are inside what is left of the text. -/
  inside : ∀ cut ∈ cuts, start < cut ∧ cut < elements.length

theorem Pending.tail {elements : List α} {start cut : Nat} {cuts : List Nat}
    (pending : Pending elements start (cut :: cuts)) : Pending elements cut cuts where
  sorted := pending.sorted.tail
  inside later h := ⟨(List.pairwise_cons.mp pending.sorted).1 later h,
    (pending.inside later (by simp [h])).2⟩

/-- At the first cut there is a text before it and a text after it. -/
theorem Pending.head {elements : List α} {start cut : Nat} {cuts : List Nat}
    (pending : Pending elements start (cut :: cuts)) : start < cut ∧ cut < elements.length :=
  pending.inside cut (by simp)

theorem pending_cutPoints (elements : List α) (offsets : List Nat) :
    Pending elements 0 (cutPoints elements.length offsets) where
  sorted := pairwise_cutPoints elements.length offsets
  inside _ h := (mem_cutPoints.mp h).2

theorem slices_ne_nil {elements : List α} {start : Nat} {cuts : List Nat}
    (more : start < elements.length) : slices elements start cuts ≠ [] := by
  cases cuts <;> simp [slices, more]

/-- The pieces are what stands from the last cut made on, without a gap. -/
theorem flatten_slices {elements : List α} {start : Nat} {cuts : List Nat}
    (pending : Pending elements start cuts) :
    (slices elements start cuts).flatten = elements.drop start := by
  induction cuts generalizing start with
  | nil =>
    rw [slices]
    split
    · simp
    · rename_i h
      exact (List.drop_eq_nil_of_le (Nat.not_lt.mp h)).symm
  | cons cut cuts ih =>
    have forward : start ≤ cut := Nat.le_of_lt pending.head.1
    calc (slices elements start (cut :: cuts)).flatten
        = (elements.drop start).take (cut - start) ++ elements.drop cut := by
          simp [slices, ih pending.tail]
      _ = (elements.drop start).take (cut - start) ++
            (elements.drop start).drop (cut - start) := by
          rw [List.drop_drop, Nat.add_sub_cancel' forward]
      _ = elements.drop start := List.take_append_drop ..

theorem ne_nil_of_mem_slices {elements : List α} {start : Nat} {cuts : List Nat}
    (pending : Pending elements start cuts) :
    ∀ chunk ∈ slices elements start cuts, chunk ≠ [] := by
  induction cuts generalizing start with
  | nil =>
    intro chunk hchunk
    rw [slices] at hchunk
    split at hchunk
    · rename_i more
      rw [List.mem_singleton.mp hchunk]
      simpa using more
    · cases hchunk
  | cons cut cuts ih =>
    intro chunk hchunk
    rcases List.mem_cons.mp hchunk with rfl | later
    · have := pending.head
      apply List.ne_nil_of_length_pos
      simp only [List.extract_eq_take_drop, List.length_take, List.length_drop]
      omega
    · exact ih pending.tail chunk later

/-- The pieces meet at the cuts, and nowhere else. -/
theorem isBoundary_slices {elements : List α} {start : Nat} {cuts : List Nat}
    (pending : Pending elements start cuts) (offset : Nat) :
    IsBoundary (slices elements start cuts) offset ↔ start + offset ∈ cuts := by
  induction cuts generalizing start offset with
  | nil =>
    rw [slices]
    split
    · simp [isBoundary_cons]
    · constructor
      · rintro ⟨before, _, split, hbefore, _⟩
        exact absurd (List.append_eq_nil_iff.mp split.symm).1 hbefore
      · nofun
  | cons cut cuts ih =>
    obtain ⟨forward, more⟩ := pending.head
    have piece : (elements.extract start cut).length = cut - start := by
      simp only [List.extract_eq_take_drop, List.length_take, List.length_drop]
      omega
    rw [slices, isBoundary_cons, piece, List.mem_cons]
    simp only [slices_ne_nil more, ne_eq, not_false_eq_true, true_and, ih pending.tail]
    constructor
    · rintro (rfl | ⟨later, hlater, rfl⟩)
      · exact .inl (by omega)
      · refine .inr ?_
        rwa [show start + (cut - start + later) = cut + later by omega]
    · rintro (here | hlater)
      · exact .inl (by omega)
      · refine .inr ⟨start + offset - cut, ?_, ?_⟩
        · have := (pending.tail.inside _ hlater).1
          rwa [show cut + (start + offset - cut) = start + offset by omega]
        · have := (pending.tail.inside _ hlater).1
          omega

/-- A text cut at offsets is cut at the offsets inside it: no chunk is empty, the chunks one after
the other are the text, and chunks meet at the given offsets that are neither at an end nor
outside. Offsets in another order, offsets that repeat and offsets that are not inside change
nothing, for the chunks depend on which offsets inside the text are given. There is no chunk just
when there is no text. -/
theorem atOffsets_partitions (elements : List α) (offsets : List Nat) :
    (∀ chunk ∈ atOffsets elements offsets, chunk ≠ []) ∧
    (atOffsets elements offsets).flatten = elements ∧
    (∀ offset, IsBoundary (atOffsets elements offsets) offset ↔
      offset ∈ offsets ∧ 0 < offset ∧ offset < elements.length) ∧
    (∀ others,
      (∀ offset, 0 < offset → offset < elements.length → (offset ∈ others ↔ offset ∈ offsets)) →
      atOffsets elements others = atOffsets elements offsets) ∧
    (atOffsets elements offsets = [] ↔ elements = []) := by
  have pending := pending_cutPoints elements offsets
  have whole : (atOffsets elements offsets).flatten = elements := flatten_slices pending
  have filled := ne_nil_of_mem_slices pending
  refine ⟨filled, whole, fun offset => ?_, fun others inside => ?_, fun none => ?_, ?_⟩
  · rw [atOffsets, isBoundary_slices pending, Nat.zero_add, mem_cutPoints]
  · rw [atOffsets, cutPoints_congr inside, atOffsets]
  · rw [← whole, none, List.flatten_nil]
  · rintro rfl
    apply List.eq_nil_iff_forall_not_mem.mpr
    intro chunk hchunk
    exact filled chunk hchunk (List.flatten_eq_nil_iff.mp whole chunk hchunk)

/-- Six letters cut at offsets in disorder, one of them twice, one at an end and one outside, are
cut as at the two inside. -/
theorem atOffsets_partitions_letters :
    atOffsets ['a', 'b', 'c', 'd', 'e', 'f'] [4, 0, 2, 4, 99] =
        [['a', 'b'], ['c', 'd'], ['e', 'f']] ∧
      atOffsets ['a', 'b', 'c', 'd', 'e', 'f'] [2, 4] =
        atOffsets ['a', 'b', 'c', 'd', 'e', 'f'] [4, 0, 2, 4, 99] := by
  obtain ⟨-, -, -, same, -⟩ :=
    atOffsets_partitions ['a', 'b', 'c', 'd', 'e', 'f'] [4, 0, 2, 4, 99]
  refine ⟨?_, same [2, 4] fun offset _ inside => ?_⟩
  · simp [atOffsets, cutPoints, slices, List.mergeSort, List.MergeSort.Internal.splitInTwo,
      List.eraseReps, List.eraseRepsBy, List.eraseRepsBy.loop]
  · simp only [List.length_cons, List.length_nil] at inside
    simp only [List.mem_cons, List.not_mem_nil, or_false]
    omega

/-! ### Chunks of equal size -/

/-- Chunks of a size are the elements in their order. -/
theorem flatten_ofSize (size : Nat) (elements : List α) :
    (ofSize size elements).flatten = elements := by
  fun_induction ofSize size elements with
  | case1 => rfl
  | case2 first rest ih => simp [ih]

theorem ofSize_eq_nil_iff {size : Nat} {elements : List α} :
    ofSize size elements = [] ↔ elements = [] := by
  cases elements <;> simp [ofSize]

/-- A chunk holds one element at least and `size` elements at most. -/
theorem length_of_mem_ofSize {size : Nat} (positive : 0 < size) (elements : List α) :
    ∀ chunk ∈ ofSize size elements, 0 < chunk.length ∧ chunk.length ≤ size := by
  fun_induction ofSize size elements with
  | case1 => nofun
  | case2 first rest ih =>
    intro chunk hchunk
    rcases List.mem_cons.mp hchunk with rfl | later
    · simp only [List.length_cons, List.length_take]
      omega
    · exact ih chunk later

/-- A chunk that another one follows is full. -/
theorem length_of_mem_dropLast_ofSize {size : Nat} (positive : 0 < size) {elements : List α} :
    ∀ chunk ∈ (ofSize size elements).dropLast, chunk.length = size := by
  fun_induction ofSize size elements with
  | case1 => nofun
  | case2 first rest ih =>
    intro chunk hchunk
    -- The first chunk is one of those before the last only if elements are left after it.
    by_cases more : ofSize size (rest.drop (size - 1)) = []
    · simp [more] at hchunk
    · rw [List.dropLast_cons_of_ne_nil more] at hchunk
      rcases List.mem_cons.mp hchunk with rfl | later
      · rw [ofSize_eq_nil_iff, List.drop_eq_nil_iff] at more
        simp only [List.length_cons, List.length_take]
        omega
      · exact ih chunk later

/-- A text that is not empty takes one chunk more than what is left of it after the first. -/
theorem ceilDiv_sub_succ {size : Nat} (positive : 0 < size) (length : Nat) :
    (length - (size - 1)) ⌈/⌉ size + 1 = (length + 1) ⌈/⌉ size := by
  apply eq_of_forall_ge_iff
  intro n
  rw [ceilDiv_le_iff_le_smul positive, smul_eq_mul]
  cases n with
  | zero => simp
  | succ n =>
    rw [Nat.add_le_add_iff_right, ceilDiv_le_iff_le_smul positive, smul_eq_mul, Nat.mul_succ]
    omega

/-- There are as many chunks as the length divided by the size, rounded up. -/
theorem length_ofSize {size : Nat} (positive : 0 < size) (elements : List α) :
    (ofSize size elements).length = elements.length ⌈/⌉ size := by
  fun_induction ofSize size elements with
  | case1 => simp
  | case2 first rest ih =>
    rw [List.length_cons, ih, List.length_drop, ceilDiv_sub_succ positive, List.length_cons]

/-! ### The size of the chunks -/

theorem ceilDiv_of_mod_eq_zero {length parts : Nat} (positive : 0 < parts)
    (divides : length % parts = 0) : length ⌈/⌉ parts = length / parts := by
  calc length ⌈/⌉ parts
      = (parts • (length / parts)) ⌈/⌉ parts := by
        rw [smul_eq_mul, Nat.mul_div_cancel' (Nat.dvd_of_mod_eq_zero divides)]
    _ = length / parts := smul_ceilDiv positive _

/-- To round up is to count up the quotient where something remains. -/
theorem ceilDiv_of_mod_ne_zero {length parts : Nat} (positive : 0 < parts)
    (remains : length % parts ≠ 0) : length ⌈/⌉ parts = length / parts + 1 := by
  have parted := Nat.div_add_mod length parts
  apply Nat.le_antisymm
  · have := Nat.mod_lt length positive
    rw [ceilDiv_le_iff_le_smul positive, smul_eq_mul, Nat.mul_succ]
    omega
  · apply Nat.lt_of_not_le
    rw [ceilDiv_le_iff_le_smul positive, smul_eq_mul]
    omega

/-- A quotient that leaves a remainder can be counted up in 64 bits: its divisor is two or more, so
that it is at most half of a number of 64 bits. -/
theorem successor_div_eq_ok {length parts : Nat} (positive : 0 < parts) (fits : length < 2 ^ 64)
    (remains : length % parts ≠ 0) : successor (length / parts) = .ok (length / parts + 1) := by
  have several : 2 ≤ parts := by
    have := Nat.mod_lt length positive
    omega
  have half : length / parts ≤ length / 2 := Nat.div_le_div_left several Nat.two_pos
  rw [successor, if_pos]
  omega

/-- The share of a part is the length divided by the number of parts, rounded up, and no number on
the way to it is too large for 64 bits. -/
theorem share_eq_ok {length parts : Nat} (positive : 0 < parts) (fits : length < 2 ^ 64) :
    share length parts = .ok (length ⌈/⌉ parts) := by
  rw [share]
  split
  · rename_i divides
    rw [ceilDiv_of_mod_eq_zero positive divides]
  · rename_i remains
    rw [successor_div_eq_ok positive fits remains, ceilDiv_of_mod_ne_zero positive remains]

/-- A text that is cut into chunks as long as the share of a part has no more chunks than parts. -/
theorem ceilDiv_max_ceilDiv_le (length : Nat) {parts : Nat} (positive : 0 < parts) :
    length ⌈/⌉ max 1 (length ⌈/⌉ parts) ≤ parts := by
  rw [ceilDiv_le_iff_le_smul (by omega), smul_eq_mul]
  calc length
      ≤ parts * (length ⌈/⌉ parts) := le_smul_ceilDiv positive
    _ ≤ parts * max 1 (length ⌈/⌉ parts) := Nat.mul_le_mul_left _ (Nat.le_max_right ..)
    _ = max 1 (length ⌈/⌉ parts) * parts := Nat.mul_comm ..

/-- A text, whose length is a number of 64 bits, is cut into parts of equal size without a number too
large for 64 bits. No chunk is empty, and the chunks one after the other are the text. There are no
more chunks than parts and no more than elements. All chunks but the last one have the same length,
which is the share of a part but at least one, and the last one is not longer. -/
theorem evenly_covers (elements : List α) (parts : Nat) (positive : 0 < parts)
    (fits : elements.length < 2 ^ 64) :
    ∃ chunks, evenly elements parts = .ok chunks ∧
      chunks.flatten = elements ∧
      (∀ chunk ∈ chunks, chunk ≠ []) ∧
      chunks.length ≤ parts ∧
      chunks.length ≤ elements.length ∧
      (∀ chunk ∈ chunks.dropLast, chunk.length = max 1 (elements.length ⌈/⌉ parts)) ∧
      ∀ last ∈ chunks.getLast?, last.length ≤ max 1 (elements.length ⌈/⌉ parts) := by
  have filled : 0 < max 1 (elements.length ⌈/⌉ parts) := by omega
  have cut : evenly elements parts =
      .ok (ofSize (max 1 (elements.length ⌈/⌉ parts)) elements) := by
    rw [evenly, if_neg (Nat.ne_of_gt positive), share_eq_ok positive fits]
    rfl
  have bounds := length_of_mem_ofSize filled elements
  refine ⟨_, cut, flatten_ofSize _ elements, fun chunk hchunk => ?_, ?_, ?_,
    length_of_mem_dropLast_ofSize filled, fun last hlast => ?_⟩
  · exact List.ne_nil_of_length_pos (bounds chunk hchunk).1
  · rw [length_ofSize filled]
    exact ceilDiv_max_ceilDiv_le elements.length positive
  · rw [length_ofSize filled, ceilDiv_le_iff_le_smul filled, smul_eq_mul]
    exact Nat.le_mul_of_pos_left _ filled
  · exact (bounds last (List.mem_of_mem_getLast? hlast)).2

/-- Five letters cut into four parts take three chunks, the last one shorter. Two letters cut into
as many parts as 64 bits can count take two chunks, although the sum of both numbers is too large
for 64 bits. -/
theorem evenly_covers_letters :
    (∃ chunks, evenly ['a', 'b', 'c', 'd', 'e'] 4 = .ok chunks ∧
      chunks = [['a', 'b'], ['c', 'd'], ['e']] ∧ chunks.length ≤ 4) ∧
    ∃ chunks, evenly ['a', 'b'] 18446744073709551615 = .ok chunks ∧
      chunks = [['a'], ['b']] ∧ chunks.length ≤ 2 := by
  obtain ⟨five, cutFive, -, -, few, -⟩ :=
    evenly_covers ['a', 'b', 'c', 'd', 'e'] 4 (by decide) (by decide)
  obtain ⟨two, cutTwo, -, -, -, short, -⟩ :=
    evenly_covers ['a', 'b'] 18446744073709551615 (by decide) (by decide)
  refine ⟨⟨five, cutFive, ?_, few⟩, two, cutTwo, ?_, short⟩
  · simpa [evenly, share, successor, ofSize, Except.map] using cutFive.symm
  · simpa [evenly, share, successor, ofSize, Except.map] using cutTwo.symm

end StreamingJson.Chunking
