import QueryKernel.Number.Word
import QueryKernel.Proofs.Sequence.Rope

/-!
# Cached sizes as words

The sizes in a long sequence are words of 64 bits, each made by adding up those of the parts.  They are exact at
all levels if and only if the size of the whole fits.

Nothing else is needed: a part has at most as many items as the whole, so that no sum on the way, however deep
it is, is larger than the last one.
-/

namespace QueryKernel

variable {α : Type}

/-- A number is that of its word if it fits. -/
theorem toNat_ofNat_eq_iff {n : Nat} : (UInt64.ofNat n).toNat = n ↔ n ≤ maxSize := by
  constructor
  · intro same
    rw [← same]
    exact Nat.le_sub_one_of_lt (UInt64.toNat_lt_size _)
  · intro fits
    exact UInt64.toNat_ofNat_of_lt' (Nat.lt_of_le_pred (by decide) fits)

/-! ## Blocks -/

namespace Block

/-- The sizes of blocks, added up as words. -/
def wordOfSizes : List (Block α) → UInt64
  | [] => 0
  | b :: rest => UInt64.ofNat b.size + wordOfSizes rest

theorem wordOfSizes_eq (blocks : List (Block α)) : wordOfSizes blocks = UInt64.ofNat (listSize blocks) := by
  induction blocks with
  | nil => rfl
  | cons b rest rest_ih => rw [wordOfSizes, listSize, UInt64.ofNat_add, rest_ih]

/-- Each cached size, down to the leaves, is the sum of the words below it. -/
def AddsExactly : Block α → Prop
  | leaf items => (UInt64.ofNat items.length).toNat = items.length
  | pair size a b => (wordOfSizes [a, b]).toNat = size ∧ a.AddsExactly ∧ b.AddsExactly
  | triple size a b c =>
      (wordOfSizes [a, b, c]).toNat = size ∧ a.AddsExactly ∧ b.AddsExactly ∧ c.AddsExactly

theorem WellFormed.addsExactly {level : Nat} {block : Block α} (wellFormed : block.WellFormed level)
    (fits : block.toList.length ≤ maxSize) : block.AddsExactly := by
  induction block generalizing level with
  | leaf items => exact toNat_ofNat_eq_iff.2 fits
  | pair size a b a_ih b_ih =>
      cases level with
      | zero => exact wellFormed.elim
      | succ level =>
          obtain ⟨left, right, counted⟩ := wellFormed
          rw [toList, List.length_append] at fits
          refine ⟨?_, a_ih left (by omega), b_ih right (by omega)⟩
          rw [wordOfSizes_eq, listSize, listSize, listSize, left.size_eq, right.size_eq, Nat.add_zero, ← counted]
          exact toNat_ofNat_eq_iff.2 (counted ▸ fits)
  | triple size a b c a_ih b_ih c_ih =>
      cases level with
      | zero => exact wellFormed.elim
      | succ level =>
          obtain ⟨left, mid, right, counted⟩ := wellFormed
          rw [toList, List.length_append, List.length_append] at fits
          refine ⟨?_, a_ih left (by omega), b_ih mid (by omega), c_ih right (by omega)⟩
          rw [wordOfSizes_eq, listSize, listSize, listSize, listSize, left.size_eq, mid.size_eq, right.size_eq,
            Nat.add_zero, ← Nat.add_assoc, ← counted]
          exact toNat_ofNat_eq_iff.2 (counted ▸ fits)

theorem AllWellFormed.addsExactly {level : Nat} {blocks : List (Block α)} (all : AllWellFormed level blocks)
    (fits : (listItems blocks).length ≤ maxSize) : ∀ block ∈ blocks, block.AddsExactly := by
  intro block member
  refine (all block member).addsExactly (Nat.le_trans ?_ fits)
  exact (List.sublist_flatten_of_mem (List.mem_map_of_mem member)).length_le

end Block

/-! ## Finger trees -/

namespace Spine

open Block (wordOfSizes)

/-- Each cached size, on all levels, is the sum of the words of its parts. -/
def AddsExactly : Spine α → Prop
  | empty => True
  | single block => block.AddsExactly
  | deep size left middle right =>
      (wordOfSizes left.toList + UInt64.ofNat middle.size + wordOfSizes right.toList).toNat = size ∧
        (∀ block ∈ left.toList, block.AddsExactly) ∧ middle.AddsExactly ∧ ∀ block ∈ right.toList, block.AddsExactly

theorem WellFormed.addsExactly {level : Nat} {s : Spine α} (wellFormed : s.WellFormed level)
    (fits : s.toList.length ≤ maxSize) : s.AddsExactly := by
  induction s generalizing level with
  | empty => trivial
  | single block => exact Block.WellFormed.addsExactly wellFormed fits
  | deep size left middle right middle_ih =>
      obtain ⟨front, inner, back, counted⟩ := wellFormed
      rw [toList, List.length_append, List.length_append] at fits
      refine ⟨?_, front.addsExactly (by omega), middle_ih inner (by omega), back.addsExactly (by omega)⟩
      rw [Block.wordOfSizes_eq, Block.wordOfSizes_eq, ← UInt64.ofNat_add, ← UInt64.ofNat_add, front.listSize_eq,
        inner.size_eq, back.listSize_eq, ← counted]
      exact toNat_ofNat_eq_iff.2 (counted ▸ fits)

end Spine

/-! ## Ropes -/

namespace Rope

/-- All cached sizes are the sums of the words below them. -/
structure AddsExactly (r : Rope α) : Prop where
  whole : (UInt64.ofNat r.front.length + UInt64.ofNat r.back.length + UInt64.ofNat r.middle.size).toNat = r.size
  middle : r.middle.AddsExactly

/-- All additions of words in a rope are exact if and only if its size fits. -/
theorem WellFormed.addsExactly_iff {r : Rope α} (wellFormed : r.WellFormed) : r.AddsExactly ↔ r.size ≤ maxSize := by
  have counted : r.front.length + r.back.length + r.middle.size = r.size := by
    rw [wellFormed.size_eq, length_toList, wellFormed.middle.size_eq]
    omega
  have total : UInt64.ofNat r.front.length + UInt64.ofNat r.back.length + UInt64.ofNat r.middle.size =
      UInt64.ofNat r.size := by
    rw [← UInt64.ofNat_add, ← UInt64.ofNat_add, counted]
  constructor
  · intro exactly
    exact toNat_ofNat_eq_iff.1 (total ▸ exactly.whole)
  · intro fits
    refine ⟨?_, wellFormed.middle.addsExactly ?_⟩
    · rw [total]
      exact toNat_ofNat_eq_iff.2 fits
    · rw [← wellFormed.middle.size_eq]
      omega

end Rope

end QueryKernel
