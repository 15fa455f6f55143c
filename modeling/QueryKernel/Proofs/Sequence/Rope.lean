import QueryKernel.Proofs.Sequence.Spine

/-!
# Well-formed ropes

A rope is well formed if its ends hold an allowed number of loose items, its middle is a well-formed
finger tree, and its size is right.

The non-trivial ingredient is `Bundle.ofParts_holds`: whatever the lengths of two ends, moving items between
them and the middle makes them fit, unless so few items are left that the sequence is rebuilt.
-/

namespace QueryKernel

variable {α : Type}

open Block (AllWellFormed listItems)

/-! ## Leaves -/

theorem flatten_cutRuns (base count extra : Nat) (items : List α) (enough : items.length ≤ base * count + extra)
    (few : extra ≤ count) : (cutRuns base count extra items).flatten = items := by
  induction count generalizing extra items with
  | zero =>
      have : items.length = 0 := by omega
      simp [cutRuns, List.length_eq_zero_iff.1 this]
  | succ count count_ih =>
      simp only [cutRuns, List.flatten_cons]
      rw [count_ih, List.take_append_drop]
      · simp only [List.length_drop]
        rw [Nat.mul_succ] at enough
        split <;> omega
      · omega

theorem length_of_mem_cutRuns {base count : Nat} (extra : Nat) (items : List α) {run : List α}
    (exact : items.length = base * count + extra) (few : extra ≤ count)
    (member : run ∈ cutRuns base count extra items) :
    run.length = base ∨ run.length = base + 1 ∧ 0 < extra := by
  induction count generalizing extra items with
  | zero => simp [cutRuns] at member
  | succ count count_ih =>
      rw [Nat.mul_succ] at exact
      simp only [cutRuns, List.mem_cons] at member
      rcases member with rfl | inRest
      · simp only [List.length_take]
        split <;> omega
      · have := count_ih (extra - 1) (items.drop _)
          (by simp only [List.length_drop]; split <;> omega) (by omega) inRest
        omega

theorem listItems_map_leaf (runs : List (List α)) :
    listItems (runs.map Block.leaf) = runs.flatten := by
  induction runs with
  | nil => rfl
  | cons run rest rest_ih => simp [rest_ih, Block.toList]

theorem listItems_cutLeaves (items : List α) : listItems (cutLeaves items) = items := by
  unfold cutLeaves
  simp only [listItems_map_leaf]
  by_cases nothing : items.length = 0
  · simp [List.length_eq_zero_iff.1 nothing, cutRuns, maxLeaf]
  · have positive : 0 < (items.length + maxLeaf - 1) / maxLeaf := by
      simp only [maxLeaf]
      omega
    have division := Nat.div_add_mod' items.length ((items.length + maxLeaf - 1) / maxLeaf)
    have remainder := Nat.mod_lt items.length positive
    exact flatten_cutRuns _ _ _ _ (by omega) (by omega)

theorem cutLeaves_wellFormed (items : List α) (enough : minLeaf ≤ items.length) :
    AllWellFormed 0 (cutLeaves items) := by
  intro block member
  unfold cutLeaves at member
  simp only [List.mem_map] at member
  obtain ⟨run, inRuns, rfl⟩ := member
  simp only [minLeaf] at enough
  generalize countEq : (items.length + maxLeaf - 1) / maxLeaf = count at inRuns
  have positive : 0 < count := by
    rw [← countEq]
    simp only [maxLeaf]
    omega
  have division := Nat.div_add_mod' items.length count
  have remainder := Nat.mod_lt items.length positive
  have length := length_of_mem_cutRuns _ _ (by omega) (by omega) inRuns
  -- With `count` the least number of leaves that is enough, an even share is neither below 8 nor above 15.
  have most : items.length ≤ 15 * count := by
    rw [← countEq]
    simp only [maxLeaf]
    omega
  have fewest : 15 * count < items.length + 15 := by
    rw [← countEq]
    simp only [maxLeaf]
    omega
  have shareAbove : items.length / count ≤ 15 := by
    apply Nat.le_of_lt_succ
    apply (Nat.div_lt_iff_lt_mul positive).2
    omega
  have shareBelow : 8 ≤ items.length / count := by
    apply (Nat.le_div_iff_mul_le positive).2
    by_cases one : count = 1
    · omega
    · omega
  have notFull : 0 < items.length % count → items.length / count < 15 := by
    intro someLeft
    rcases Nat.lt_or_ge (items.length / count) 15 with below | full
    · exact below
    · have share : items.length / count = 15 := by omega
      rw [share] at division
      omega
  refine Block.wellFormed_leaf ?_ ?_
  · simp only [minLeaf]
    omega
  · simp only [maxLeaf]
    omega

/-! ## Shapes -/

namespace Rope

/-- The ends hold an allowed number of items, the middle is well formed, and the size is right. -/
structure WellFormed (r : Rope α) : Prop where
  front_least : minLoose ≤ r.front.length
  front_most : r.front.length ≤ maxLoose
  back_least : minLoose ≤ r.back.length
  back_most : r.back.length ≤ maxLoose
  middle : r.middle.WellFormed 0
  size_eq : r.size = r.toList.length

theorem length_toList (r : Rope α) :
    r.toList.length = r.front.length + r.middle.toList.length + r.back.length := by
  simp [toList, Nat.add_assoc]

theorem WellFormed.length_ge {r : Rope α} (wellFormed : r.WellFormed) : 8 ≤ r.toList.length := by
  have front := wellFormed.front_least
  have back := wellFormed.back_least
  rw [length_toList]
  simp only [minLoose] at front back
  omega

theorem ofParts_wellFormed {front back : List α} {middle : Spine α} (inner : middle.WellFormed 0)
    (frontLeast : minLoose ≤ front.length) (frontMost : front.length ≤ maxLoose)
    (backLeast : minLoose ≤ back.length) (backMost : back.length ≤ maxLoose) :
    (ofParts front middle back).WellFormed := by
  refine ⟨frontLeast, frontMost, backLeast, backMost, inner, ?_⟩
  simp only [ofParts, toList, List.length_append, inner.size_eq]
  omega

@[simp] theorem toList_ofParts (front : List α) (middle : Spine α) (back : List α) :
    (ofParts front middle back).toList = front ++ middle.toList ++ back := rfl

theorem WellFormed.check_eq {r : Rope α} (wellFormed : r.WellFormed) : r.check = .ok () := by
  have total : r.front.length + r.back.length + r.middle.toList.length = r.size := by
    rw [wellFormed.size_eq, length_toList]
    omega
  have left : check.checkEnd "left" r.front = .ok () := by
    simp [check.checkEnd, wellFormed.front_least, wellFormed.front_most]
  have right : check.checkEnd "right" r.back = .ok () := by
    simp [check.checkEnd, wellFormed.back_least, wellFormed.back_most]
  simp [check, left, right, wellFormed.middle.check_eq, total, bind, Except.bind]

end Rope

namespace Bundle

/-- Up to seven items are flat, more are a well-formed rope. -/
def Shaped : Bundle α → Prop
  | flat items => items.length ≤ maxFlat
  | rope r => r.WellFormed

/-- A sequence in the right shape that holds the given items. -/
def Holds (b : Bundle α) (items : List α) : Prop := b.Shaped ∧ b.toList = items

theorem ofList_holds (items : List α) : (ofList items).Holds items := by
  unfold ofList
  by_cases few : items.length ≤ maxFlat
  · simp only [if_pos few]
    exact ⟨few, rfl⟩
  simp only [if_neg few]
  simp only [maxFlat] at few
  by_cases some : items.length ≤ 2 * maxLoose
  · simp only [if_pos some]
    simp only [maxLoose] at some
    refine ⟨Rope.ofParts_wellFormed trivial ?_ ?_ ?_ ?_, by simp [toList, Spine.toList]⟩ <;>
      simp only [List.length_take, List.length_drop, minLoose, maxLoose] <;> omega
  -- Eight items stay at each end, and the others are cut into leaves.
  simp only [if_neg some, minLeaf]
  simp only [maxLoose] at some
  refine ⟨Rope.ofParts_wellFormed ?_ ?_ ?_ ?_ ?_, ?_⟩
  · apply Spine.WellFormed.pushAllBack (s := .empty) trivial
    apply cutLeaves_wellFormed
    simp only [List.length_take, List.length_drop, minLeaf]
    omega
  · simp only [List.length_take, minLoose]; omega
  · simp only [List.length_take, maxLoose]; omega
  · simp only [List.length_drop, minLoose]; omega
  · simp only [List.length_drop, maxLoose]; omega
  · simp only [toList, Rope.toList_ofParts, Spine.toList_pushAllBack, listItems_cutLeaves,
      Spine.toList, List.nil_append]
    have inner : items.drop (items.length - 8) =
        (items.drop 8).drop (items.length - 2 * 8) := by
      rw [List.drop_drop]
      congr 1
      omega
    rw [inner, List.append_assoc, List.take_append_drop, List.take_append_drop]

/-! ### Ends of any length -/

theorem shedFront_spec (front : List α) {middle : Spine α} (inner : middle.WellFormed 0) :
    (shedFront front middle).1.length ≤ maxLoose ∧ (shedFront front middle).2.WellFormed 0 ∧
      (shedFront front middle).1 ++ (shedFront front middle).2.toList = front ++ middle.toList := by
  unfold shedFront
  split
  · next long =>
      simp only [maxLoose, minLeaf] at long ⊢
      refine ⟨?_, inner.pushAllFront (cutLeaves_wellFormed _ ?_), ?_⟩
      · simp only [List.length_take]; omega
      · simp only [List.length_drop, minLeaf]; omega
      · rw [Spine.toList_pushAllFront, listItems_cutLeaves, ← List.append_assoc, List.take_append_drop]
  · next fits => exact ⟨Nat.le_of_not_lt fits, inner, rfl⟩

theorem shedBack_spec {middle : Spine α} (inner : middle.WellFormed 0) (back : List α) :
    (shedBack middle back).2.length ≤ maxLoose ∧ (shedBack middle back).1.WellFormed 0 ∧
      (shedBack middle back).1.toList ++ (shedBack middle back).2 = middle.toList ++ back := by
  unfold shedBack
  split
  · next long =>
      simp only [maxLoose, minLeaf] at long ⊢
      refine ⟨?_, inner.pushAllBack (cutLeaves_wellFormed _ ?_), ?_⟩
      · simp only [List.length_drop]; omega
      · simp only [List.length_take, minLeaf]; omega
      · rw [Spine.toList_pushAllBack, listItems_cutLeaves, List.append_assoc, List.take_append_drop]
  · next fits => exact ⟨Nat.le_of_not_lt fits, inner, rfl⟩

theorem length_leaf {block : Block α} (leaf : block.WellFormed 0) :
    minLeaf ≤ block.toList.length ∧ block.toList.length ≤ maxLeaf := by
  cases block with
  | leaf items => exact leaf
  | pair size a b => exact leaf.elim
  | triple size a b c => exact leaf.elim

/-- A front that is still short after filling up had nothing to be filled from. -/
theorem fillFront_spec {front : List α} {middle : Spine α} (most : front.length ≤ maxLoose)
    (inner : middle.WellFormed 0) :
    (fillFront front middle).1.length ≤ maxLoose ∧ (fillFront front middle).2.WellFormed 0 ∧
      (fillFront front middle).1 ++ (fillFront front middle).2.toList = front ++ middle.toList ∧
      ((fillFront front middle).2 ≠ .empty → minLoose ≤ (fillFront front middle).1.length) := by
  unfold fillFront
  split
  · next short =>
      have popped := inner.popFront_spec
      split
      · next block rest taken =>
          rw [taken] at popped
          obtain ⟨leaf, fits, whole⟩ := popped
          have length := length_leaf leaf
          simp only [minLeaf, maxLeaf, minLoose] at length short
          refine ⟨?_, fits, by simp [whole], fun _ => ?_⟩ <;>
            simp only [List.length_append, maxLoose, minLoose] <;> omega
      · next none =>
          refine ⟨most, inner, rfl, fun some => ?_⟩
          exact (some (Spine.popFront_eq_none_iff.1 none)).elim
  · next enough => exact ⟨most, inner, rfl, fun _ => Nat.le_of_not_lt enough⟩

theorem fillBack_spec {middle : Spine α} {back : List α} (inner : middle.WellFormed 0)
    (most : back.length ≤ maxLoose) :
    (fillBack middle back).2.length ≤ maxLoose ∧ (fillBack middle back).1.WellFormed 0 ∧
      (fillBack middle back).1.toList ++ (fillBack middle back).2 = middle.toList ++ back ∧
      ((fillBack middle back).1 ≠ .empty → minLoose ≤ (fillBack middle back).2.length) ∧
      (middle = .empty → (fillBack middle back).1 = .empty) := by
  unfold fillBack
  split
  · next short =>
      have popped := inner.popBack_spec
      split
      · next block rest taken =>
          rw [taken] at popped
          obtain ⟨leaf, fits, whole⟩ := popped
          -- A leaf is enough to fill up the back, and does not overfill it.
          have length := length_leaf leaf
          simp only [minLeaf, maxLeaf, minLoose] at length short
          refine ⟨?_, fits, by simp [whole], fun _ => ?_, fun nothing => ?_⟩
          · simp only [List.length_append, maxLoose]; omega
          · simp only [List.length_append, minLoose]; omega
          · rw [nothing] at taken
            simp [Spine.popBack] at taken
      · next none =>
          refine ⟨most, inner, rfl, fun some => ?_, fun nothing => nothing⟩
          exact (some (Spine.popBack_eq_none_iff.1 none)).elim
  · next enough =>
      exact ⟨most, inner, rfl, fun _ => Nat.le_of_not_lt enough, fun nothing => nothing⟩

theorem ofParts_holds (front : List α) {middle : Spine α} (inner : middle.WellFormed 0)
    (back : List α) : (ofParts front middle back).Holds (front ++ middle.toList ++ back) := by
  unfold ofParts
  -- Each step keeps the items together, and its bounds are what the next one starts from.
  obtain ⟨frontMost, frontFits, frontItems⟩ := shedFront_spec front inner
  generalize shedFront front middle = shed at frontMost frontFits frontItems
  obtain ⟨front₁, middle₁⟩ := shed
  obtain ⟨backMost, backFits, backItems⟩ := shedBack_spec frontFits back
  dsimp only at frontItems backMost backFits backItems ⊢
  generalize shedBack middle₁ back = shed at backMost backFits backItems
  obtain ⟨middle₂, back₂⟩ := shed
  obtain ⟨filledMost, filledFits, filledItems, frontLeast⟩ := fillFront_spec frontMost backFits
  dsimp only at backItems filledMost filledFits filledItems frontLeast ⊢
  generalize fillFront front₁ middle₂ = filled at filledMost filledFits filledItems frontLeast
  obtain ⟨front₃, middle₃⟩ := filled
  obtain ⟨mostBack, fits, lastItems, backLeast, stays⟩ := fillBack_spec filledFits backMost
  dsimp only at filledItems mostBack fits lastItems frontLeast backLeast stays ⊢
  generalize fillBack middle₃ back₂ = filled at mostBack fits lastItems backLeast stays
  obtain ⟨middle₄, back₄⟩ := filled
  dsimp only at lastItems mostBack fits backLeast stays ⊢
  have whole : front₃ ++ middle₄.toList ++ back₄ = front ++ middle.toList ++ back := by
    rw [List.append_assoc, lastItems, ← List.append_assoc, filledItems, List.append_assoc, backItems,
      ← List.append_assoc, frontItems]
  split
  · next rebuilt =>
      have nothing := Spine.isEmpty_iff.1 rebuilt.1
      rw [nothing, Spine.toList, List.append_nil] at whole
      rw [← whole]
      exact ofList_holds _
  · next kept =>
      -- Without a middle the rope has been kept only because both ends are long enough.
      refine ⟨Rope.ofParts_wellFormed fits ?_ filledMost ?_ mostBack, whole⟩
      · by_cases nothing : middle₄ = .empty
        · simp [nothing, Spine.isEmpty] at kept
          omega
        · exact frontLeast fun gone => nothing (stays gone)
      · by_cases nothing : middle₄ = .empty
        · simp [nothing, Spine.isEmpty] at kept
          omega
        · exact backLeast nothing

end Bundle

end QueryKernel
