import QueryKernel.Proofs.Sequence.Rope

/-!
# Edits of ropes

Every edit of a well-formed rope stands for the same edit of the list of its items, and gives a
sequence in the shape that its length asks for.

Everything rests on `WellFormed.remove_holds`: a leaf that gets too short is joined with the next one or the
previous one, or its items go to the back when it was the only leaf.
-/

namespace QueryKernel

variable {α : Type}

open Block (AllWellFormed listItems)

/-! ## Lists of two parts -/

theorem drop_append_right {front : List α} {n : Nat} (past : front.length ≤ n) (back : List α) :
    (front ++ back).drop n = back.drop (n - front.length) := by
  rw [List.drop_append, List.drop_eq_nil_of_le past, List.nil_append]

theorem take_append_right {front : List α} {n : Nat} (past : front.length ≤ n) (back : List α) :
    (front ++ back).take n = front ++ back.take (n - front.length) := by
  rw [List.take_append, List.take_of_length_le past]

theorem insertIdx_append_left {front : List α} {i : Nat} (inFront : i ≤ front.length) (a : α)
    (back : List α) : (front ++ back).insertIdx i a = front.insertIdx i a ++ back := by
  induction front generalizing i with
  | nil =>
      have : i = 0 := by simpa using inFront
      simp [this]
  | cons b rest rest_ih =>
      cases i with
      | zero => simp
      | succ i => simpa using rest_ih (by simpa using inFront)

theorem insertIdx_append_right (front : List α) {i : Nat} (past : front.length ≤ i) (a : α)
    (back : List α) : (front ++ back).insertIdx i a = front ++ back.insertIdx (i - front.length) a := by
  induction front generalizing i with
  | nil => simp
  | cons b rest rest_ih =>
      cases i with
      | zero => simp at past
      | succ i => simpa using rest_ih (by simpa using past)

theorem insertIdx_eq_take_drop {items : List α} {i : Nat} (inside : i ≤ items.length) (a : α) :
    items.insertIdx i a = items.take i ++ a :: items.drop i := by
  have atPlace : (items.take i).length = i := by rw [List.length_take, Nat.min_eq_left inside]
  have split := insertIdx_append_right (items.take i) (i := i) (by omega) a (items.drop i)
  rwa [List.take_append_drop, atPlace, Nat.sub_self, List.insertIdx_zero] at split

/-! ## Lists of five parts -/

section Parts

variable {front before block after back : List α} {i : Nat} (past : front.length ≤ i)
  (above : before.length ≤ i - front.length)

include past above

/-- An item is inserted in the block of the middle that its position is in. -/
theorem insertIdx_within (below : i - front.length ≤ before.length + block.length) (a : α) :
    (front ++ (before ++ block ++ after) ++ back).insertIdx i a =
      front ++ (before ++ block.insertIdx (i - front.length - before.length) a ++ after) ++ back := by
  rw [insertIdx_append_left (by simp only [List.length_append]; omega), insertIdx_append_right _ past,
    insertIdx_append_left (by simp only [List.length_append]; omega), insertIdx_append_right _ above]

/-- An item is removed from the block of the middle that its position is in. -/
theorem eraseIdx_within (below : i - front.length < before.length + block.length) :
    (front ++ (before ++ block ++ after) ++ back).eraseIdx i =
      front ++ (before ++ block.eraseIdx (i - front.length - before.length) ++ after) ++ back := by
  rw [List.eraseIdx_append_of_lt_length (by simp only [List.length_append]; omega),
    List.eraseIdx_append_of_length_le past,
    List.eraseIdx_append_of_lt_length (by simp only [List.length_append]; omega),
    List.eraseIdx_append_of_length_le above]

end Parts

namespace Rope

/-! ## Edits -/

/-- A well-formed rope that holds the given items. -/
def Holds (r : Rope α) (items : List α) : Prop := r.WellFormed ∧ r.toList = items

theorem WellFormed.pushFront_holds {r : Rope α} (wellFormed : r.WellFormed) (a : α) :
    (r.pushFront a).Holds (a :: r.toList) := by
  obtain ⟨frontLeast, frontMost, backLeast, backMost, inner, sizeRight⟩ := wellFormed
  rw [length_toList] at sizeRight
  simp only [maxLoose, minLoose] at frontLeast frontMost
  unfold pushFront
  split
  · next room =>
      simp only [maxLoose] at room
      refine ⟨⟨?_, ?_, backLeast, backMost, inner, ?_⟩, rfl⟩ <;>
        simp only [length_toList, List.length_cons, minLoose, maxLoose] <;> omega
  · next full =>
      -- The first four items stay with the new one, and the others become a leaf.
      simp only [maxLoose, minLoose] at full ⊢
      have leaf : (Block.leaf (r.front.drop 4)).WellFormed 0 := by
        refine Block.wellFormed_leaf ?_ ?_ <;>
          simp only [List.length_drop, minLeaf, maxLeaf] <;> omega
      have items : (r.middle.pushFront (.leaf (r.front.drop 4))).toList =
          r.front.drop 4 ++ r.middle.toList := by
        rw [Spine.toList_pushFront]
        rfl
      refine ⟨⟨?_, ?_, backLeast, backMost, inner.pushFront leaf, ?_⟩, ?_⟩
      · simp only [List.length_cons, List.length_take, minLoose]; omega
      · simp only [List.length_cons, List.length_take, maxLoose]; omega
      · simp only [length_toList, items, List.length_append, List.length_cons, List.length_take,
          List.length_drop]
        omega
      · simp only [toList, items]
        rw [← List.append_assoc (a :: _), List.cons_append, List.take_append_drop]
        rfl

theorem WellFormed.pushBack_holds {r : Rope α} (wellFormed : r.WellFormed) (a : α) :
    (r.pushBack a).Holds (r.toList ++ [a]) := by
  obtain ⟨frontLeast, frontMost, backLeast, backMost, inner, sizeRight⟩ := wellFormed
  rw [length_toList] at sizeRight
  simp only [maxLoose, minLoose] at backLeast backMost
  unfold pushBack
  split
  · next room =>
      simp only [maxLoose] at room
      refine ⟨⟨frontLeast, frontMost, ?_, ?_, inner, ?_⟩, by simp [toList]⟩ <;>
        simp only [length_toList, List.length_append, List.length_cons, List.length_nil, minLoose,
          maxLoose] <;> omega
  · next full =>
      -- The first fifteen items become a leaf, and the others stay with the new one.
      simp only [maxLoose, maxLeaf] at full ⊢
      have leaf : (Block.leaf (r.back.take 15)).WellFormed 0 := by
        refine Block.wellFormed_leaf ?_ ?_ <;>
          simp only [List.length_take, minLeaf, maxLeaf] <;> omega
      have items : (r.middle.pushBack (.leaf (r.back.take 15))).toList =
          r.middle.toList ++ r.back.take 15 := by
        rw [Spine.toList_pushBack]
        rfl
      refine ⟨⟨frontLeast, frontMost, ?_, ?_, inner.pushBack leaf, ?_⟩, ?_⟩
      · simp only [List.length_append, List.length_drop, List.length_cons, List.length_nil, minLoose]
        omega
      · simp only [List.length_append, List.length_drop, List.length_cons, List.length_nil, maxLoose]
        omega
      · simp only [length_toList, items, List.length_append, List.length_take, List.length_drop,
          List.length_cons, List.length_nil]
        omega
      · simp only [toList, items]
        rw [← List.append_assoc r.front, List.append_assoc, ← List.append_assoc (List.take _ _),
          List.take_append_drop, ← List.append_assoc]

theorem WellFormed.append_holds {r s : Rope α} (first : r.WellFormed) (second : s.WellFormed) :
    (r.append s).Holds (r.toList ++ s.toList) := by
  have enough : minLeaf ≤ (r.back ++ s.front).length := by
    have := first.back_least
    have := second.front_least
    simp only [minLoose] at *
    simp only [List.length_append, minLeaf]
    omega
  obtain ⟨inner, items⟩ := first.middle.append_holds (cutLeaves_wellFormed _ enough) second.middle
  have whole : (r.append s).toList = r.toList ++ s.toList := by
    simp only [append, toList, items, listItems_cutLeaves, List.append_assoc]
  refine ⟨⟨first.front_least, first.front_most, second.back_least, second.back_most, inner, ?_⟩, whole⟩
  rw [whole, List.length_append, ← first.size_eq, ← second.size_eq]
  rfl

/-- A rope of the given parts, as a sequence that holds their items. -/
theorem ofParts_bundle_holds {front back : List α} {middle : Spine α} (inner : middle.WellFormed 0)
    (frontLeast : minLoose ≤ front.length) (frontMost : front.length ≤ maxLoose)
    (backLeast : minLoose ≤ back.length) (backMost : back.length ≤ maxLoose) :
    (Bundle.rope (ofParts front middle back)).Holds (front ++ middle.toList ++ back) :=
  ⟨ofParts_wellFormed inner frontLeast frontMost backLeast backMost, rfl⟩

/-- Some blocks put between two trees. -/
theorem between_holds {before after : Spine α} {blocks : List (Block α)} (front : before.WellFormed 0)
    (fit : AllWellFormed 0 blocks) (back : after.WellFormed 0) :
    ((before.pushAllBack blocks).append [] after).Holds 0
      (before.toList ++ listItems blocks ++ after.toList) := by
  obtain ⟨inner, items⟩ := (front.pushAllBack fit).append_holds .nil back
  exact ⟨inner, by simp [items]⟩

theorem WellFormed.insert_holds {r : Rope α} {i : Nat} (wellFormed : r.WellFormed) (a : α)
    (inside : i ≤ r.toList.length) : (r.insert i a).Holds (r.toList.insertIdx i a) := by
  have sizes := r.length_toList
  unfold insert
  split
  · next atFront =>
      rw [atFront, List.insertIdx_zero]
      exact wellFormed.pushFront_holds a
  split
  · next notAtFront atBack =>
      rw [atBack, wellFormed.size_eq, List.insertIdx_length_self]
      exact wellFormed.pushBack_holds a
  obtain ⟨frontLeast, frontMost, backLeast, backMost, inner, sizeRight⟩ := wellFormed
  split
  · next inFront =>
      -- A front that has grown too long is cut in two.
      have whole : r.toList.insertIdx i a = r.front.insertIdx i a ++ r.middle.toList ++ r.back := by
        rw [toList, List.append_assoc, insertIdx_append_left (by omega), List.append_assoc]
      rw [whole]
      dsimp only
      split
      · next fits =>
          have longer : (r.front.insertIdx i a).length = r.front.length + 1 :=
            List.length_insertIdx_of_le_length (by omega) a
          exact ofParts_bundle_holds inner (by omega) fits backLeast backMost
      · exact Bundle.ofParts_holds _ inner _
  split
  · next notInFront inMiddle =>
      rw [inner.size_eq] at inMiddle
      obtain ⟨before, block, after, divided, beforeFits, leaf, afterFits, whole, above, below⟩ :=
        inner.split_spec inMiddle
      rw [divided]
      have length := Bundle.length_leaf leaf
      dsimp only
      rw [beforeFits.size_eq]
      -- The place within the block that the spine has been split at.
      generalize place : i - r.front.length - before.toList.length = k
      have longer : (block.toList.insertIdx k a).length = block.toList.length + 1 :=
        List.length_insertIdx_of_le_length (by omega) a
      have leaves := cutLeaves_wellFormed (block.toList.insertIdx k a) (by omega)
      obtain ⟨fits, items⟩ := between_holds beforeFits leaves afterFits
      rw [listItems_cutLeaves] at items
      rw [toList, whole, insertIdx_within (by omega) above (by omega), place, ← items]
      exact ofParts_bundle_holds fits frontLeast frontMost backLeast backMost
  · next notInFront notInMiddle =>
      rw [inner.size_eq] at notInMiddle ⊢
      have whole : r.toList.insertIdx i a =
          r.front ++ r.middle.toList ++ r.back.insertIdx (i - r.front.length - r.middle.toList.length) a := by
        rw [toList, insertIdx_append_right _ (by simp only [List.length_append]; omega),
          List.length_append, Nat.sub_sub]
      rw [whole]
      dsimp only
      split
      · next fits =>
          have longer : (r.back.insertIdx (i - r.front.length - r.middle.toList.length) a).length =
              r.back.length + 1 := List.length_insertIdx_of_le_length (by omega) a
          exact ofParts_bundle_holds inner frontLeast frontMost (by omega) fits
      · exact Bundle.ofParts_holds _ inner _

/-! ### Leaves that have got too short -/

/-- Items that are joined with the leaf behind them. -/
theorem joinNext_holds {front back items : List α} {before after rest : Spine α} {next : Block α}
    (beforeFits : before.WellFormed 0) (afterFits : after.WellFormed 0)
    (taken : after.popFront = some (next, rest)) (frontLeast : minLoose ≤ front.length)
    (frontMost : front.length ≤ maxLoose) (backLeast : minLoose ≤ back.length) (backMost : back.length ≤ maxLoose) :
    (Bundle.rope (ofParts front ((before.pushAllBack (cutLeaves (items ++ next.toList))).append [] rest) back)).Holds
      (front ++ (before.toList ++ items ++ after.toList) ++ back) := by
  have popped := afterFits.popFront_spec
  rw [taken] at popped
  obtain ⟨leaf, restFits, wholeAfter⟩ := popped
  have length := Bundle.length_leaf leaf
  have leaves := cutLeaves_wellFormed (items ++ next.toList) (by simp only [List.length_append]; omega)
  obtain ⟨fits, whole⟩ := between_holds beforeFits leaves restFits
  have joined : before.toList ++ items ++ after.toList =
      before.toList ++ listItems (cutLeaves (items ++ next.toList)) ++ rest.toList := by
    rw [listItems_cutLeaves, wholeAfter]
    simp only [List.append_assoc]
  rw [joined, ← whole]
  exact ofParts_bundle_holds fits frontLeast frontMost backLeast backMost

/-- Items that are joined with the leaf before them. -/
theorem joinPrevious_holds {front back items : List α} {before rest : Spine α} {previous : Block α}
    (beforeFits : before.WellFormed 0) (taken : before.popBack = some (previous, rest))
    (frontLeast : minLoose ≤ front.length) (frontMost : front.length ≤ maxLoose)
    (backLeast : minLoose ≤ back.length) (backMost : back.length ≤ maxLoose) :
    (Bundle.rope (ofParts front (rest.pushAllBack (cutLeaves (previous.toList ++ items))) back)).Holds
      (front ++ (before.toList ++ items) ++ back) := by
  have popped := beforeFits.popBack_spec
  rw [taken] at popped
  obtain ⟨leaf, restFits, wholeBefore⟩ := popped
  have length := Bundle.length_leaf leaf
  have leaves := cutLeaves_wellFormed (previous.toList ++ items) (by simp only [List.length_append]; omega)
  have joined : before.toList ++ items = (rest.pushAllBack (cutLeaves (previous.toList ++ items))).toList := by
    rw [Spine.toList_pushAllBack, listItems_cutLeaves, wholeBefore, List.append_assoc]
  rw [joined]
  exact ofParts_bundle_holds (restFits.pushAllBack leaves) frontLeast frontMost backLeast backMost

theorem WellFormed.remove_holds {r : Rope α} {i : Nat} (wellFormed : r.WellFormed)
    (inside : i < r.toList.length) : (r.remove i).Holds (r.toList.eraseIdx i) := by
  have sizes := r.length_toList
  obtain ⟨frontLeast, frontMost, backLeast, backMost, inner, sizeRight⟩ := wellFormed
  unfold remove
  split
  · next inFront =>
      have whole : r.toList.eraseIdx i = r.front.eraseIdx i ++ r.middle.toList ++ r.back := by
        rw [toList, List.append_assoc, List.eraseIdx_append_of_lt_length inFront, List.append_assoc]
      rw [whole]
      dsimp only
      split
      · next enough =>
          have shorter := List.length_eraseIdx_of_lt inFront
          exact ofParts_bundle_holds inner enough (by omega) backLeast backMost
      · exact Bundle.ofParts_holds _ inner _
  split
  · next notInFront inMiddle =>
      rw [inner.size_eq] at inMiddle
      obtain ⟨before, block, after, divided, beforeFits, leaf, afterFits, whole, above, below⟩ :=
        inner.split_spec inMiddle
      rw [divided]
      have length := Bundle.length_leaf leaf
      simp only [beforeFits.size_eq]
      generalize place : i - r.front.length - before.toList.length = k
      have shorter : (block.toList.eraseIdx k).length = block.toList.length - 1 :=
        List.length_eraseIdx_of_lt (by omega)
      rw [toList, whole, eraseIdx_within (by omega) above (by omega), place]
      split
      · next enough =>
          have kept : Block.WellFormed 0 (.leaf (block.toList.eraseIdx k)) :=
            Block.wellFormed_leaf enough (by omega)
          obtain ⟨fits, items⟩ := between_holds beforeFits (.cons kept .nil) afterFits
          have listed : listItems [.leaf (block.toList.eraseIdx k)] = block.toList.eraseIdx k := by
            simp [Block.toList]
          rw [listed] at items
          rw [← items]
          exact ofParts_bundle_holds fits frontLeast frontMost backLeast backMost
      · next short =>
          -- The leaf has seven items left: they join the next leaf, the previous one, or the back.
          split
          · next next rest taken =>
              exact joinNext_holds beforeFits afterFits taken frontLeast frontMost backLeast backMost
          · next none =>
              rw [Spine.popFront_eq_none_iff.1 none, Spine.toList, List.append_nil]
              split
              · next previous rest taken =>
                  exact joinPrevious_holds beforeFits taken frontLeast frontMost backLeast backMost
              · next nothing =>
                  rw [Spine.popBack_eq_none_iff.1 nothing, Spine.toList, List.nil_append,
                    List.append_assoc]
                  have none : (Spine.empty : Spine α).WellFormed 0 := trivial
                  have spilled := Bundle.ofParts_holds r.front none (block.toList.eraseIdx k ++ r.back)
                  rwa [Spine.toList, List.append_nil] at spilled
  · next notInFront notInMiddle =>
      rw [inner.size_eq] at notInMiddle ⊢
      have whole : r.toList.eraseIdx i =
          r.front ++ r.middle.toList ++ r.back.eraseIdx (i - r.front.length - r.middle.toList.length) := by
        rw [toList, List.eraseIdx_append_of_length_le (by simp only [List.length_append]; omega),
          List.length_append, Nat.sub_sub]
      rw [whole]
      dsimp only
      split
      · next enough =>
          have shorter : (r.back.eraseIdx (i - r.front.length - r.middle.toList.length)).length =
              r.back.length - 1 := List.length_eraseIdx_of_lt (by omega)
          exact ofParts_bundle_holds inner frontLeast frontMost enough (by omega)
      · exact Bundle.ofParts_holds _ inner _

/-! ## Positions -/

theorem WellFormed.get?_eq {r : Rope α} (wellFormed : r.WellFormed) (i : Nat) :
    r.get? i = r.toList[i]? := by
  unfold get?
  rw [wellFormed.middle.size_eq, toList, List.append_assoc]
  split
  · next inFront => rw [List.getElem?_append_left inFront]
  · next notInFront =>
      rw [List.getElem?_append_right (Nat.le_of_not_lt notInFront)]
      split
      · next inMiddle =>
          obtain ⟨found, looked, around⟩ := wellFormed.middle.leafAt_around 0 inMiddle
          rw [List.getElem?_append_left inMiddle, looked, ← around.get?, Nat.zero_add]
          rfl
      · next notInMiddle => rw [List.getElem?_append_right (Nat.le_of_not_lt notInMiddle)]

theorem WellFormed.blockAt_around {r : Rope α} {i : Nat} (wellFormed : r.WellFormed)
    (inside : i < r.toList.length) : Block.Around r.toList 0 i (r.blockAt i) := by
  have sizes := r.length_toList
  unfold blockAt
  rw [wellFormed.middle.size_eq, toList, List.append_assoc]
  split
  · next inFront => exact ⟨[], r.middle.toList ++ r.back, by simp, rfl, Nat.zero_le _, by simpa using inFront⟩
  · next notInFront =>
      refine .append_left _ ?_ (by omega)
      rw [Nat.zero_add]
      split
      · next inMiddle =>
          obtain ⟨found, looked, around⟩ :=
            wellFormed.middle.leafAt_around r.front.length inMiddle
          rw [looked]
          exact around.append_right _
      · next notInMiddle =>
          refine .append_left _ ⟨[], [], by simp, rfl, Nat.zero_le _, ?_⟩ (by omega)
          simp only [List.length_nil]
          omega

/-- Looking up one position after another gives the items from the first position on. -/
theorem filterMap_get? (items : List α) (start count : Nat) :
    (List.range count).filterMap (fun k => items[start + k]?) = (items.drop start).take count := by
  induction count with
  | zero => simp
  | succ count count_ih =>
      rw [List.range_succ, List.filterMap_append, count_ih, List.take_add_one, List.getElem?_drop]
      cases looked : items[start + count]? <;> simp [looked]

/-! ## Slices -/

theorem WellFormed.dropParts_spec {r : Rope α} (wellFormed : r.WellFormed) (n : Nat) :
    (r.dropParts n).2.1.WellFormed 0 ∧
      (r.dropParts n).1 ++ (r.dropParts n).2.1.toList ++ (r.dropParts n).2.2 = r.toList.drop n := by
  have inner := wellFormed.middle
  unfold dropParts
  rw [inner.size_eq, toList]
  split
  · next inFront =>
      refine ⟨inner, ?_⟩
      rw [List.append_assoc r.front, List.drop_append_of_le_length (Nat.le_of_lt inFront),
        List.append_assoc]
  · next notInFront =>
      split
      · next inMiddle =>
          -- What is left of the block that is cut becomes the front.
          obtain ⟨before, block, after, divided, beforeFits, leaf, afterFits, whole, above, below⟩ :=
            inner.split_spec inMiddle
          rw [divided]
          refine ⟨afterFits, ?_⟩
          dsimp only
          rw [beforeFits.size_eq, whole, List.append_assoc r.front, drop_append_right (by omega),
            List.append_assoc before.toList, List.append_assoc before.toList, drop_append_right above,
            List.append_assoc block.toList, List.drop_append_of_le_length (by omega),
            List.append_assoc]
      · next notInMiddle =>
          refine ⟨trivial, ?_⟩
          have past : (r.front ++ r.middle.toList).length ≤ n := by
            simp only [List.length_append]
            omega
          rw [drop_append_right past, List.length_append, Nat.sub_sub]
          simp [Spine.toList]

theorem takeParts_spec (front : List α) {middle : Spine α} (inner : middle.WellFormed 0)
    (back : List α) (n : Nat) :
    (takeParts front middle back n).2.1.WellFormed 0 ∧
      (takeParts front middle back n).1 ++ (takeParts front middle back n).2.1.toList ++
        (takeParts front middle back n).2.2 = (front ++ middle.toList ++ back).take n := by
  unfold takeParts
  rw [inner.size_eq]
  split
  · next inFront =>
      refine ⟨trivial, ?_⟩
      rw [List.append_assoc front middle.toList, List.take_append_of_le_length inFront]
      simp [Spine.toList]
  split
  · next notInFront atEnd =>
      have exact : n = (front ++ middle.toList).length := by
        simp only [List.length_append]
        omega
      exact ⟨inner, by rw [List.append_nil, exact, List.take_left]⟩
  split
  · next notInFront notAtEnd inMiddle =>
      -- What is left of the block that is cut becomes the back.
      obtain ⟨before, block, after, divided, beforeFits, leaf, afterFits, whole, above, below⟩ :=
        inner.split_spec inMiddle
      rw [divided]
      refine ⟨beforeFits, ?_⟩
      dsimp only
      rw [beforeFits.size_eq, whole, List.append_assoc front, List.append_assoc front,
        take_append_right (by omega), List.append_assoc before.toList, List.append_assoc before.toList,
        take_append_right above, List.append_assoc block.toList,
        List.take_append_of_le_length (by omega)]
  · next notInFront notAtEnd notInMiddle =>
      have past : (front ++ middle.toList).length ≤ n := by
        simp only [List.length_append]
        omega
      refine ⟨inner, ?_⟩
      rw [take_append_right past, List.length_append, Nat.sub_sub]

theorem WellFormed.slice_holds {r : Rope α} (wellFormed : r.WellFormed) (start count : Nat)
    (inside : start + count ≤ r.toList.length) :
    (r.slice start count).Holds ((r.toList.drop start).take count) := by
  unfold slice
  split
  · next nothing => exact ⟨Nat.zero_le _, by simp [nothing, Bundle.toList]⟩
  split
  · next notNothing all =>
      rw [wellFormed.size_eq] at all
      have atStart : start = 0 := by omega
      exact ⟨wellFormed, by simp [atStart, all, Bundle.toList]⟩
  split
  · next few =>
      simp only [wellFormed.get?_eq, filterMap_get?]
      refine ⟨?_, rfl⟩
      exact Nat.le_trans (List.length_take_le _ _) few
  -- What is left may have short ends, so that the parts are put together again.
  · obtain ⟨dropFits, dropped⟩ := wellFormed.dropParts_spec start
    generalize r.dropParts start = parts at dropFits dropped
    obtain ⟨front, middle, back⟩ := parts
    dsimp only at dropFits dropped ⊢
    obtain ⟨takeFits, taken⟩ := takeParts_spec front dropFits back count
    rw [dropped] at taken
    generalize takeParts front middle back count = parts at takeFits taken
    obtain ⟨front', middle', back'⟩ := parts
    dsimp only at takeFits taken ⊢
    rw [← taken]
    exact Bundle.ofParts_holds _ takeFits _

theorem reverse_holds (r : Rope α) : r.reverse.Holds r.toList.reverse := by
  rw [reverse, items_eq_toList]
  exact Bundle.ofList_holds _

end Rope

end QueryKernel
