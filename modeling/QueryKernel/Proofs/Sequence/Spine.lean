import QueryKernel.Sequence.Rope

/-!
# Well-formed finger trees

A finger tree is well formed if all elements of a level are nested equally deep, its leaves hold an
allowed number of items, and every cached size is the number of items below.  The operations keep a
tree well formed and act on its items as the list operations do.

Everything rests on `split_spec`: the parts around an element are rebuilt from ends that may run empty, so that
elements of the middle have to be taken apart.
-/

namespace QueryKernel

namespace Block

variable {α : Type}

/-- The block has the given level, allowed leaves and right sizes. -/
def WellFormed : Nat → Block α → Prop
  | 0, leaf items => minLeaf ≤ items.length ∧ items.length ≤ maxLeaf
  | level + 1, pair size a b =>
      WellFormed level a ∧ WellFormed level b ∧ size = a.toList.length + b.toList.length
  | level + 1, triple size a b c =>
      WellFormed level a ∧ WellFormed level b ∧ WellFormed level c ∧
        size = a.toList.length + b.toList.length + c.toList.length
  | _, _ => False

/-- All blocks have the given level. -/
def AllWellFormed (level : Nat) (blocks : List (Block α)) : Prop :=
  ∀ block ∈ blocks, WellFormed level block

theorem WellFormed.size_eq {level : Nat} {block : Block α} (wellFormed : WellFormed level block) :
    block.size = block.toList.length := by
  cases block with
  | leaf items => rfl
  | pair size a b =>
      cases level with
      | zero => exact wellFormed.elim
      | succ level => simpa [Block.size, toList] using wellFormed.2.2
  | triple size a b c =>
      cases level with
      | zero => exact wellFormed.elim
      | succ level =>
          have sizeRight := wellFormed.2.2.2
          simp only [Block.size, toList, List.length_append]
          omega

theorem wellFormed_leaf {items : List α} (enough : minLeaf ≤ items.length)
    (fits : items.length ≤ maxLeaf) : WellFormed 0 (leaf items) := ⟨enough, fits⟩

@[simp] theorem toList_ofPair (a b : Block α) : (ofPair a b).toList = a.toList ++ b.toList := rfl

@[simp] theorem toList_ofTriple (a b c : Block α) :
    (ofTriple a b c).toList = a.toList ++ b.toList ++ c.toList := rfl

theorem WellFormed.ofPair {level : Nat} {a b : Block α} (left : WellFormed level a)
    (right : WellFormed level b) : WellFormed (level + 1) (ofPair a b) :=
  ⟨left, right, by rw [left.size_eq, right.size_eq]⟩

theorem WellFormed.ofTriple {level : Nat} {a b c : Block α} (left : WellFormed level a)
    (mid : WellFormed level b) (right : WellFormed level c) :
    WellFormed (level + 1) (ofTriple a b c) :=
  ⟨left, mid, right, by rw [left.size_eq, mid.size_eq, right.size_eq]⟩

@[simp] theorem listItems_nil : listItems ([] : List (Block α)) = [] := rfl

@[simp] theorem listItems_cons (block : Block α) (rest : List (Block α)) :
    listItems (block :: rest) = block.toList ++ listItems rest := rfl

@[simp] theorem listItems_append (front back : List (Block α)) :
    listItems (front ++ back) = listItems front ++ listItems back := by
  simp [listItems]

theorem AllWellFormed.nil {level : Nat} : AllWellFormed level ([] : List (Block α)) :=
  fun _ member => by simp at member

theorem AllWellFormed.cons {level : Nat} {block : Block α} {rest : List (Block α)}
    (first : WellFormed level block) (others : AllWellFormed level rest) :
    AllWellFormed level (block :: rest) := by
  intro other member
  rcases List.mem_cons.1 member with rfl | inRest
  · exact first
  · exact others other inRest

theorem AllWellFormed.head {level : Nat} {block : Block α} {rest : List (Block α)}
    (all : AllWellFormed level (block :: rest)) : WellFormed level block :=
  all block List.mem_cons_self

theorem AllWellFormed.tail {level : Nat} {block : Block α} {rest : List (Block α)}
    (all : AllWellFormed level (block :: rest)) : AllWellFormed level rest :=
  fun other member => all other (List.mem_cons_of_mem _ member)

theorem AllWellFormed.append {level : Nat} {front back : List (Block α)}
    (first : AllWellFormed level front) (second : AllWellFormed level back) :
    AllWellFormed level (front ++ back) := by
  intro block member
  rcases List.mem_append.1 member with inFront | inBack
  · exact first block inFront
  · exact second block inBack

theorem AllWellFormed.divided {level : Nat} {before after : List (Block α)} {found : Block α}
    (all : AllWellFormed level (before ++ found :: after)) :
    AllWellFormed level before ∧ WellFormed level found ∧ AllWellFormed level after := by
  refine ⟨fun block member => all block ?_, all found ?_, fun block member => all block ?_⟩ <;>
    simp_all

theorem AllWellFormed.listSize_eq {level : Nat} {blocks : List (Block α)}
    (all : AllWellFormed level blocks) : listSize blocks = (listItems blocks).length := by
  induction blocks with
  | nil => rfl
  | cons block rest rest_ih =>
      simp only [listSize, listItems_cons, List.length_append]
      rw [all.head.size_eq, rest_ih all.tail]

theorem listItems_children (block : Block α) : listItems block.children = block.toList := by
  cases block <;> simp [children, listItems, toList]

theorem WellFormed.children {level : Nat} {block : Block α}
    (wellFormed : WellFormed (level + 1) block) : AllWellFormed level block.children := by
  cases block with
  | leaf items => exact wellFormed.elim
  | pair size a b => exact .cons wellFormed.1 (.cons wellFormed.2.1 .nil)
  | triple size a b c =>
      exact .cons wellFormed.1 (.cons wellFormed.2.1 (.cons wellFormed.2.2.1 .nil))

theorem listItems_group (blocks : List (Block α)) : listItems (group blocks) = listItems blocks := by
  fun_induction group blocks with
  | case1 => rfl
  | case2 a => rfl
  | case3 a b => simp
  | case4 a b c d => simp
  | case5 a b c rest _ rest_ih => simp [rest_ih]

theorem AllWellFormed.group {level : Nat} {blocks : List (Block α)}
    (all : AllWellFormed level blocks) (enough : 2 ≤ blocks.length) :
    AllWellFormed (level + 1) (group blocks) := by
  fun_induction Block.group blocks with
  | case1 => exact .nil
  | case2 a => simp at enough
  | case3 a b => exact .cons (.ofPair all.head all.tail.head) .nil
  | case4 a b c d =>
      exact .cons (.ofPair all.head all.tail.head)
        (.cons (.ofPair all.tail.tail.head all.tail.tail.tail.head) .nil)
  | case5 a b c rest notFour rest_ih =>
      refine .cons (.ofTriple all.head all.tail.head all.tail.tail.head) ?_
      -- What is left over is nothing or can be grouped again: a single block was taken with the others.
      match rest, all.tail.tail.tail with
      | [], _ => exact .nil
      | [d], _ => exact (notFour d rfl).elim
      | _ :: _ :: _, others => exact rest_ih others (by simp)

/-- The divided list is the whole, and the position is in the block found. -/
theorem AllWellFormed.splitList_spec {level : Nat} {blocks : List (Block α)} {i : Nat}
    (all : AllWellFormed level blocks) (inside : i < (listItems blocks).length) :
    ∃ before found after, splitList blocks i = some (before, found, after) ∧
      blocks = before ++ found :: after ∧ (listItems before).length ≤ i ∧
      i < (listItems before).length + found.toList.length := by
  induction blocks generalizing i with
  | nil => simp at inside
  | cons block rest rest_ih =>
      simp only [splitList]
      rw [all.head.size_eq]
      split
      · next inFirst => exact ⟨[], block, rest, rfl, rfl, Nat.zero_le _, by simpa using inFirst⟩
      · next notInFirst =>
          simp only [listItems_cons, List.length_append] at inside
          obtain ⟨before, found, after, split, whole, above, below⟩ :=
            rest_ih all.tail (i := i - block.toList.length) (by omega)
          refine ⟨block :: before, found, after, by simp [split], by simp [whole], ?_, ?_⟩ <;>
            simp only [listItems_cons, List.length_append] <;> omega

/-- The items `found` with the first one at position `first` stand around position `i` of a list that
starts at `start`. -/
def Around (whole : List α) (start i : Nat) (found : List α × Nat) : Prop :=
  ∃ before after, whole = before ++ found.1 ++ after ∧ found.2 = start + before.length ∧
    before.length ≤ i ∧ i < before.length + found.1.length

theorem Around.append_right {front : List α} {start i : Nat} {found : List α × Nat}
    (around : Around front start i found) (back : List α) :
    Around (front ++ back) start i found := by
  obtain ⟨before, after, whole, first, above, below⟩ := around
  exact ⟨before, after ++ back, by simp [whole], first, above, below⟩

theorem Around.append_left {back : List α} {start i : Nat} {found : List α × Nat}
    (front : List α) (around : Around back (start + front.length) (i - front.length) found)
    (inBack : front.length ≤ i) : Around (front ++ back) start i found := by
  obtain ⟨before, after, whole, first, above, below⟩ := around
  refine ⟨front ++ before, after, by simp [whole], ?_, ?_, ?_⟩ <;>
    simp only [List.length_append] <;> omega

theorem Around.get? {whole : List α} {start i : Nat} {found : List α × Nat}
    (around : Around whole start i found) : found.1[start + i - found.2]? = whole[i]? := by
  obtain ⟨before, after, rfl, first, above, below⟩ := around
  rw [first, List.append_assoc, List.getElem?_append_right above,
    List.getElem?_append_left (by omega)]
  congr 1
  omega

theorem WellFormed.leafAt_around {level : Nat} {block : Block α} {start i : Nat}
    (wellFormed : WellFormed level block) (inside : i < block.toList.length) :
    Around block.toList start i (block.leafAt start i) := by
  induction block generalizing level start i with
  | leaf items => exact ⟨[], [], by simp [leafAt, toList], rfl, Nat.zero_le _,
      by simpa [leafAt, toList] using inside⟩
  | pair size a b a_ih b_ih =>
      cases level with
      | zero => exact wellFormed.elim
      | succ level =>
          obtain ⟨left, right, _⟩ := wellFormed
          simp only [toList, List.length_append] at inside
          simp only [leafAt, toList]
          rw [left.size_eq]
          split
          · next inLeft => exact (a_ih left inLeft).append_right _
          · next notInLeft => exact .append_left _ (b_ih right (by omega)) (by omega)
  | triple size a b c a_ih b_ih c_ih =>
      cases level with
      | zero => exact wellFormed.elim
      | succ level =>
          obtain ⟨left, mid, right, _⟩ := wellFormed
          simp only [toList, List.length_append] at inside
          simp only [leafAt, toList, List.append_assoc]
          rw [left.size_eq, mid.size_eq]
          split
          · next inLeft => exact (a_ih left inLeft).append_right _
          · next notInLeft =>
              refine .append_left _ ?_ (by omega)
              split
              · next inMid => exact (b_ih mid inMid).append_right _
              · next notInMid => exact .append_left _ (c_ih right (by omega)) (by omega)

theorem AllWellFormed.listLeafAt_around {level : Nat} {blocks : List (Block α)} {i : Nat}
    (all : AllWellFormed level blocks) (start : Nat) (inside : i < (listItems blocks).length) :
    ∃ found, listLeafAt start blocks i = some found ∧ Around (listItems blocks) start i found := by
  induction blocks generalizing start i with
  | nil => simp at inside
  | cons block rest rest_ih =>
      simp only [listLeafAt, listItems_cons]
      rw [all.head.size_eq]
      split
      · next inFirst => exact ⟨_, rfl, (all.head.leafAt_around inFirst).append_right _⟩
      · next notInFirst =>
          simp only [listItems_cons, List.length_append] at inside
          obtain ⟨found, looked, around⟩ :=
            rest_ih (i := i - block.toList.length) all.tail (start + block.toList.length) (by omega)
          exact ⟨found, looked, around.append_left _ (by omega)⟩

theorem WellFormed.check_eq {level : Nat} {block : Block α} (wellFormed : WellFormed level block) :
    block.check minLeaf maxLeaf level = .ok block.toList.length := by
  induction block generalizing level with
  | leaf items =>
      cases level with
      | zero =>
          have fits : minLeaf ≤ items.length ∧ items.length ≤ maxLeaf := wellFormed
          simp [check, fits, toList]
      | succ level => exact wellFormed.elim
  | pair size a b a_ih b_ih =>
      cases level with
      | zero => exact wellFormed.elim
      | succ level =>
          obtain ⟨left, right, sizeRight⟩ := wellFormed
          simp [check, a_ih left, b_ih right, sizeRight, toList, bind, Except.bind]
  | triple size a b c a_ih b_ih c_ih =>
      cases level with
      | zero => exact wellFormed.elim
      | succ level =>
          obtain ⟨left, mid, right, sizeRight⟩ := wellFormed
          simp [check, a_ih left, b_ih mid, c_ih right, sizeRight, toList, bind, Except.bind,
            Nat.add_assoc]

end Block

namespace Affix

variable {α : Type}

theorem toList_ne_nil (affix : Affix α) : affix.toList ≠ [] := by
  cases affix <;> simp [toList]

theorem length_pos (affix : Affix α) : 0 < affix.toList.length :=
  List.length_pos_iff.2 affix.toList_ne_nil

end Affix

namespace Spine

variable {α : Type}

open Block (AllWellFormed listItems)

/-- The elements have the given level, and the cached sizes are right. -/
def WellFormed : Nat → Spine α → Prop
  | _, empty => True
  | level, single block => block.WellFormed level
  | level, deep size left middle right =>
      AllWellFormed level left.toList ∧ WellFormed (level + 1) middle ∧
        AllWellFormed level right.toList ∧
        size = (listItems left.toList).length + middle.toList.length +
          (listItems right.toList).length

theorem WellFormed.size_eq {level : Nat} {s : Spine α} (wellFormed : s.WellFormed level) :
    s.size = s.toList.length := by
  cases s with
  | empty => rfl
  | single block => exact Block.WellFormed.size_eq wellFormed
  | deep size left middle right =>
      obtain ⟨_, _, _, sizeRight⟩ := wellFormed
      simp only [Spine.size, toList, List.length_append]
      exact sizeRight

@[simp] theorem toList_ofParts (left : Affix (Block α)) (middle : Spine α)
    (right : Affix (Block α)) : (ofParts left middle right).toList =
      listItems left.toList ++ middle.toList ++ listItems right.toList := rfl

theorem WellFormed.ofParts {level : Nat} {left right : Affix (Block α)} {middle : Spine α}
    (front : AllWellFormed level left.toList) (inner : middle.WellFormed (level + 1))
    (back : AllWellFormed level right.toList) : (ofParts left middle right).WellFormed level :=
  ⟨front, inner, back, by rw [front.listSize_eq, inner.size_eq, back.listSize_eq]⟩

theorem toList_pushFront (block : Block α) (s : Spine α) :
    (pushFront block s).toList = block.toList ++ s.toList := by
  fun_induction pushFront block s with
  | case6 block size a b c d middle right middle_ih =>
      simp [toList, Affix.toList, middle_ih]
  | _ => simp [toList, Affix.toList]

theorem toList_pushBack (block : Block α) (s : Spine α) :
    (pushBack block s).toList = s.toList ++ block.toList := by
  fun_induction pushBack block s with
  | case6 block size left middle a b c d middle_ih =>
      simp [toList, Affix.toList, middle_ih]
  | _ => simp [toList, Affix.toList]

theorem WellFormed.pushFront {level : Nat} {block : Block α} {s : Spine α}
    (wellFormed : s.WellFormed level) (fits : block.WellFormed level) :
    (pushFront block s).WellFormed level := by
  fun_induction Spine.pushFront block s generalizing level with
  | case1 block => exact fits
  | case2 block b => exact .ofParts (.cons fits .nil) trivial (.cons wellFormed .nil)
  | case3 block _ a middle right | case4 block _ a b middle right
  | case5 block _ a b c middle right =>
      exact .ofParts (.cons fits wellFormed.1) wellFormed.2.1 wellFormed.2.2.1
  | case6 block _ a b c d middle right middle_ih =>
      obtain ⟨front, inner, back, _⟩ := wellFormed
      refine .ofParts (.cons fits (.cons front.head .nil)) (middle_ih inner ?_) back
      exact .ofTriple front.tail.head front.tail.tail.head front.tail.tail.tail.head

theorem WellFormed.pushBack {level : Nat} {block : Block α} {s : Spine α}
    (wellFormed : s.WellFormed level) (fits : block.WellFormed level) :
    (pushBack block s).WellFormed level := by
  fun_induction Spine.pushBack block s generalizing level with
  | case1 block => exact fits
  | case2 block a => exact .ofParts (.cons wellFormed .nil) trivial (.cons fits .nil)
  | case3 block _ left middle a | case4 block _ left middle a b
  | case5 block _ left middle a b c =>
      exact .ofParts wellFormed.1 wellFormed.2.1 (wellFormed.2.2.1.append (.cons fits .nil))
  | case6 block _ left middle a b c d middle_ih =>
      obtain ⟨front, inner, back, _⟩ := wellFormed
      refine .ofParts front (middle_ih inner ?_) (.cons back.tail.tail.tail.head (.cons fits .nil))
      exact .ofTriple back.head back.tail.head back.tail.tail.head

@[simp] theorem toList_pushAllFront (blocks : List (Block α)) (s : Spine α) :
    (pushAllFront blocks s).toList = listItems blocks ++ s.toList := by
  induction blocks with
  | nil => rfl
  | cons block rest rest_ih =>
      have step : pushAllFront (block :: rest) s = pushFront block (pushAllFront rest s) := rfl
      rw [step, toList_pushFront, rest_ih, Block.listItems_cons, List.append_assoc]

@[simp] theorem toList_pushAllBack (blocks : List (Block α)) (s : Spine α) :
    (pushAllBack blocks s).toList = s.toList ++ listItems blocks := by
  induction blocks generalizing s with
  | nil => simp [pushAllBack]
  | cons block rest rest_ih =>
      have step : pushAllBack (block :: rest) s = pushAllBack rest (pushBack block s) := rfl
      rw [step, rest_ih, toList_pushBack, Block.listItems_cons, List.append_assoc]

theorem WellFormed.pushAllFront {level : Nat} {blocks : List (Block α)} {s : Spine α}
    (wellFormed : s.WellFormed level) (fit : AllWellFormed level blocks) :
    (pushAllFront blocks s).WellFormed level := by
  induction blocks with
  | nil => exact wellFormed
  | cons block rest rest_ih => exact (rest_ih fit.tail).pushFront fit.head

theorem WellFormed.pushAllBack {level : Nat} {blocks : List (Block α)} {s : Spine α}
    (wellFormed : s.WellFormed level) (fit : AllWellFormed level blocks) :
    (pushAllBack blocks s).WellFormed level := by
  induction blocks generalizing s with
  | nil => exact wellFormed
  | cons block rest rest_ih => exact rest_ih (wellFormed.pushBack fit.head) fit.tail

@[simp] theorem toList_ofBlocks (blocks : List (Block α)) :
    (ofBlocks blocks).toList = listItems blocks := by
  simp [ofBlocks, toList]

theorem wellFormed_ofBlocks {level : Nat} {blocks : List (Block α)}
    (fit : AllWellFormed level blocks) : (ofBlocks blocks).WellFormed level :=
  WellFormed.pushAllBack (s := empty) trivial fit

/-- What was taken off the front of a tree and the tree it leaves are well formed, and nothing is
lost. -/
def FrontOf (level : Nat) (s : Spine α) : Option (Block α × Spine α) → Prop
  | none => s.toList = []
  | some (block, rest) =>
      block.WellFormed level ∧ rest.WellFormed level ∧ s.toList = block.toList ++ rest.toList

/-- What was taken off the back of a tree and the tree it leaves are well formed, and nothing is
lost. -/
def BackOf (level : Nat) (s : Spine α) : Option (Block α × Spine α) → Prop
  | none => s.toList = []
  | some (block, rest) =>
      block.WellFormed level ∧ rest.WellFormed level ∧ s.toList = rest.toList ++ block.toList

/-- A tree of the given level that holds the given items. -/
def Holds (level : Nat) (s : Spine α) (items : List α) : Prop :=
  s.WellFormed level ∧ s.toList = items

theorem withLeft_refill_holds {level : Nat} {front : Unit → Option (Block α × Spine α)}
    {middle : Spine α} {right : Affix (Block α)} (taken : FrontOf (level + 1) middle (front ()))
    (back : AllWellFormed level right.toList) :
    Holds level (withLeft.refill front right) (middle.toList ++ listItems right.toList) := by
  unfold withLeft.refill
  split
  · next none => 
      rw [none] at taken
      have nothing : middle.toList = [] := taken
      exact ⟨wellFormed_ofBlocks back, by simp [nothing]⟩
  · next items rest isLeaf =>
      rw [isLeaf] at taken
      exact taken.1.elim
  · next size a b rest isPair =>
      rw [isPair] at taken
      obtain ⟨node, inner, whole⟩ := taken
      exact ⟨.ofParts (.cons node.1 (.cons node.2.1 .nil)) inner back,
        by simp [whole, Affix.toList, Block.toList]⟩
  · next size a b c rest isTriple =>
      rw [isTriple] at taken
      obtain ⟨node, inner, whole⟩ := taken
      exact ⟨.ofParts (.cons node.1 (.cons node.2.1 (.cons node.2.2.1 .nil))) inner back,
        by simp [whole, Affix.toList, Block.toList]⟩

theorem withLeft_holds {level : Nat} {left : List (Block α)}
    (front : Unit → Option (Block α × Spine α)) {middle : Spine α} {right : Affix (Block α)}
    (fit : AllWellFormed level left) (taken : FrontOf (level + 1) middle (front ()))
    (inner : middle.WellFormed (level + 1)) (back : AllWellFormed level right.toList) :
    Holds level (withLeft left front middle right)
      (listItems left ++ middle.toList ++ listItems right.toList) := by
  have refilled := withLeft_refill_holds taken back
  unfold withLeft
  split
  · exact ⟨.ofParts fit inner back, by simp [Affix.toList]⟩
  · exact ⟨.ofParts fit inner back, by simp [Affix.toList]⟩
  · exact ⟨.ofParts fit inner back, by simp [Affix.toList]⟩
  · exact refilled
  · exact ⟨refilled.1.pushAllFront fit, by simp [refilled.2]⟩

theorem withRight_refill_holds {level : Nat} {left : Affix (Block α)} {middle : Spine α}
    {back : Unit → Option (Block α × Spine α)} (taken : BackOf (level + 1) middle (back ()))
    (front : AllWellFormed level left.toList) :
    Holds level (withRight.refill left back) (listItems left.toList ++ middle.toList) := by
  unfold withRight.refill
  split
  · next none =>
      rw [none] at taken
      have nothing : middle.toList = [] := taken
      exact ⟨wellFormed_ofBlocks front, by simp [nothing]⟩
  · next items rest isLeaf =>
      rw [isLeaf] at taken
      exact taken.1.elim
  · next size a b rest isPair =>
      rw [isPair] at taken
      obtain ⟨node, inner, whole⟩ := taken
      exact ⟨.ofParts front inner (.cons node.1 (.cons node.2.1 .nil)),
        by simp [whole, Affix.toList, Block.toList]⟩
  · next size a b c rest isTriple =>
      rw [isTriple] at taken
      obtain ⟨node, inner, whole⟩ := taken
      exact ⟨.ofParts front inner (.cons node.1 (.cons node.2.1 (.cons node.2.2.1 .nil))),
        by simp [whole, Affix.toList, Block.toList]⟩

theorem withRight_holds {level : Nat} {left : Affix (Block α)} {middle : Spine α}
    (back : Unit → Option (Block α × Spine α)) {right : List (Block α)}
    (front : AllWellFormed level left.toList) (inner : middle.WellFormed (level + 1))
    (taken : BackOf (level + 1) middle (back ())) (fit : AllWellFormed level right) :
    Holds level (withRight left middle back right)
      (listItems left.toList ++ middle.toList ++ listItems right) := by
  have refilled := withRight_refill_holds taken front
  unfold withRight
  split
  · exact ⟨.ofParts front inner fit, by simp [Affix.toList]⟩
  · exact ⟨.ofParts front inner fit, by simp [Affix.toList]⟩
  · exact ⟨.ofParts front inner fit, by simp [Affix.toList]⟩
  · exact ⟨refilled.1, by simp [refilled.2]⟩
  · exact ⟨refilled.1.pushAllBack fit, by simp [refilled.2]⟩

theorem WellFormed.popFront_spec {level : Nat} {s : Spine α} (wellFormed : s.WellFormed level) :
    FrontOf level s s.popFront := by
  induction s generalizing level with
  | empty => rfl
  | single block => exact ⟨wellFormed, trivial, by simp [toList]⟩
  | deep size left middle right middle_ih =>
      obtain ⟨front, inner, back, _⟩ := wellFormed
      cases left with
      | one a =>
          have rest := withLeft_holds (fun _ => middle.popFront) .nil (middle_ih inner) inner back
          exact ⟨front.head, rest.1, by simp [rest.2, toList, Affix.toList]⟩
      | two a b | three a b c | four a b c d =>
          exact ⟨front.head, .ofParts front.tail inner back, by simp [toList, Affix.toList]⟩

theorem WellFormed.popBack_spec {level : Nat} {s : Spine α} (wellFormed : s.WellFormed level) :
    BackOf level s s.popBack := by
  induction s generalizing level with
  | empty => rfl
  | single block => exact ⟨wellFormed, trivial, by simp [toList]⟩
  | deep size left middle right middle_ih =>
      obtain ⟨front, inner, back, _⟩ := wellFormed
      cases right with
      | one a =>
          have rest := withRight_holds (fun _ => middle.popBack) front inner (middle_ih inner) .nil
          exact ⟨back.head, rest.1, by simp [rest.2, toList, Affix.toList]⟩
      | two a b =>
          exact ⟨back.tail.head, .ofParts front inner (.cons back.head .nil),
            by simp [toList, Affix.toList]⟩
      | three a b c =>
          exact ⟨back.tail.tail.head, .ofParts front inner (.cons back.head (.cons back.tail.head .nil)),
            by simp [toList, Affix.toList]⟩
      | four a b c d =>
          refine ⟨back.tail.tail.tail.head, .ofParts front inner ?_, by simp [toList, Affix.toList]⟩
          exact .cons back.head (.cons back.tail.head (.cons back.tail.tail.head .nil))

theorem popFront_eq_none_iff {s : Spine α} : s.popFront = none ↔ s = empty := by
  cases s with
  | empty => simp [popFront]
  | single block => simp [popFront]
  | deep size left middle right => cases left <;> simp [popFront]

theorem popBack_eq_none_iff {s : Spine α} : s.popBack = none ↔ s = empty := by
  cases s with
  | empty => simp [popBack]
  | single block => simp [popBack]
  | deep size left middle right => cases right <;> simp [popBack]

theorem isEmpty_iff {s : Spine α} : s.isEmpty = true ↔ s = empty := by
  cases s <;> simp [isEmpty]

theorem deepLeft_holds {level : Nat} {left : List (Block α)} {middle : Spine α}
    {right : Affix (Block α)} (fit : AllWellFormed level left)
    (inner : middle.WellFormed (level + 1)) (back : AllWellFormed level right.toList) :
    Holds level (deepLeft left middle right)
      (listItems left ++ middle.toList ++ listItems right.toList) :=
  withLeft_holds _ fit inner.popFront_spec inner back

theorem deepRight_holds {level : Nat} {left : Affix (Block α)} {middle : Spine α}
    {right : List (Block α)} (front : AllWellFormed level left.toList)
    (inner : middle.WellFormed (level + 1)) (fit : AllWellFormed level right) :
    Holds level (deepRight left middle right)
      (listItems left.toList ++ middle.toList ++ listItems right) :=
  withRight_holds _ front inner inner.popBack_spec fit

theorem WellFormed.append_holds {level : Nat} {xs ys : Spine α} {loose : List (Block α)}
    (front : xs.WellFormed level) (fit : AllWellFormed level loose) (back : ys.WellFormed level) :
    Holds level (append xs loose ys) (xs.toList ++ listItems loose ++ ys.toList) := by
  fun_induction Spine.append xs loose ys generalizing level with
  | case1 loose ys => exact ⟨back.pushAllFront fit, by simp [toList]⟩
  | case2 xs loose => exact ⟨front.pushAllBack fit, by simp [toList]⟩
  | case3 loose ys x =>
      exact ⟨(back.pushAllFront fit).pushFront front, by simp [toList_pushFront, toList]⟩
  | case4 xs loose y =>
      exact ⟨(front.pushAllBack fit).pushBack back, by simp [toList_pushBack, toList]⟩
  | case5 size left xs mid loose size' mid' ys right rest_ih =>
      obtain ⟨outer, inner, end₁, _⟩ := front
      obtain ⟨end₂, inner', outer', _⟩ := back
      have enough : 2 ≤ (mid.toList ++ loose ++ mid'.toList).length := by
        have := mid.length_pos
        have := mid'.length_pos
        simp only [List.length_append]
        omega
      have grouped := ((end₁.append fit).append end₂).group enough
      obtain ⟨joined, items⟩ := rest_ih inner grouped inner'
      refine ⟨.ofParts outer joined outer', ?_⟩
      rw [toList_ofParts, items, Block.listItems_group]
      simp [toList]

/-- The parts of a tree around the element that holds a position. -/
def SplitAt (level : Nat) (s : Spine α) (i : Nat) (before : Spine α) (block : Block α)
    (after : Spine α) : Prop :=
  before.WellFormed level ∧ block.WellFormed level ∧ after.WellFormed level ∧
    s.toList = before.toList ++ block.toList ++ after.toList ∧
    before.toList.length ≤ i ∧ i < before.toList.length + block.toList.length

theorem WellFormed.split_spec {level : Nat} {s : Spine α} {i : Nat} (wellFormed : s.WellFormed level)
    (inside : i < s.toList.length) :
    ∃ before block after, s.split i = some (before, block, after) ∧
      SplitAt level s i before block after := by
  induction s generalizing level i with
  | empty => simp [toList] at inside
  | single block =>
      exact ⟨empty, block, empty, rfl, trivial, wellFormed, trivial, by simp [toList],
        Nat.zero_le _, by simpa [toList] using inside⟩
  | deep size left middle right middle_ih =>
      obtain ⟨front, inner, back, _⟩ := wellFormed
      simp only [toList, List.length_append] at inside
      simp only [split, front.listSize_eq, inner.size_eq]
      split
      · next inLeft =>
          obtain ⟨before, found, after, divided, whole, above, below⟩ := front.splitList_spec inLeft
          rw [whole] at front
          obtain ⟨beforeFits, foundFits, afterFits⟩ := front.divided
          obtain ⟨restFits, rest⟩ := deepLeft_holds afterFits inner back
          refine ⟨_, _, _, by rw [divided]; rfl, wellFormed_ofBlocks beforeFits, foundFits, restFits, ?_,
            by simpa using above, by simpa using below⟩
          simp [toList, whole, rest]
      · next notInLeft =>
          split
          · next inMiddle =>
              obtain ⟨middleLeft, node, middleRight, found, parts⟩ := middle_ih inner inMiddle
              obtain ⟨leftFits, nodeFits, rightFits, whole, above, below⟩ := parts
              have childItems := Block.listItems_children node
              -- The node that is found one level up is itself divided among its children.
              obtain ⟨before, block, after, divided, pieces, reached, ended⟩ :=
                nodeFits.children.splitList_spec
                  (i := i - (listItems left.toList).length - middleLeft.toList.length)
                  (by rw [childItems]; omega)
              have children := nodeFits.children
              rw [pieces] at children childItems
              obtain ⟨beforeFits, blockFits, afterFits⟩ := children.divided
              obtain ⟨frontFits, frontItems⟩ := deepRight_holds front leftFits beforeFits
              obtain ⟨backFits, backItems⟩ := deepLeft_holds afterFits rightFits back
              refine ⟨_, _, _, by rw [found]; simp only [leftFits.size_eq, divided]; rfl,
                frontFits, blockFits, backFits, ?_, ?_, ?_⟩
              · simp only [Block.listItems_append, Block.listItems_cons] at childItems
                simp only [toList, whole, frontItems, backItems, ← childItems, List.append_assoc]
              · simp only [frontItems, List.length_append]; omega
              · simp only [frontItems, List.length_append]; omega
          · next notInMiddle =>
              obtain ⟨before, found, after, divided, whole, above, below⟩ := back.splitList_spec
                (i := i - (listItems left.toList).length - middle.toList.length) (by omega)
              rw [whole] at back
              obtain ⟨beforeFits, foundFits, afterFits⟩ := back.divided
              obtain ⟨restFits, rest⟩ := deepRight_holds front inner beforeFits
              refine ⟨_, _, _, by rw [divided]; rfl, restFits, foundFits, wellFormed_ofBlocks afterFits, ?_,
                ?_, ?_⟩
              · simp [toList, whole, rest]
              · simp only [rest, List.length_append]; omega
              · simp only [rest, List.length_append]; omega

theorem WellFormed.leafAt_around {level : Nat} {s : Spine α} {i : Nat}
    (wellFormed : s.WellFormed level) (start : Nat) (inside : i < s.toList.length) :
    ∃ found, s.leafAt start i = some found ∧ Block.Around s.toList start i found := by
  induction s generalizing level start i with
  | empty => simp [toList] at inside
  | single block => exact ⟨_, rfl, Block.WellFormed.leafAt_around wellFormed inside⟩
  | deep size left middle right middle_ih =>
      obtain ⟨front, inner, back, _⟩ := wellFormed
      simp only [toList, List.length_append] at inside
      simp only [leafAt, toList, front.listSize_eq, inner.size_eq, List.append_assoc]
      split
      · next inLeft =>
          obtain ⟨found, looked, around⟩ := front.listLeafAt_around start inLeft
          exact ⟨found, looked, around.append_right _⟩
      · next notInLeft =>
          split
          · next inMiddle =>
              -- Positions in the middle come after those of the left affix.
              obtain ⟨found, looked, around⟩ :=
                middle_ih inner (start + (listItems left.toList).length) inMiddle
              exact ⟨found, looked, .append_left _ (around.append_right _) (by omega)⟩
          · next notInMiddle =>
              obtain ⟨found, looked, around⟩ := back.listLeafAt_around
                (i := i - (listItems left.toList).length - middle.toList.length)
                (start + (listItems left.toList).length + middle.toList.length) (by omega)
              exact ⟨found, looked, .append_left _ (.append_left _ around (by omega)) (by omega)⟩

/-- Checking blocks one after another adds up their items. -/
theorem foldlM_check {level : Nat} {blocks : List (Block α)} (fit : AllWellFormed level blocks)
    (total : Nat) :
    blocks.foldlM (fun total block => return total + (← block.check minLeaf maxLeaf level)) total =
      (Except.ok (total + (listItems blocks).length) : Except String Nat) := by
  induction blocks generalizing total with
  | nil => rfl
  | cons block rest rest_ih =>
      have step : (do return total + (← block.check minLeaf maxLeaf level) : Except String Nat) =
          .ok (total + block.toList.length) := by
        rw [fit.head.check_eq]
        rfl
      rw [List.foldlM_cons, step]
      refine (rest_ih fit.tail _).trans ?_
      rw [Block.listItems_cons, List.length_append, Nat.add_assoc]

theorem WellFormed.check_eq {level : Nat} {s : Spine α} (wellFormed : s.WellFormed level) :
    s.check minLeaf maxLeaf level = .ok s.toList.length := by
  induction s generalizing level with
  | empty => rfl
  | single block => exact Block.WellFormed.check_eq wellFormed
  | deep size left middle right middle_ih =>
      obtain ⟨front, inner, back, sizeRight⟩ := wellFormed
      have total : middle.toList.length + (listItems (left.toList ++ right.toList)).length = size := by
        rw [Block.listItems_append, List.length_append, sizeRight]
        omega
      have wholeSize : size = (deep size left middle right).toList.length := by
        simp only [toList, List.length_append]
        exact sizeRight
      simp only [check, middle_ih inner, bind, Except.bind]
      have sum := foldlM_check (front.append back) middle.toList.length
      simp only [bind, Except.bind] at sum
      simp only [sum, total, ↓reduceIte]
      rw [← wholeSize]

end Spine

end QueryKernel
