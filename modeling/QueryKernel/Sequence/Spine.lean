/-!
# Finger trees of item blocks

The middle of a long sequence: a 2-3 finger tree whose elements are leaves of items, measured by the
number of items.  On each deeper level the elements are pairs or triples of the elements of the level
above.  Nothing is changed in place, so trees share what they have in common.

## Functions

* `toList` is the sequence that a tree stands for.
* `pushFront`, `pushBack`, `popFront`, `popBack` work at the ends.
* `append` joins two trees and some loose blocks between them.
* `split` takes a tree apart around the element that holds a position.
* `leafAt` finds the leaf that holds a position.
* `check` tests levels, leaf sizes and cached sizes.
-/

namespace QueryKernel

/-- An element of a finger tree: a leaf of items, or a group of two or three elements together with
the number of items in it. -/
inductive Block (α : Type) where
  | leaf (items : List α)
  | pair (size : Nat) (a b : Block α)
  | triple (size : Nat) (a b c : Block α)

namespace Block

variable {α : Type}

/-- The number of items, as cached. -/
def size : Block α → Nat
  | leaf items => items.length
  | pair size _ _ => size
  | triple size _ _ _ => size

/-- The items. -/
def toList : Block α → List α
  | leaf items => items
  | pair _ a b => a.toList ++ b.toList
  | triple _ a b c => a.toList ++ b.toList ++ c.toList

/-- Folds the items from the right. -/
def foldr {β : Type} (f : α → β → β) (init : β) : Block α → β
  | leaf items => items.foldr f init
  | pair _ a b => a.foldr f (b.foldr f init)
  | triple _ a b c => a.foldr f (b.foldr f (c.foldr f init))

/-- The first items, up to the given number. -/
def firstItems : Block α → Nat → List α
  | leaf items, n => items.take n
  | pair _ a b, n => extend (a.firstItems n) n b.firstItems
  | triple _ a b c, n => extend (extend (a.firstItems n) n b.firstItems) n c.firstItems
where
  /-- Continues a beginning of a sequence that has not yet the wanted length. -/
  extend (found : List α) (n : Nat) (more : Nat → List α) : List α :=
    if found.length < n then found ++ more (n - found.length) else found

theorem foldr_eq_foldr_toList {β : Type} (f : α → β → β) (init : β) (block : Block α) :
    block.foldr f init = block.toList.foldr f init := by
  induction block generalizing init with
  | leaf items => rfl
  | pair size a b a_ih b_ih => simp [foldr, toList, a_ih, b_ih]
  | triple size a b c a_ih b_ih c_ih => simp [foldr, toList, a_ih, b_ih, c_ih]

theorem mem_of_mem_extend {found : List α} {n : Nat} {more : Nat → List α} {a : α}
    (member : a ∈ firstItems.extend found n more) : a ∈ found ∨ ∃ m, a ∈ more m := by
  unfold firstItems.extend at member
  split at member
  · rcases List.mem_append.1 member with inFound | inMore
    · exact .inl inFound
    · exact .inr ⟨_, inMore⟩
  · exact .inl member

theorem mem_toList_of_mem_firstItems {block : Block α} {n : Nat} {a : α}
    (member : a ∈ block.firstItems n) : a ∈ block.toList := by
  induction block generalizing n with
  | leaf items => exact List.mem_of_mem_take member
  | pair size x y x_ih y_ih =>
      rcases mem_of_mem_extend member with inX | ⟨m, inY⟩
      · exact List.mem_append.2 (.inl (x_ih inX))
      · exact List.mem_append.2 (.inr (y_ih inY))
  | triple size x y z x_ih y_ih z_ih =>
      rcases mem_of_mem_extend member with inXY | ⟨m, inZ⟩
      · rcases mem_of_mem_extend inXY with inX | ⟨m, inY⟩
        · exact List.mem_append.2 (.inl (List.mem_append.2 (.inl (x_ih inX))))
        · exact List.mem_append.2 (.inl (List.mem_append.2 (.inr (y_ih inY))))
      · exact List.mem_append.2 (.inr (z_ih inZ))

theorem sizeOf_lt_of_mem [SizeOf α] {block : Block α} {a : α} (member : a ∈ block.toList) :
    sizeOf a < sizeOf block := by
  induction block with
  | leaf items =>
      have : sizeOf a < sizeOf items := List.sizeOf_lt_of_mem member
      simp only [leaf.sizeOf_spec]
      omega
  | pair size x y x_ih y_ih =>
      simp only [pair.sizeOf_spec]
      rcases List.mem_append.1 member with inX | inY
      · have := x_ih inX; omega
      · have := y_ih inY; omega
  | triple size x y z x_ih y_ih z_ih =>
      simp only [triple.sizeOf_spec]
      rcases List.mem_append.1 member with inXY | inZ
      · rcases List.mem_append.1 inXY with inX | inY
        · have := x_ih inX; omega
        · have := y_ih inY; omega
      · have := z_ih inZ; omega

/-- Two elements as one of the next level. -/
def ofPair (a b : Block α) : Block α := pair (a.size + b.size) a b

/-- Three elements as one of the next level. -/
def ofTriple (a b c : Block α) : Block α := triple (a.size + b.size + c.size) a b c

/-- The elements of the level above; a leaf stands for itself. -/
def children : Block α → List (Block α)
  | leaf items => [leaf items]
  | pair _ a b => [a, b]
  | triple _ a b c => [a, b, c]

/-- The leaf that holds a position, and the position of its first item.  The last leaf takes positions
beyond the end. -/
def leafAt (start : Nat) : Block α → Nat → List α × Nat
  | leaf items, _ => (items, start)
  | pair _ a b, i =>
      if i < a.size then a.leafAt start i else b.leafAt (start + a.size) (i - a.size)
  | triple _ a b c, i =>
      if i < a.size then a.leafAt start i
      else if i - a.size < b.size then b.leafAt (start + a.size) (i - a.size)
      else c.leafAt (start + a.size + b.size) (i - a.size - b.size)

/-- Items from the blocks of a list. -/
def listItems (blocks : List (Block α)) : List α := blocks.flatMap toList

/-- The first items of the blocks of a list, up to the given number. -/
def listFirstItems : List (Block α) → Nat → List α
  | [], _ => []
  | b :: rest, n => firstItems.extend (b.firstItems n) n (listFirstItems rest)

theorem mem_listItems_of_mem_listFirstItems {blocks : List (Block α)} {n : Nat} {a : α}
    (member : a ∈ listFirstItems blocks n) : a ∈ listItems blocks := by
  induction blocks generalizing n with
  | nil => simp [listFirstItems] at member
  | cons b rest rest_ih =>
      rcases mem_of_mem_extend member with inFirst | ⟨m, inRest⟩
      · exact List.mem_append.2 (.inl (mem_toList_of_mem_firstItems inFirst))
      · exact List.mem_append.2 (.inr (rest_ih inRest))

/-- Number of items in the blocks of a list. -/
def listSize : List (Block α) → Nat
  | [] => 0
  | b :: rest => b.size + listSize rest

/-- Divides blocks around the one that holds a position. -/
def splitList : List (Block α) → Nat → Option (List (Block α) × Block α × List (Block α))
  | [], _ => none
  | b :: rest, i =>
      if i < b.size then some ([], b, rest)
      else (splitList rest (i - b.size)).map fun (before, found, after) => (b :: before, found, after)

/-- The leaf of a list of blocks that holds a position, and the position of its first item. -/
def listLeafAt (start : Nat) : List (Block α) → Nat → Option (List α × Nat)
  | [], _ => none
  | b :: rest, i =>
      if i < b.size then some (b.leafAt start i) else listLeafAt (start + b.size) rest (i - b.size)

/-- Groups blocks into elements of the next level, threes as long as possible. -/
def group : List (Block α) → List (Block α)
  | [] => []
  | [a] => [a]
  | [a, b] => [ofPair a b]
  | [a, b, c, d] => [ofPair a b, ofPair c d]
  | a :: b :: c :: rest => ofTriple a b c :: group rest

/-- Whether the block is of the given level, its leaves hold an allowed number of items and its cached
sizes are right; the number of items. -/
def check (fewest most : Nat) : Nat → Block α → Except String Nat
  | 0, leaf items =>
      if fewest ≤ items.length ∧ items.length ≤ most then .ok items.length
      else .error ("leaf holds " ++ toString items.length ++ " items")
  | level + 1, pair size a b => do
      let total := (← check fewest most level a) + (← check fewest most level b)
      if total = size then .ok total else .error (wrongSize size total)
  | level + 1, triple size a b c => do
      let total := (← check fewest most level a) + (← check fewest most level b) +
        (← check fewest most level c)
      if total = size then .ok total else .error (wrongSize size total)
  | level, _ => .error ("node kind does not match depth " ++ toString level)
where
  /-- The message about a wrong cached size. -/
  wrongSize (size total : Nat) : String :=
    "inner node caches size " ++ toString size ++ ", holds " ++ toString total

end Block

/-- One to four elements at an end of a finger tree. -/
inductive Affix (β : Type) where
  | one (a : β)
  | two (a b : β)
  | three (a b c : β)
  | four (a b c d : β)

/-- The elements, in order. -/
def Affix.toList {β : Type} : Affix β → List β
  | one a => [a]
  | two a b => [a, b]
  | three a b c => [a, b, c]
  | four a b c d => [a, b, c, d]

/-- A 2-3 finger tree.  A deep tree caches the number of its items. -/
inductive Spine (α : Type) where
  | empty
  | single (block : Block α)
  | deep (size : Nat) (left : Affix (Block α)) (middle : Spine α) (right : Affix (Block α))

namespace Spine

variable {α : Type}

/-- The number of items, as cached. -/
def size : Spine α → Nat
  | empty => 0
  | single block => block.size
  | deep size _ _ _ => size

/-- The items. -/
def toList : Spine α → List α
  | empty => []
  | single block => block.toList
  | deep _ left middle right =>
      Block.listItems left.toList ++ middle.toList ++ Block.listItems right.toList

/-- Folds the items from the right. -/
def foldr {β : Type} (f : α → β → β) (init : β) : Spine α → β
  | empty => init
  | single block => block.foldr f init
  | deep _ left middle right =>
      left.toList.foldr (fun block rest => block.foldr f rest)
        (middle.foldr f (right.toList.foldr (fun block rest => block.foldr f rest) init))

/-- The first items, up to the given number. -/
def firstItems : Spine α → Nat → List α
  | empty, _ => []
  | single block, n => block.firstItems n
  | deep _ left middle right, n =>
      Block.firstItems.extend
        (Block.firstItems.extend (Block.listFirstItems left.toList n) n middle.firstItems) n
        (Block.listFirstItems right.toList)

private theorem foldr_blocks {β : Type} (f : α → β → β) (init : β) (blocks : List (Block α)) :
    blocks.foldr (fun block rest => block.foldr f rest) init =
      (Block.listItems blocks).foldr f init := by
  induction blocks with
  | nil => rfl
  | cons block rest rest_ih =>
      simp only [List.foldr_cons, rest_ih, Block.listItems, List.flatMap_cons, List.foldr_append]
      exact Block.foldr_eq_foldr_toList f _ block

theorem foldr_eq_foldr_toList {β : Type} (f : α → β → β) (init : β) (s : Spine α) :
    s.foldr f init = s.toList.foldr f init := by
  induction s generalizing init with
  | empty => rfl
  | single block => exact Block.foldr_eq_foldr_toList f init block
  | deep size left middle right middle_ih =>
      simp only [foldr, toList, foldr_blocks, middle_ih, List.foldr_append]

theorem mem_toList_of_mem_firstItems {s : Spine α} {n : Nat} {a : α} (member : a ∈ s.firstItems n) :
    a ∈ s.toList := by
  induction s generalizing n with
  | empty => simp [firstItems] at member
  | single block => exact Block.mem_toList_of_mem_firstItems member
  | deep size left middle right middle_ih =>
      simp only [toList, List.mem_append]
      rcases Block.mem_of_mem_extend member with inStart | ⟨m, inRight⟩
      · rcases Block.mem_of_mem_extend inStart with inLeft | ⟨m, inMiddle⟩
        · exact .inl (.inl (Block.mem_listItems_of_mem_listFirstItems inLeft))
        · exact .inl (.inr (middle_ih inMiddle))
      · exact .inr (Block.mem_listItems_of_mem_listFirstItems inRight)

private theorem sizeOf_lt_of_mem_affix [SizeOf α] {affix : Affix (Block α)} {a : α}
    (member : a ∈ Block.listItems affix.toList) : sizeOf a < sizeOf affix := by
  obtain ⟨block, inAffix, inBlock⟩ := List.mem_flatMap.1 member
  have inner := Block.sizeOf_lt_of_mem inBlock
  cases affix <;> simp [Affix.toList] at inAffix <;> simp <;>
    rcases inAffix with rfl | inAffix <;> (try rcases inAffix with rfl | inAffix) <;>
    (try rcases inAffix with rfl | rfl) <;> omega

theorem sizeOf_lt_of_mem [SizeOf α] {s : Spine α} {a : α} (member : a ∈ s.toList) :
    sizeOf a < sizeOf s := by
  induction s with
  | empty => simp [toList] at member
  | single block =>
      have := Block.sizeOf_lt_of_mem member
      simp only [single.sizeOf_spec]
      omega
  | deep size left middle right middle_ih =>
      simp only [deep.sizeOf_spec]
      simp only [toList, List.mem_append] at member
      rcases member with (inLeft | inMiddle) | inRight
      · have := sizeOf_lt_of_mem_affix inLeft; omega
      · have := middle_ih inMiddle; omega
      · have := sizeOf_lt_of_mem_affix inRight; omega

/-- Whether there are no elements. -/
def isEmpty : Spine α → Bool
  | empty => true
  | _ => false

/-- A deep tree of the given parts. -/
def ofParts (left : Affix (Block α)) (middle : Spine α) (right : Affix (Block α)) : Spine α :=
  deep (Block.listSize left.toList + middle.size + Block.listSize right.toList) left middle right

/-- Adds an element before all others. -/
def pushFront (block : Block α) : Spine α → Spine α
  | empty => single block
  | single b => ofParts (.one block) empty (.one b)
  | deep _ (.one a) middle right => ofParts (.two block a) middle right
  | deep _ (.two a b) middle right => ofParts (.three block a b) middle right
  | deep _ (.three a b c) middle right => ofParts (.four block a b c) middle right
  | deep _ (.four a b c d) middle right =>
      ofParts (.two block a) (pushFront (.ofTriple b c d) middle) right

/-- Adds an element after all others. -/
def pushBack (block : Block α) : Spine α → Spine α
  | empty => single block
  | single a => ofParts (.one a) empty (.one block)
  | deep _ left middle (.one a) => ofParts left middle (.two a block)
  | deep _ left middle (.two a b) => ofParts left middle (.three a b block)
  | deep _ left middle (.three a b c) => ofParts left middle (.four a b c block)
  | deep _ left middle (.four a b c d) =>
      ofParts left (pushBack (.ofTriple a b c) middle) (.two d block)

/-- Adds elements before all others, keeping their order. -/
def pushAllFront (blocks : List (Block α)) (s : Spine α) : Spine α := blocks.foldr pushFront s

/-- Adds elements after all others, keeping their order. -/
def pushAllBack (blocks : List (Block α)) (s : Spine α) : Spine α :=
  blocks.foldl (fun t b => pushBack b t) s

/-- A tree of the given elements. -/
def ofBlocks (blocks : List (Block α)) : Spine α := pushAllBack blocks empty

/-- A tree whose left end may be empty, given what is taken off the front of the middle. -/
def withLeft (left : List (Block α)) (front : Unit → Option (Block α × Spine α)) (middle : Spine α)
    (right : Affix (Block α)) : Spine α :=
  match left with
  | [a] => ofParts (.one a) middle right
  | [a, b] => ofParts (.two a b) middle right
  | [a, b, c] => ofParts (.three a b c) middle right
  | [] => refill
  | more => pushAllFront more refill
where
  /-- The tree when the left end is empty. -/
  refill : Spine α :=
    match front () with
    | none => ofBlocks right.toList
    | some (.leaf items, rest) => ofParts (.one (.leaf items)) rest right
    | some (.pair _ a b, rest) => ofParts (.two a b) rest right
    | some (.triple _ a b c, rest) => ofParts (.three a b c) rest right

/-- A tree whose right end may be empty, given what is taken off the back of the middle. -/
def withRight (left : Affix (Block α)) (middle : Spine α) (back : Unit → Option (Block α × Spine α))
    (right : List (Block α)) : Spine α :=
  match right with
  | [a] => ofParts left middle (.one a)
  | [a, b] => ofParts left middle (.two a b)
  | [a, b, c] => ofParts left middle (.three a b c)
  | [] => refill
  | more => pushAllBack more refill
where
  /-- The tree when the right end is empty. -/
  refill : Spine α :=
    match back () with
    | none => ofBlocks left.toList
    | some (.leaf items, rest) => ofParts left rest (.one (.leaf items))
    | some (.pair _ a b, rest) => ofParts left rest (.two a b)
    | some (.triple _ a b c, rest) => ofParts left rest (.three a b c)

/-- The first element and the others. -/
def popFront : Spine α → Option (Block α × Spine α)
  | empty => none
  | single block => some (block, empty)
  | deep _ left middle right =>
      match left with
      | .one a => some (a, withLeft [] (fun _ => popFront middle) middle right)
      | .two a b => some (a, ofParts (.one b) middle right)
      | .three a b c => some (a, ofParts (.two b c) middle right)
      | .four a b c d => some (a, ofParts (.three b c d) middle right)

/-- The last element and the others. -/
def popBack : Spine α → Option (Block α × Spine α)
  | empty => none
  | single block => some (block, empty)
  | deep _ left middle right =>
      match right with
      | .one a => some (a, withRight left middle (fun _ => popBack middle) [])
      | .two a b => some (b, ofParts left middle (.one a))
      | .three a b c => some (c, ofParts left middle (.two a b))
      | .four a b c d => some (d, ofParts left middle (.three a b c))

/-- A tree of some elements, a middle and a right end. -/
def deepLeft (left : List (Block α)) (middle : Spine α) (right : Affix (Block α)) : Spine α :=
  withLeft left (fun _ => popFront middle) middle right

/-- A tree of a left end, a middle and some elements. -/
def deepRight (left : Affix (Block α)) (middle : Spine α) (right : List (Block α)) : Spine α :=
  withRight left middle (fun _ => popBack middle) right

/-- Two trees with loose elements between them. -/
def append : Spine α → List (Block α) → Spine α → Spine α
  | empty, loose, ys => pushAllFront loose ys
  | xs, loose, empty => pushAllBack loose xs
  | single x, loose, ys => pushFront x (pushAllFront loose ys)
  | xs, loose, single y => pushBack y (pushAllBack loose xs)
  | deep _ left xs mid, loose, deep _ mid' ys right =>
      ofParts left (append xs (Block.group (mid.toList ++ loose ++ mid'.toList)) ys) right

/-- The parts before and after the element that holds a position, and the element. -/
def split : Spine α → Nat → Option (Spine α × Block α × Spine α)
  | empty, _ => none
  | single block, _ => some (empty, block, empty)
  | deep _ left middle right, i =>
      let leftSize := Block.listSize left.toList
      if i < leftSize then
        (Block.splitList left.toList i).map fun (before, found, after) =>
          (ofBlocks before, found, deepLeft after middle right)
      else if i - leftSize < middle.size then
        match split middle (i - leftSize) with
        | none => none
        | some (middleLeft, node, middleRight) =>
            (Block.splitList node.children (i - leftSize - middleLeft.size)).map
              fun (before, found, after) =>
                (deepRight left middleLeft before, found, deepLeft after middleRight right)
      else
        (Block.splitList right.toList (i - leftSize - middle.size)).map fun (before, found, after) =>
          (deepRight left middle before, found, ofBlocks after)

/-- The leaf that holds a position, and the position of its first item. -/
def leafAt (start : Nat) : Spine α → Nat → Option (List α × Nat)
  | empty, _ => none
  | single block, i => some (block.leafAt start i)
  | deep _ left middle right, i =>
      let leftSize := Block.listSize left.toList
      if i < leftSize then Block.listLeafAt start left.toList i
      else if i - leftSize < middle.size then middle.leafAt (start + leftSize) (i - leftSize)
      else
        Block.listLeafAt (start + leftSize + middle.size) right.toList (i - leftSize - middle.size)

/-- Whether levels, leaves and cached sizes are right; the number of items. -/
def check (fewest most : Nat) : Nat → Spine α → Except String Nat
  | _, empty => .ok 0
  | level, single block => block.check fewest most level
  | level, deep size left middle right => do
      let inner ← middle.check fewest most (level + 1)
      let total ← (left.toList ++ right.toList).foldlM
        (fun total block => return total + (← block.check fewest most level)) inner
      if total = size then .ok total
      else .error ("deep node caches size " ++ toString size ++ ", holds " ++ toString total)

end Spine

end QueryKernel
