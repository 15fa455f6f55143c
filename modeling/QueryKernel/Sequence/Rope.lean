import QueryKernel.Sequence.Spine

/-!
# Ropes

Long sequences: loose items at both ends and a finger tree of leaves between them.  Operations that
may leave few items give a `Bundle`, which is a flat list for up to seven items and a rope above.

## Functions

* `Rope.toList`, `Bundle.toList` are the sequences they stand for.
* `pushFront`, `pushBack`, `append`, `insert`, `remove`, `slice` are the edits.
* `get?` is the item at a position, `blockAt` the stored run of items around it.
* `Bundle.ofList` and `Bundle.ofParts` put sequences into shape.
* `check` tests that the shape is right.
-/

namespace QueryKernel

/-- Fewest items in a leaf. -/
def minLeaf : Nat := 8

/-- Most items in a leaf. -/
def maxLeaf : Nat := 15

/-- Fewest loose items at an end. -/
def minLoose : Nat := 4

/-- Most loose items at an end. -/
def maxLoose : Nat := 19

/-- Most items of a flat sequence. -/
def maxFlat : Nat := 7

/-- A long sequence. -/
structure Rope (α : Type) where
  front : List α
  middle : Spine α
  back : List α
  size : Nat

/-- A sequence in the shape that its length asks for. -/
inductive Bundle (α : Type) where
  | flat (items : List α)
  | rope (rope : Rope α)

variable {α : Type}

/-- Cuts a list into `count` runs of `base` items, the first `extra` of them one longer. -/
def cutRuns (base : Nat) : Nat → Nat → List α → List (List α)
  | 0, _, _ => []
  | count + 1, extra, items =>
      let n := if 0 < extra then base + 1 else base
      items.take n :: cutRuns base count (extra - 1) (items.drop n)

/-- Cuts items into as few leaves as possible, of even size. -/
def cutLeaves (items : List α) : List (Block α) :=
  let count := (items.length + maxLeaf - 1) / maxLeaf
  (cutRuns (items.length / count) count (items.length % count) items).map .leaf

namespace Rope

/-- The items. -/
def toList (r : Rope α) : List α := r.front ++ r.middle.toList ++ r.back

/-- The items, built from the right. -/
def items (r : Rope α) : List α := r.front ++ r.middle.foldr List.cons r.back

/-- The first items, up to the given number. -/
def firstItems (r : Rope α) (n : Nat) : List α :=
  Block.firstItems.extend (Block.firstItems.extend (r.front.take n) n r.middle.firstItems) n r.back.take

theorem items_eq_toList (r : Rope α) : r.items = r.toList := by
  simp [items, toList, Spine.foldr_eq_foldr_toList]

theorem mem_toList_of_mem_firstItems {r : Rope α} {n : Nat} {a : α} (member : a ∈ r.firstItems n) :
    a ∈ r.toList := by
  simp only [toList, List.mem_append]
  rcases Block.mem_of_mem_extend member with inStart | ⟨m, inBack⟩
  · rcases Block.mem_of_mem_extend inStart with inFront | ⟨m, inMiddle⟩
    · exact .inl (.inl (List.mem_of_mem_take inFront))
    · exact .inl (.inr (Spine.mem_toList_of_mem_firstItems inMiddle))
  · exact .inr (List.mem_of_mem_take inBack)

theorem sizeOf_lt_of_mem [SizeOf α] {r : Rope α} {a : α} (member : a ∈ r.toList) :
    sizeOf a < sizeOf r := by
  cases r with
  | mk front middle back size =>
      simp only [mk.sizeOf_spec]
      simp only [toList, List.mem_append] at member
      rcases member with (inFront | inMiddle) | inBack
      · have := List.sizeOf_lt_of_mem inFront; omega
      · have := Spine.sizeOf_lt_of_mem inMiddle; omega
      · have := List.sizeOf_lt_of_mem inBack; omega

/-- A rope of the given parts. -/
def ofParts (front : List α) (middle : Spine α) (back : List α) : Rope α :=
  ⟨front, middle, back, front.length + back.length + middle.size⟩

/-- The item at a position. -/
def get? (r : Rope α) (i : Nat) : Option α :=
  if i < r.front.length then r.front[i]?
  else if i - r.front.length < r.middle.size then
    (r.middle.leafAt 0 (i - r.front.length)).bind fun (items, start) =>
      items[i - r.front.length - start]?
  else r.back[i - r.front.length - r.middle.size]?

/-- The run of items that holds a position, and the position of its first item. -/
def blockAt (r : Rope α) (i : Nat) : List α × Nat :=
  if i < r.front.length then (r.front, 0)
  else if i - r.front.length < r.middle.size then
    match r.middle.leafAt r.front.length (i - r.front.length) with
    | some found => found
    | none => ([], i)
  else (r.back, r.front.length + r.middle.size)

/-- Adds an item before all others.  A full end sheds a leaf. -/
def pushFront (r : Rope α) (a : α) : Rope α :=
  if r.front.length < maxLoose then ⟨a :: r.front, r.middle, r.back, r.size + 1⟩
  else
    ⟨a :: r.front.take minLoose, r.middle.pushFront (.leaf (r.front.drop minLoose)), r.back, r.size + 1⟩

/-- Adds an item after all others.  A full end sheds a leaf. -/
def pushBack (r : Rope α) (a : α) : Rope α :=
  if r.back.length < maxLoose then ⟨r.front, r.middle, r.back ++ [a], r.size + 1⟩
  else
    ⟨r.front, r.middle.pushBack (.leaf (r.back.take maxLeaf)), r.back.drop maxLeaf ++ [a], r.size + 1⟩

/-- Puts another rope after this one; the loose items between them become leaves. -/
def append (r s : Rope α) : Rope α :=
  ⟨r.front, r.middle.append (cutLeaves (r.back ++ s.front)) s.middle, s.back, r.size + s.size⟩

end Rope

namespace Bundle

/-- The items. -/
def toList : Bundle α → List α
  | flat items => items
  | rope r => r.toList

/-- A list in the shape that its length asks for. -/
def ofList (items : List α) : Bundle α :=
  let n := items.length
  if n ≤ maxFlat then flat items
  else if n ≤ 2 * maxLoose then rope (.ofParts (items.take (n / 2)) .empty (items.drop (n / 2)))
  else
    let inner := (items.drop minLeaf).take (n - 2 * minLeaf)
    rope (.ofParts (items.take minLeaf) (.pushAllBack (cutLeaves inner) .empty)
      (items.drop (n - minLeaf)))

/-- Moves what an end holds too much into the front of the middle. -/
def shedFront (front : List α) (middle : Spine α) : List α × Spine α :=
  if maxLoose < front.length then
    let kept := front.length - max minLeaf (front.length - maxLoose)
    (front.take kept, middle.pushAllFront (cutLeaves (front.drop kept)))
  else (front, middle)

/-- Moves what an end holds too much into the back of the middle. -/
def shedBack (middle : Spine α) (back : List α) : Spine α × List α :=
  if maxLoose < back.length then
    let moved := max minLeaf (back.length - maxLoose)
    (middle.pushAllBack (cutLeaves (back.take moved)), back.drop moved)
  else (middle, back)

/-- Fills up a short front from the middle. -/
def fillFront (front : List α) (middle : Spine α) : List α × Spine α :=
  if front.length < minLoose then
    match middle.popFront with
    | some (block, rest) => (front ++ block.toList, rest)
    | none => (front, middle)
  else (front, middle)

/-- Fills up a short back from the middle. -/
def fillBack (middle : Spine α) (back : List α) : Spine α × List α :=
  if back.length < minLoose then
    match middle.popBack with
    | some (block, rest) => (rest, block.toList ++ back)
    | none => (middle, back)
  else (middle, back)

/-- The sequence of three parts, whatever the lengths of the outer ones. -/
def ofParts (front : List α) (middle : Spine α) (back : List α) : Bundle α :=
  let (front, middle) := shedFront front middle
  let (middle, back) := shedBack middle back
  let (front, middle) := fillFront front middle
  let (middle, back) := fillBack middle back
  if middle.isEmpty ∧ (front.length < minLoose ∨ back.length < minLoose) then ofList (front ++ back)
  else rope (.ofParts front middle back)

end Bundle

namespace Rope

/-- Inserts an item before a position up to the size. -/
def insert (r : Rope α) (i : Nat) (a : α) : Bundle α :=
  if i = 0 then .rope (r.pushFront a)
  else if i = r.size then .rope (r.pushBack a)
  else if i < r.front.length then
    let front := r.front.insertIdx i a
    if front.length ≤ maxLoose then .rope (.ofParts front r.middle r.back)
    else .ofParts front r.middle r.back
  else if i - r.front.length < r.middle.size then
    match r.middle.split (i - r.front.length) with
    | none => .rope r
    | some (before, block, after) =>
        let items := block.toList.insertIdx (i - r.front.length - before.size) a
        .rope (.ofParts r.front ((before.pushAllBack (cutLeaves items)).append [] after) r.back)
  else
    let back := r.back.insertIdx (i - r.front.length - r.middle.size) a
    if back.length ≤ maxLoose then .rope (.ofParts r.front r.middle back)
    else .ofParts r.front r.middle back

/-- Removes the item at a position below the size.  A leaf that gets too short is joined with a
neighbour. -/
def remove (r : Rope α) (i : Nat) : Bundle α :=
  if i < r.front.length then
    let front := r.front.eraseIdx i
    if minLoose ≤ front.length then .rope (.ofParts front r.middle r.back)
    else .ofParts front r.middle r.back
  else if i - r.front.length < r.middle.size then
    match r.middle.split (i - r.front.length) with
    | none => .rope r
    | some (before, block, after) =>
        let items := block.toList.eraseIdx (i - r.front.length - before.size)
        if minLeaf ≤ items.length then
          .rope (.ofParts r.front ((before.pushBack (.leaf items)).append [] after) r.back)
        else match after.popFront with
          | some (next, rest) =>
              .rope (.ofParts r.front
                ((before.pushAllBack (cutLeaves (items ++ next.toList))).append [] rest) r.back)
          | none =>
              match before.popBack with
              | some (previous, rest) =>
                  .rope (.ofParts r.front (rest.pushAllBack (cutLeaves (previous.toList ++ items))) r.back)
              | none => .ofParts r.front .empty (items ++ r.back)
  else
    let back := r.back.eraseIdx (i - r.front.length - r.middle.size)
    if minLoose ≤ back.length then .rope (.ofParts r.front r.middle back)
    else .ofParts r.front r.middle back

/-- The parts without the first `n` items. -/
def dropParts (r : Rope α) (n : Nat) : List α × Spine α × List α :=
  if n < r.front.length then (r.front.drop n, r.middle, r.back)
  else if n - r.front.length < r.middle.size then
    match r.middle.split (n - r.front.length) with
    | none => ([], r.middle, r.back)
    | some (before, block, after) =>
        (block.toList.drop (n - r.front.length - before.size), after, r.back)
  else (r.back.drop (n - r.front.length - r.middle.size), .empty, [])

/-- Three parts restricted to the first `n` items. -/
def takeParts (front : List α) (middle : Spine α) (back : List α) (n : Nat) :
    List α × Spine α × List α :=
  if n ≤ front.length then (front.take n, .empty, [])
  else if n - front.length = middle.size then (front, middle, [])
  else if n - front.length < middle.size then
    match middle.split (n - front.length) with
    | none => (front, middle, [])
    | some (before, block, _) => (front, before, block.toList.take (n - front.length - before.size))
  else (front, middle, back.take (n - front.length - middle.size))

/-- `count` items from a position on, for a slice within the sequence. -/
def slice (r : Rope α) (start count : Nat) : Bundle α :=
  if count = 0 then .flat []
  else if count = r.size then .rope r
  else if count ≤ maxFlat then .flat ((List.range count).filterMap fun k => r.get? (start + k))
  else
    let (front, middle, back) := r.dropParts start
    let (front, middle, back) := takeParts front middle back count
    .ofParts front middle back

/-- The items in reverse order. -/
def reverse (r : Rope α) : Bundle α := .ofList r.items.reverse

/-- Whether ends, leaves and cached sizes are right. -/
def check (r : Rope α) : Except String Unit := do
  checkEnd "left" r.front
  checkEnd "right" r.back
  let total := r.front.length + r.back.length + (← r.middle.check minLeaf maxLeaf 0)
  if total = r.size then .ok ()
  else .error ("sequence caches size " ++ toString r.size ++ ", holds " ++ toString total)
where
  /-- Whether an end holds an allowed number of items. -/
  checkEnd (side : String) (items : List α) : Except String Unit :=
    if minLoose ≤ items.length ∧ items.length ≤ maxLoose then .ok ()
    else .error (side ++ " digit holds " ++ toString items.length ++ " items")

end Rope

end QueryKernel
