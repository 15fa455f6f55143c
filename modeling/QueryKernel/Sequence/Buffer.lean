import QueryKernel.Sequence.Rope

/-!
# Buffers

Sequences under construction.  Items are added at either end; an end that has grown by a leaf beyond
the loose items of a rope sheds the leaf into the middle.

## Functions

* `Buffer.toList` is the sequence so far.
* `addFront`, `addBack` add an item.
* `freeze` is the finished sequence, `ofRope` opens one again.
-/

namespace QueryKernel

/-- A sequence under construction.  The items at the back are kept in reverse order. -/
structure Buffer (α : Type) where
  front : List α
  middle : Spine α
  reversedBack : List α

namespace Buffer

variable {α : Type}

/-- No items. -/
def empty : Buffer α := ⟨[], .empty, []⟩

/-- The items. -/
def toList (b : Buffer α) : List α := b.front ++ b.middle.toList ++ b.reversedBack.reverse

/-- The number of items. -/
def size (b : Buffer α) : Nat := b.front.length + b.reversedBack.length + b.middle.size

/-- Adds an item after all others. -/
def addBack (b : Buffer α) (a : α) : Buffer α :=
  let reversedBack := a :: b.reversedBack
  if maxLoose + maxLeaf ≤ reversedBack.length then
    let back := reversedBack.reverse
    ⟨b.front, b.middle.pushBack (.leaf (back.take maxLeaf)), (back.drop maxLeaf).reverse⟩
  else { b with reversedBack }

/-- Adds an item before all others. -/
def addFront (b : Buffer α) (a : α) : Buffer α :=
  let front := a :: b.front
  if maxLoose + maxLeaf ≤ front.length then
    let kept := front.length - maxLeaf
    { b with front := front.take kept, middle := b.middle.pushFront (.leaf (front.drop kept)) }
  else { b with front }

/-- A buffer that continues a rope. -/
def ofRope (r : Rope α) : Buffer α := ⟨r.front, r.middle, r.back.reverse⟩

/-- The finished sequence. -/
def freeze (b : Buffer α) : Bundle α :=
  if b.middle.isEmpty then .ofList (b.front ++ b.reversedBack.reverse)
  else .ofParts b.front b.middle b.reversedBack.reverse

end Buffer

end QueryKernel
