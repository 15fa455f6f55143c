import QueryKernel.Sequence.Rope

/-!
# Cursors

Positions between the items of a rope.  A cursor keeps the run of items it read last, so walking in
one direction looks up each run once.

## Functions

* `Cursor.next` gives the item after the cursor and moves behind it.
* `Cursor.previous` moves back over an item and gives it.
-/

namespace QueryKernel

/-- A position in a rope, with the run of items read last and the position of its first item. -/
structure Cursor (α : Type) where
  rope : Rope α
  index : Nat
  block : Option (List α × Nat)

namespace Cursor

variable {α : Type}

/-- A cursor before a position. -/
def start (rope : Rope α) (index : Nat) : Cursor α := ⟨rope, index, none⟩

/-- The number of items after the cursor. -/
def remaining (c : Cursor α) : Nat := c.rope.size - c.index

/-- The item at a position, out of the last run if it is there, and the run it is in. -/
def fetch (c : Cursor α) (i : Nat) : Option α × Option (List α × Nat) :=
  let look : Option α × Option (List α × Nat) :=
    let (items, first) := c.rope.blockAt i
    (items[i - first]?, some (items, first))
  match c.block with
  | none => look
  | some (items, first) => if first ≤ i ∧ i - first < items.length then (items[i - first]?, c.block) else look

/-- The item after the cursor, which moves behind it.  At the end there is none. -/
def next (c : Cursor α) : Option α × Cursor α :=
  if c.rope.size ≤ c.index then (none, c)
  else
    let (item, block) := c.fetch c.index
    (item, ⟨c.rope, c.index + 1, block⟩)

/-- The item before the cursor, which moves in front of it.  At the start there is none. -/
def previous (c : Cursor α) : Option α × Cursor α :=
  if c.index = 0 then (none, c)
  else
    let (item, block) := c.fetch (c.index - 1)
    (item, ⟨c.rope, c.index - 1, block⟩)

end Cursor

end QueryKernel
