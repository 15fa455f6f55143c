import QueryKernel.Proofs.Sequence.Cursor

/-!
# Cursors in both directions

However moves forwards and backwards are mixed, a cursor gives the items of the list that its rope stands for, and
it never leaves the list.

The work is in `Cursor.Stands.perform`: the run of items that a cursor has kept may end on either side of it,
and each move keeps that it is a part of the list at its place.
-/

namespace QueryKernel

variable {α : Type}

/-- A step of a cursor. -/
inductive Move where
  | next
  | previous

namespace Move

/-- The item that is passed, starting before the given position of a list. -/
def passed? (items : List α) (index : Nat) : Move → Option α
  | next => items[index]?
  | previous => if index = 0 then none else items[index - 1]?

/-- The position afterwards.  There is none behind the end or before the start. -/
def target (length index : Nat) : Move → Nat
  | next => if index < length then index + 1 else index
  | previous => index - 1

/-- The items that are passed by some moves. -/
def allPassed (items : List α) : List Move → Nat → List (Option α)
  | [], _ => []
  | move :: rest, index => move.passed? items index :: allPassed items rest (move.target items.length index)

/-- The position after some moves. -/
def targetOf (length : Nat) (moves : List Move) (index : Nat) : Nat :=
  moves.foldl (fun index move => move.target length index) index

end Move

namespace Cursor

/-- What a move gives, and the cursor after it. -/
def perform (c : Cursor α) : Move → Option α × Cursor α
  | .next => c.next
  | .previous => c.previous

/-- What some moves give, and the cursor after them. -/
def run : List Move → Cursor α → List (Option α) × Cursor α
  | [], c => ([], c)
  | move :: rest, c =>
      let (item, c) := c.perform move
      let (items, c) := run rest c
      (item :: items, c)

/-- The cursor is before a position of a list. -/
structure Stands (c : Cursor α) (items : List α) (index : Nat) : Prop where
  reads : c.Reads (items.drop index)
  items_eq : c.rope.toList = items
  index_eq : c.index = index

theorem start_stands {r : Rope α} (wellFormed : r.WellFormed) {index : Nat} (inside : index ≤ r.size) :
    (start r index).Stands r.toList index := by
  have reads := start_reads wellFormed index
  rw [Nat.min_eq_left inside] at reads
  exact ⟨reads, rfl, rfl⟩

variable {c : Cursor α} {items : List α} {index : Nat}

theorem Stands.remaining_eq (stands : c.Stands items index) : c.remaining = items.length - index := by
  rw [stands.reads.remaining_eq, List.length_drop]

theorem Stands.next (stands : c.Stands items index) :
    c.next.1 = items[index]? ∧ c.next.2.Stands items (Move.next.target items.length index) := by
  obtain ⟨reads, rfl, rfl⟩ := stands
  by_cases before : c.index < c.rope.toList.length
  · obtain ⟨item, rest⟩ := Reads.next_cons (List.drop_eq_getElem_cons before ▸ reads)
    have moved : c.next.2.rope = c.rope ∧ c.next.2.index = c.index + 1 := by
      rw [Cursor.next, if_neg (by rw [reads.rope.size_eq]; omega)]
      exact ⟨rfl, rfl⟩
    rw [Move.target, if_pos before, item, List.getElem?_eq_getElem before]
    exact ⟨rfl, rest, by rw [moved.1], moved.2⟩
  · have none_left := Nat.le_of_not_lt before
    rw [List.drop_eq_nil_of_le none_left] at reads
    rw [reads.next_nil, Move.target, if_neg before, List.getElem?_eq_none none_left]
    exact ⟨rfl, by rwa [List.drop_eq_nil_of_le none_left], rfl, rfl⟩

/-- The item before the cursor may be in the kept run or in the run before it. -/
theorem Stands.previous (stands : c.Stands items index) :
    c.previous.1 = Move.previous.passed? items index ∧ c.previous.2.Stands items (index - 1) := by
  obtain ⟨reads, rfl, rfl⟩ := stands
  rw [Cursor.previous, Move.passed?]
  split
  · next first =>
      rw [first, Nat.zero_sub, ← first]
      exact ⟨rfl, reads, rfl, rfl⟩
  · next later =>
      -- The kept run may start behind the item that is passed, and then another one is fetched.
      have inside := reads.inside
      obtain ⟨item, fits⟩ := fetch_spec (i := c.index - 1) reads.rope reads.block (by omega)
      refine ⟨item, ⟨reads.rope, fits, ?_, rfl⟩, rfl, rfl⟩
      dsimp only
      omega

/-- A move passes the item that it would pass in the list, and leads where it would lead there. -/
theorem Stands.perform (stands : c.Stands items index) (move : Move) :
    (c.perform move).1 = move.passed? items index ∧
      (c.perform move).2.Stands items (move.target items.length index) := by
  cases move with
  | next => exact stands.next
  | previous => exact stands.previous

theorem Stands.run (stands : c.Stands items index) (moves : List Move) :
    (c.run moves).1 = Move.allPassed items moves index ∧
      (c.run moves).2.Stands items (Move.targetOf items.length moves index) := by
  induction moves generalizing c index with
  | nil => exact ⟨rfl, stands⟩
  | cons move rest rest_ih =>
      obtain ⟨passed, after⟩ := stands.perform move
      obtain ⟨others, final⟩ := rest_ih after
      exact ⟨by rw [Cursor.run, Move.allPassed, ← passed, ← others], final⟩

end Cursor

end QueryKernel
