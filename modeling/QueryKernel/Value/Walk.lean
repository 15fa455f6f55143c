import QueryKernel.Fault
import QueryKernel.Sequence.Cursor
import QueryKernel.Value

/-!
# Walks

Going through the items of a value one by one, from any position on.

## Functions

* `Walk.next` gives the next item and the walk behind it; `Walk.nextBounded` also keeps the position
  within 64 bits.
* `Walk.remaining` is the number of items still to come.
* `ValueOf.same` compares two values item by item.
-/

namespace QueryKernel

variable {F : Type}

/-- The items of a value that are still to come.  In a flat sequence the position is counted, also behind
the end. -/
inductive Walk (F : Type) where
  | list (rest : List (ItemOf F))
  | flat (items : List (ItemOf F)) (position : Nat)
  | range (next : Int64) (left : Nat)
  | rope (cursor : Cursor (ItemOf F))

namespace Walk

/-- The number of items still to come. -/
def remaining : Walk F → Nat
  | list rest => rest.length
  | flat items position => items.length - position
  | range _ left => left
  | rope cursor => cursor.remaining

/-- The next item and the walk behind it.  After the end there is none. -/
def next : Walk F → Option (ItemOf F) × Walk F
  | list [] => (none, list [])
  | list (item :: rest) => (some item, list rest)
  | flat items position => (items[position]?, flat items (position + 1))
  | range i 0 => (none, range i 0)
  | range i 1 => (some (.integer i), range i 0)
  | range i (left + 2) => (some (.integer i), range (i + 1) (left + 1))
  | rope cursor =>
      let (item, cursor) := cursor.next
      (item, rope cursor)

/-- The items of a walk, at most the given number, and the walk behind them. -/
def take : Nat → Walk F → List (ItemOf F) × Walk F
  | 0, w => ([], w)
  | n + 1, w =>
      match w.next with
      | (none, w) => ([], w)
      | (some item, w) =>
          let (items, w) := take n w
          (item :: items, w)

/-- The next item and the walk behind it, unless the position behind it in a flat sequence gets too large. -/
def nextBounded (w : Walk F) : Except Fault (Option (ItemOf F) × Walk F) :=
  match w with
  | flat _ position => if position < maxSize then .ok w.next else .error .sizeOverflow
  | _ => .ok w.next

/-- The items of a walk, at most the given number, unless a position gets too large. -/
def takeBounded : Nat → Walk F → Except Fault (List (ItemOf F) × Walk F)
  | 0, w => .ok ([], w)
  | n + 1, w => do
      match ← w.nextBounded with
      | (none, w) => .ok ([], w)
      | (some item, w) =>
          let (items, w) ← takeBounded n w
          .ok (item :: items, w)

end Walk

namespace ValueOf

/-- A walk from a position on.  Positions beyond the end are the end. -/
def walkFrom (start : Nat) : ValueOf F → Walk F
  | empty => .list []
  | one item => .list ([item].drop start)
  | flat items _ => .flat items start
  | range r => if start < r.length then .range (r.get start) (r.length - start) else .range r.first 0
  | tree rope _ => .rope (.start rope (min start rope.size))

/-- A walk through all items. -/
def walk (v : ValueOf F) : Walk F := v.walkFrom 0

/-- Whether the next items of two walks are the same, the given number of times. -/
def sameSteps : Nat → Walk F → Walk F → Bool
  | 0, _, _ => true
  | n + 1, w, x =>
      match w.next, x.next with
      | (some a, w), (some b, x) => a.same b && sameSteps n w x
      | _, _ => true

/-- Whether two values hold the same items, whatever their shapes. -/
def same (v w : ValueOf F) : Bool := v.size == w.size && sameSteps v.size v.walk w.walk

end ValueOf

end QueryKernel
