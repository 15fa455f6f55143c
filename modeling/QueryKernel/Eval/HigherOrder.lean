import QueryKernel.Eval.Coercion
import QueryKernel.Eval.Invoke

/-!
# Folding and sorting

The functions `fold-left1` and `sort-with`, which call a function item on items of a sequence.

## Functions

* `foldLeft1` combines the items from the left, starting with the first.
* `mergeSort` is a stable merge sort with a comparison that may fail; the first failure ends it.
-/

namespace QueryKernel

/-- The items combined from the left by a function.  There has to be at least one. -/
def foldLeft1 (calls : Calls) (location : Option Location) (v : Value) (callee : Item) : Eval Value :=
  match v.walk.next with
  | (none, _) => Eval.raise (.emptyInput none) location
  | (some first, rest) =>
      Eval.foldWalk (fun (total : Value) item => do
        Eval.checkStop
        (invoke calls callee [total, .one item]).locate location) v.size (.one first) rest

/-- Moves the items that come before another one over to those merged so far, last one first. -/
def takeLess (less : Item → Item → Eval Bool) (a : Item) :
    List Item → List Item → Eval (List Item × List Item)
  | merged, [], c => (.ok (merged, []), c)
  | merged, b :: rest, c =>
      match less b a c with
      | (.ok true, c) => takeLess less a (b :: merged) rest c
      | (.ok false, c) => (.ok (merged, b :: rest), c)
      | (.error e, c) => (.error e, c)

/-- Merges two sorted lists behind the items merged so far, last one first.  Of equal items that of
the first list comes first. -/
def mergeSorted (less : Item → Item → Eval Bool) : List Item → List Item → List Item → Eval (List Item)
  | merged, [], right, c => (.ok (merged.reverse ++ right), c)
  | merged, a :: left, right, c =>
      match takeLess less a merged right c with
      | (.ok (merged, right), c) => mergeSorted less (a :: merged) left right c
      | (.error e, c) => (.error e, c)

/-- Sorts at most as many items as the first argument allows for. -/
def mergeSortWithin (less : Item → Item → Eval Bool) : Nat → List Item → Eval (List Item)
  | 0, items => pure items
  | most + 1, items =>
      if items.length ≤ 1 then pure items
      else do
        let half := items.length / 2
        let left ← mergeSortWithin less most (items.take half)
        let right ← mergeSortWithin less most (items.drop half)
        mergeSorted less [] left right

/-- A stable merge sort: the halves are sorted first. -/
def mergeSort (less : Item → Item → Eval Bool) (items : List Item) : Eval (List Item) :=
  mergeSortWithin less items.length items

/-- Whether a function says that the first item comes before the second. -/
def comesBefore (calls : Calls) (callee a b : Item) : Eval Bool := do
  Eval.checkStop
  let v ← invoke calls callee [.one a, .one b]
  (Modes.ofLiteral v).boolean

/-- The items sorted by a function that says which come first. -/
def sortWith (calls : Calls) (location : Option Location) (v : Value) (callee : Item) : Eval Value := do
  let sorted ← (mergeSort (comesBefore calls callee) v.items).locate location
  pure (.ofItems sorted)

end QueryKernel
