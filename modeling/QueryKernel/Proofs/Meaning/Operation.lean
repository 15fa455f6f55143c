import QueryKernel.Eval.Aggregate
import QueryKernel.Eval.Coercion
import QueryKernel.Eval.Run
import QueryKernel.Proofs.Value.Shape

/-!
# Operations that always have a result

What the operations of the language make of plain lists of items, with a fixed result in place of an
error.  Compilation drops operands, so that an error of one of them may be gone afterwards; a meaning
that both expressions share must give a result there too.

The work is in `Sequence.compact`.  A range is added up in closed form where adding its integers one by one
would overflow, so a sequence has to say in which of the two ways it is added up.
-/

namespace QueryKernel

/-- Items, and whether integers among them are added up exactly. -/
structure Sequence where
  items : List Item
  compact : Bool

namespace Sequence

/-- A sequence of the given items, to be added up exactly if that is required. -/
structure From (s : Sequence) (items : List Item) (compact : Bool) : Prop where
  items_eq : s.items = items
  compact_of : compact = true → s.compact = true

/-- No items. -/
def empty : Sequence := ⟨[], false⟩

/-- One item. -/
def one (item : Item) : Sequence := ⟨[item], false⟩

theorem from_self (items : List Item) (compact : Bool) : From ⟨items, compact⟩ items compact :=
  ⟨rfl, id⟩

/-- Items that may be added up in any way. -/
theorem from_items {s : Sequence} {items : List Item} (same : s.items = items) : s.From items false :=
  ⟨same, fun compact => by cases compact⟩

theorem From.weaken {s : Sequence} {items : List Item} {compact weaker : Bool}
    (given : s.From items compact) (implies : weaker = true → compact = true) : s.From items weaker :=
  ⟨given.items_eq, fun asked => given.compact_of (implies asked)⟩

end Sequence

/-- Whether a value is added up in closed form. -/
def ValueOf.isRange : Value → Bool
  | .range _ => true
  | _ => false

/-! ## Atoms -/

/-- Atoms and nodes. -/
def ItemOf.IsPlain : Item → Prop
  | .atom _ => True
  | .node _ => True
  | _ => False

/-- The result in place of an error where one item is certain. -/
def standIn : Item := .integer 0

/-- The atom of an atom or a node. -/
def ItemOf.atom? : Item → Option Atom
  | .atom a => some a
  | .node n => some (.untyped n.stringValue)
  | _ => none

theorem atoms_of_plain {item : Item} (plain : item.IsPlain) :
    ∃ a, item.atom? = some a ∧ item.atoms = .ok [a] := by
  cases item with
  | atom a => exact ⟨a, rfl, by simp [ItemOf.atoms, ItemOf.atomize, AtomsFound.result, AtomsFound.empty,
      AtomsFound.atoms]⟩
  | node n => exact ⟨_, rfl, by simp [ItemOf.atoms, ItemOf.atomize, AtomsFound.result, AtomsFound.empty,
      AtomsFound.atoms]⟩
  | function f => exact plain.elim
  | map identity entries type => exact plain.elim
  | array identity members type => exact plain.elim

/-- The result of an operation on two atoms. -/
def operateAtoms (operation : Atom → Atom → Except AtomError Item) (a b : Item) : Option Item := do
  (operation (← a.atom?) (← b.atom?)).toOption

/-- The result of an operation on two sequences of at most one atom. -/
def operate (operation : Atom → Atom → Except AtomError Item) : List Item → List Item → List Item
  | [a], [b] => [(operateAtoms operation a b).getD standIn]
  | _, _ => []

/-- The integer of an atom. -/
def Atom.toLong? : Atom → Option Int64
  | .integer i => some i
  | .untyped s => readInteger? s
  | _ => none

/-- The integers between two bounds, unless they are too many. -/
def boundedRange (first last : Int64) : List Item :=
  let integers := ValueOf.integersBetween first last
  if integers.length ≤ IntegerRange.maxLength then integers else []

/-- The integers between two bounds; none without bounds. -/
def rangeItems : List Item → List Item → List Item
  | [a], [b] =>
      match a.atom?.bind (·.toLong?), b.atom?.bind (·.toLong?) with
      | some first, some last => boundedRange first last
      | _, _ => []
  | _, _ => []

/-! ## Boolean values -/

/-- The item that has the boolean value of a sequence. -/
def deciding : List Item → Option Item
  | [] => none
  | [item] => some item
  | first :: _ :: _ => if first.isNode then some first else none

/-- The boolean value of an item. -/
def ItemOf.truth (item : Item) : Bool := item.booleanValue.toOption.getD false

/-- The boolean value of a sequence. -/
def truth (items : List Item) : Bool := ((deciding items).map ItemOf.truth).getD false

/-! ## Selection -/

/-- Whether a position may be one in a sequence of some size, compared as doubles. -/
def isPositionIn (position : BinaryFloat) (size : Nat) : Bool :=
  position.isWhole && (position.compare? (.ofInt .double 1) matches some .gt | some .eq) &&
    (position.compare? (.ofInt .double size) matches some .lt | some .eq)

/-- The index of a position. -/
def positionIndex (position : BinaryFloat) : Nat := min (position.toInt?.getD 0).toNat maxSize - 1

/-- The item that a position selects. -/
def selectAt (items : List Item) (position : BinaryFloat) : List Item :=
  if isPositionIn position items.length then (items[positionIndex position]?).toList else []

/-- The items at positions where a condition holds. -/
def Selects (holds : Item → Nat → Bool → Prop) : List Item → Nat → List Item → Prop
  | [], _, chosen => chosen = []
  | item :: rest, position, chosen =>
      ∃ held others, holds item position held ∧ Selects holds rest (position + 1) others ∧
        chosen = if held then item :: others else others

/-- The items that pass a predicate, which is a position or a condition. -/
def Passes (position : Option BinaryFloat) (holds : Item → Nat → Bool → Prop) (items chosen : List Item) :
    Prop :=
  match position with
  | some position => chosen = selectAt items position
  | none => Selects holds items 1 chosen

theorem Selects.sublist {holds : Item → Nat → Bool → Prop} {items chosen : List Item} {position : Nat}
    (selects : Selects holds items position chosen) : chosen.Sublist items := by
  induction items generalizing position chosen with
  | nil =>
      obtain rfl : chosen = [] := selects
      exact List.Sublist.refl _
  | cons item rest rest_ih =>
      obtain ⟨held, others, _, later, rfl⟩ := selects
      split
      · exact (rest_ih later).cons_cons item
      · exact (rest_ih later).cons item

theorem selectAt_sublist (items : List Item) (position : BinaryFloat) :
    (selectAt items position).Sublist items := by
  unfold selectAt
  split
  · cases found : items[positionIndex position]? with
    | none => exact List.nil_sublist _
    | some item => exact List.singleton_sublist.2 (List.mem_of_getElem? found)
  · exact List.nil_sublist _

theorem Passes.sublist {position : Option BinaryFloat} {holds : Item → Nat → Bool → Prop}
    {items chosen : List Item} (passed : Passes position holds items chosen) : chosen.Sublist items := by
  cases position with
  | some p =>
      rw [show chosen = selectAt items p from passed]
      exact selectAt_sublist items p
  | none => exact Selects.sublist passed

/-- Whether a number in a predicate holds at a position. -/
def numberHolds (a : Atom) (position : Nat) : Bool :=
  (a.toFloat?.map (·.sameNumber (.ofInt .double position))).getD false

/-! ## Nodes -/

/-- The roots of some items, added to those found before; none if one of them is not a node. -/
def rootsOf (root : Node → Node) : List Node → List Item → Option (List Node)
  | found, [] => some found
  | found, .node n :: rest =>
      rootsOf root (if found.contains (root n) then found else found ++ [root n]) rest
  | _, _ :: _ => none

/-- The deletions of the nodes among some items. -/
def deletions : List Item → List PendingUpdate
  | [] => []
  | .node n :: rest => .delete n :: deletions rest
  | _ :: rest => deletions rest

/-! ## Sums -/

/-- The exact sum of integers; none if there are other items. -/
def integerSum? : List Item → Option Int
  | [] => some 0
  | .atom (.integer i) :: rest => (integerSum? rest).map (i.toInt + ·)
  | _ :: _ => none

/-- A sum of integers as an atom: a decimal if it is beyond 64 bits. -/
def exactTotal (sum : Int) : Except (Cause Expr) Atom :=
  match long? sum with
  | some i => .ok (.integer i)
  | none => if sum.natAbs < Decimal.limit then .ok (.decimal (.ofInt sum)) else .error .overflow

/-- The sum of some items added up one by one. -/
def foldTotal (items : List Item) : Except (Cause Expr) (Option PartialSum) :=
  items.foldlM (fun sum item => do (← item.atoms).foldlM addToSum sum) none

/-- The sum of a sequence and the number of its atoms; nothing if there are none. -/
def Sequence.total (s : Sequence) : Except (Cause Expr) (Option (Atom × Nat)) :=
  match s.compact, s.items, integerSum? s.items with
  | true, _ :: _, some sum => (exactTotal sum).map fun atom => some (atom, s.items.length)
  | _, _, _ => (foldTotal s.items).map fun sum => sum.map fun sum => (sum.sum, sum.count)

/-- The sum of a sequence, with results in place of it where there is nothing to add up and where that
cannot be done. -/
def sumItems (s : Sequence) (nothing failed : List Item) : List Item :=
  match s.total with
  | .ok (some (sum, _)) => [.atom sum]
  | .ok none => nothing
  | .error _ => failed

/-- At most one item; no others are accepted. -/
def atMostOne (items : List Item) : List Item := if items.length ≤ 1 then items else []

/-- The mean of a sequence, if there is one. -/
def averageItems (s : Sequence) : List Item :=
  match s.total with
  | .ok (some (sum, count)) =>
      match long? count with
      | some n => (Operator.divide.apply sum (.integer n)).toOption.toList.map .atom
      | none => []
  | _ => []

/-- The number of items of a sequence. -/
def countItems (n : Nat) : Item := .integer (Int64.ofInt n)

/-- The result of a function for the results of its arguments. -/
def BuiltIn.result : BuiltIn → List Sequence → List Item
  | head, [s] => s.items.take 1
  | count, [s] => [countItems s.items.length]
  | sum, [s] => sumItems s [.integer 0] [standIn]
  | sum, [s, t] => sumItems s (atMostOne t.items) []
  | avg, [s] => averageItems s
  | reverse, [s] => s.items.reverse
  | _, _ => []

/-- The result in place of an error: an error about the number of items still tells it. -/
def ErrorOf.result (error : Error) (type : StaticType) : List Item :=
  match error.cause with
  | .tooLongToCount n => [countItems n]
  | _ => if type.sequenceType.occurrence.allows 0 then [] else [standIn]

end QueryKernel
