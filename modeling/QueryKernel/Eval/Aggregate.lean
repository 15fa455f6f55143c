import QueryKernel.Eval.Modes

/-!
# Counting and adding up

The functions `count`, `sum` and `avg`.

## Functions

* `countOf` uses a known size before it goes through the items.
* `rangeTotal` is the closed form of the sum of a range.
* `total` adds atoms one by one; all must be numbers, or durations of one kind.
-/

namespace QueryKernel

/-- A number of items as an integer. -/
def countItem (n : Nat) : Except (Cause Expr) Item :=
  match long? n with
  | some i => .ok (.integer i)
  | none => .error (.tooLongToCount n)

/-- The number of items, given the size known before evaluation. -/
def countOf (size? : Option Nat) (stream : Eval Stream) : Eval Item :=
  match size? with
  | some n => Eval.ofExcept none (countItem n)
  | none => do
      let s ← stream
      match s.left with
      | some n => Eval.ofExcept none (countItem n)
      | none => do
          let n ← s.fold (fun (n : Nat) _ => do
            Eval.checkStop
            pure (n + 1)) 0
          pure (.integer (Int64.ofInt n))

/-- What can be added up together. -/
inductive SumClass where
  | number | yearMonth | dayTime
  deriving DecidableEq

namespace SumClass

/-- The class of an atom. -/
def of? : Atom → Option SumClass
  | .integer _ | .decimal _ | .double _ | .float _ => some number
  | .yearMonthDuration _ => some yearMonth
  | .dayTimeDuration _ => some dayTime
  | _ => none

/-- The item type of a class. -/
def itemType : SumClass → ItemType
  | number => .atomic .numeric
  | yearMonth => .atomic .yearMonthDuration
  | dayTime => .atomic .dayTimeDuration

end SumClass

/-- A sum so far: the sum, its class and the number of atoms. -/
structure PartialSum where
  sum : Atom
  sumClass : SumClass
  count : Nat

/-- A sum with one more atom. -/
def addToSum (sum : Option PartialSum) (a : Atom) : Except (Cause Expr) (Option PartialSum) := do
  let a ← a.untypedToDouble.mapError .ofAtomError
  match sum with
  | none =>
      match SumClass.of? a with
      | some sumClass => .ok (some ⟨a, sumClass, 1⟩)
      | none => .error (.notSummable (.atom a))
  | some s =>
      if SumClass.of? a = some s.sumClass then do
        let sum ← (Operator.plus.apply s.sum a).mapError .ofAtomError
        .ok (some ⟨sum, s.sumClass, s.count + 1⟩)
      else .error (.outOfClass s.sumClass.itemType (.atom a))

/-- The sum of the atoms of a value; nothing if there are none. -/
def total (v : Value) : Eval (Option PartialSum) :=
  Eval.foldValue (fun (sum : Option PartialSum) item => do
    Eval.checkStop
    Eval.ofExcept none do
      (← item.atoms).foldlM addToSum sum) none v

/-- The sum of a range: an integer if it fits, otherwise a decimal if that fits. -/
def rangeTotal (r : IntegerRange) : Except (Cause Expr) Atom :=
  let n : Int := r.length
  let sum := n * (2 * r.first.toInt + n - 1) / 2
  match long? sum with
  | some i => .ok (.integer i)
  | none => if sum.natAbs < Decimal.limit then .ok (.decimal (.ofInt sum)) else .error .overflow

/-- The sum of a value; without atoms it is the alternative, or zero. -/
def sumOf (location : Option Location) (value : Eval Value) (alternative : Option (Eval (Option Item))) :
    Eval (Option Item) := do
  let v ← value
  let sum ← match v with
    | .range r => some <$> Eval.ofExcept none (rangeTotal r)
    | _ => do
        let sum ← (total v).locate location
        pure (sum.map (·.sum))
  match sum, alternative with
  | some a, _ => pure (some (.atom a))
  | none, some other => other
  | none, none => pure (some (.integer 0))

/-- The mean of a value; there is none without atoms. -/
def averageOf (location : Option Location) (value : Eval Value) : Eval (Option Item) := do
  let v ← value
  let sum ← match v with
    | .range r => do
        let sum ← Eval.ofExcept none (rangeTotal r)
        pure (some (sum, r.length))
    | _ => do
        let sum ← (total v).locate location
        pure (sum.map fun s => (s.sum, s.count))
  match sum with
  | none => pure none
  | some (sum, count) =>
      match long? count with
      | none => Eval.raise .overflow none
      | some n => do
          let mean ← Eval.ofExcept location
            ((Operator.divide.apply sum (.integer n)).mapError .ofAtomError)
          pure (some (.atom mean))

end QueryKernel
