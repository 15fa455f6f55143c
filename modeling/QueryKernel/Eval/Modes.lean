import QueryKernel.Eval.Stream
import QueryKernel.Value.Atoms

/-!
# Ways to evaluate

The result of an expression can be asked for in four ways: as a lazy stream, as at most one item, as a
value, and as the item whose boolean value counts.  An expression gives some of them directly; the
others follow from the stream.

## Functions

* `Modes.ofStream`, `ofValue`, `ofItem` derive all ways from one.
* `Modes.boolean`, `test`, `atomItem`, `atomValue` refine the result further.
-/

namespace QueryKernel

/-- The ways to ask for the result of an expression, and the place for errors about it. -/
structure Modes where
  location : Option Location
  stream : Eval Stream
  item : Eval (Option Item)
  value : Eval Value
  booleanItem : Eval Item

/-- The value of at most one item. -/
def valueOfOption (item : Option Item) : Value := (item.map ValueOf.one).getD .empty

/-- The value of a stream; there may be a reason to stop behind every item. -/
def collectStream (stream : Eval Stream) : Eval Value := do
  let s ← stream
  let builder ← s.fold (fun (b : ValueBuilder Expr) item => do
    Eval.checkStop
    pure (b.addBack item)) ValueBuilder.empty
  pure builder.freeze

/-- At most one item of a stream; others are an error. -/
def singleOfStream (location : Option Location) (stream : Eval Stream) : Eval (Option Item) := do
  let s ← stream
  match ← s.next with
  | none => pure none
  | some (first, s) =>
      match ← s.next with
      | none => pure (some first)
      | some (second, s) =>
          let more := (← s.next).isSome
          Eval.raise (.manyItems first second more) location

/-- The first item of a stream if it is a node or the only item; `false` if there is none. -/
def booleanItemOfStream (location : Option Location) (stream : Eval Stream) : Eval Item := do
  let s ← stream
  match ← s.next with
  | none => pure (.boolean false)
  | some (first, s) =>
      if first.isNode then pure first
      else match ← s.next with
        | none => pure first
        | some (second, s) =>
            let more := (← s.next).isSome
            Eval.raise (.booleanOfMany first second more) location

/-- At most one item of a value; others are an error. -/
def singleOfValue (location : Option Location) (v : Value) : Eval (Option Item) :=
  match v.get? 0, v.get? 1 with
  | some first, some second =>
      Eval.raise (.manyItems first second (decide (2 < v.size))) location
  | first, _ => pure first

namespace Modes

/-- All ways, given the stream and a way to get at most one item.  If there can be no more than one
item, the item decides. -/
def ofStreamAndItem (location : Option Location) (atMostOne : Bool) (stream : Eval Stream)
    (item : Eval (Option Item)) : Modes where
  location := location
  stream := stream
  item := item
  value := if atMostOne then do return valueOfOption (← item) else collectStream stream
  booleanItem :=
    if atMostOne then do return (← item).getD (.boolean false)
    else booleanItemOfStream location stream

/-- All ways, given the stream. -/
def ofStream (location : Option Location) (atMostOne : Bool) (stream : Eval Stream) : Modes :=
  ofStreamAndItem location atMostOne stream (singleOfStream location stream)

/-- All ways, given the value. -/
def ofValue (location : Option Location) (atMostOne : Bool) (value : Eval Value) : Modes :=
  let stream : Eval Stream := do return .ofValue (← value)
  { ofStream location atMostOne stream with value := value }

/-- All ways, given the value and a way to get at most one item. -/
def ofValueAndItem (location : Option Location) (atMostOne : Bool) (value : Eval Value)
    (item : Eval (Option Item)) : Modes :=
  let stream : Eval Stream := do return .ofValue (← value)
  { ofStreamAndItem location atMostOne stream item with value := value }

/-- All ways, given at most one item. -/
def ofItem (location : Option Location) (atMostOne : Bool) (item : Eval (Option Item)) : Modes :=
  let stream : Eval Stream := do return .ofOption (← item)
  ofStreamAndItem location atMostOne stream item

/-- The boolean value. -/
def boolean (m : Modes) : Eval Bool := do
  let item ← m.booleanItem
  Eval.ofExcept m.location item.booleanValue

/-- The item that decides a predicate, if it holds: a number holds at its position, and any other
item if its boolean value is true. -/
def test (m : Modes) : Eval (Option Item) := do
  let item ← m.booleanItem
  let holds ← match item with
    | .atom a =>
        if a.isNumeric then do
          let position := BinaryFloat.ofInt .double (← Eval.context).focus.position
          pure ((a.toFloat?.map (·.sameNumber position)).getD false)
        else Eval.ofExcept m.location item.booleanValue
    | _ => Eval.ofExcept m.location item.booleanValue
  pure (if holds then some item else none)

/-- The only atom, if there is one.  An array may have none or several. -/
def atomItem (m : Modes) : Eval (Option Atom) := do
  match ← m.item with
  | none => pure none
  | some item =>
      match ← Eval.ofExcept m.location item.atoms with
      | [] => pure none
      | [atom] => pure (some atom)
      | first :: second :: rest =>
          Eval.raise (.manyItems (.atom first) (.atom second) (!rest.isEmpty)) m.location

/-- The atoms of the value. -/
def atomValue (m : Modes) : Eval Value := do
  let v ← m.value
  Eval.ofExcept m.location v.atomize

/-- The ways to evaluate a literal. -/
def ofLiteral (v : Value) : Modes where
  location := none
  stream := pure (.ofValue v)
  item := singleOfValue none v
  value := pure v
  booleanItem :=
    match v.get? 0, v.get? 1 with
    | none, _ => pure (.boolean false)
    | some first, none => pure first
    | some first, some second =>
        if first.isNode then pure first
        else Eval.raise (.booleanOfMany first second (decide (2 < v.size))) none

end Modes

end QueryKernel
