import QueryKernel.Eval.Aggregate
import QueryKernel.Eval.HigherOrder
import QueryKernel.Expr.Static

/-!
# Evaluating expressions

The meaning of every expression, in all the ways in which its result can be asked for.  The meaning of
a tree is put together from those of its parts; only calls of function items lead elsewhere, and how
deeply they may be nested is a parameter.

## Functions

* `Expr.modes` is the meaning of an expression, given the meaning of function items.
* `callsWithin` evaluates the bodies of function items, nested to a given depth.
* `Expr.run` is the meaning of an expression as a whole.
-/

namespace QueryKernel

/-- Refuses a value that the declared type of a variable does not allow. -/
def checkDeclared (var : Variable) (v : Value) : Except (Cause Expr) Unit :=
  match var.declared with
  | none => .ok ()
  | some declared =>
      if !declared.occurrence.allows v.size then
        .error (.declaredSize var.name declared v.sequenceType)
      else match firstMisfit declared.type v.size v.walk with
        | some item => .error (.wrongType item declared.type)
        | none => .ok ()
where
  /-- The first of the next items that is not of a type. -/
  firstMisfit (type : ItemType) : Nat → Walk Expr → Option Item
    | 0, _ => none
    | n + 1, w =>
        match w.next with
        | (none, _) => none
        | (some item, w) => if item.type.isSubtype type then firstMisfit type n w else some item

/-- Binds a variable to a value of its declared type. -/
def bindVariable (var : Variable) (location : Option Location) (v : Value) : Eval Unit := do
  Eval.ofExcept location (checkDeclared var v)
  Eval.change (·.bind var v)

/-- The value of a variable. -/
def variableValue (var : Variable) (location : Option Location) : Eval Value := do
  match (← Eval.context).lookup? var with
  | some v => pure v
  | none => Eval.raise (.undeclared var.name) location

/-- The integers from one bound to another; none without both bounds. -/
def rangeValue (first last : Modes) (location : Option Location) : Eval Value := do
  match ← first.toLong? with
  | none => pure .empty
  | some a =>
      match ← last.toLong? with
      | none => pure .empty
      | some b =>
          match ValueOf.range? a b with
          | some v => pure v
          | none => Eval.raise (.rangeTooLong a b) location

/-- The result of an operation on two atoms; none without both. -/
def onAtoms (a b : Modes) (location : Option Location)
    (operation : Atom → Atom → Except AtomError Item) : Eval (Option Item) := do
  match ← a.atomItem with
  | none => pure none
  | some x =>
      match ← b.atomItem with
      | none => pure none
      | some y => some <$> Eval.ofExcept location ((operation x y).mapError .ofAtomError)

/-- The values of operands, put together. -/
def listValue (operands : List Modes) : Eval Value := do
  let builder ← Eval.foldList (fun (b : ValueBuilder Expr) (m : Modes) => do
    Eval.checkStop
    let v ← m.value
    Eval.ofFaulty (b.addValueBounded v)) ValueBuilder.empty operands
  pure builder.freeze

/-- The different roots of the nodes of a value, in order; the first item that is no node otherwise. -/
def distinctRoots (forest : Forest) (v : Value) : Except Item (List Node) :=
  onWalk v.size [] v.walk
where
  /-- Adds the roots of the next nodes of a walk to those found before. -/
  onWalk : Nat → List Node → Walk Expr → Except Item (List Node)
    | 0, roots, _ => .ok roots
    | steps + 1, roots, w =>
        match w.next with
        | (none, _) => .ok roots
        | (some (.node n), w) =>
            let root := forest.root n
            onWalk steps (if roots.contains root then roots else roots ++ [root]) w
        | (some other, _) => .error other

/-- The roots of the trees around the context nodes. -/
def rootValue (location : Option Location) : Eval Value := do
  let v ← contextValue "root" location
  match distinctRoots (← Eval.context).forest v with
  | .ok roots => pure (.ofItems (roots.map .node))
  | .error item => Eval.raise (.rootNotNode item.type) location

/-- The item selected by a position.  The size is compared as a double, so that for a very long
sequence a position beyond the end may get through, which is a fault. -/
def selectPosition (v : Value) (position : BinaryFloat) : Except Fault Value :=
  if position.isWhole ∧ position.compare? (.ofInt .double 1) matches some .gt | some .eq ∧
      position.compare? (.ofInt .double v.size) matches some .lt | some .eq then
    (v.itemAt (min (position.toInt?.getD 0).toNat maxSize - 1)).map .one
  else .ok .empty

/-- The items for which a predicate holds.  Each of them is the focus in turn. -/
def selectWhere (v : Value) (predicate : Modes) : Eval Value := do
  let (builder, _) ← Eval.foldValue (fun (state : ValueBuilder Expr × Nat) item => do
    let (builder, position) := state
    Eval.checkStop
    Eval.change fun c => { c with focus := ⟨some (.one item), position, v.size⟩ }
    let held ← predicate.test
    pure (if held.isSome then builder.addBack item else builder, position + 1))
    (ValueBuilder.empty, 1) v
  pure builder.freeze

/-- The items that pass all predicates, each a position or a condition.  The focus is restored. -/
def filterValue (base : Modes) (predicates : List (Option BinaryFloat × Modes)) : Eval Value := do
  let v ← base.value
  let saved := (← Eval.context).focus
  let filtered : Eval Value := Eval.foldList (fun v (position, predicate) =>
    match position with
    | some p => Eval.ofFaulty (selectPosition v p)
    | none => selectWhere v predicate) v predicates
  fun c =>
    let (result, c) := filtered c
    (result, { c with focus := saved })

/-- Records the deletion of all nodes of a target. -/
def deleteAll (target : Modes) (location : Option Location) : Eval Value := do
  let s ← target.stream
  s.fold (fun () item => do
    Eval.checkStop
    match item with
    | .node n => Eval.change fun c => { c with updates := c.updates.push (.delete n) }
    | other => Eval.raise (.wrongType other .anyNode) location) ()
  pure .empty

/-- The error raised by a query: code, message and items are optional. -/
def raisedError (location : Option Location) (arguments : List Modes) : Eval Error := do
  let code ← match arguments[0]? with
    | none => pure none
    | some m =>
        match ← m.atomItem with
        | none => pure none
        | some (.qName name) => pure (some (⟨name.namespaceUri, name.localPart⟩ : ExpandedName))
        | some other => Eval.raise (.wrongType (.atom other) (.atomic .qName)) location
  let message ← match arguments[1]? with
    | none => pure "Halted on error()."
    | some m => m.toText
  let items ← match arguments[2]? with
    | none => pure []
    | some m => ValueOf.items <$> m.value
  pure ⟨.raised (code.getD ErrorCode.FOER0000.expandedName) message items, location⟩

/-- The ways to evaluate a call of a built-in function, given those of its arguments and the size of
the first argument known before. -/
def BuiltIn.modes (calls : Calls) (f : BuiltIn) (location : Option Location) (atMostOne : Bool)
    (size? : Option Nat) (arguments : List Modes) : Modes :=
  let first := arguments.headD (.ofLiteral .empty)
  let ofItem (item : Eval (Option Item)) : Modes :=
    .ofValueAndItem location atMostOne (do return valueOfOption (← item)) item
  let ofValue (value : Eval Value) : Modes :=
    .ofValueAndItem location atMostOne value (do singleOfValue location (← value))
  let callee : Eval Item := (arguments.getD 1 (.ofLiteral .empty)).toCallee
  match f with
  | head => ofItem do
      let s ← first.stream
      return (← s.next).map Prod.fst
  | count => ofItem (some <$> countOf size? first.stream)
  | sum => ofItem (sumOf location first.value ((arguments[1]?).map (·.item)))
  | avg => ofItem (averageOf location first.value)
  | error => ofItem do
      let e ← raisedError location arguments
      Eval.fail (.error e)
  | reverse => ofValue do return (← first.value).reverse
  | foldLeft1 => ofValue do
      let v ← first.value
      QueryKernel.foldLeft1 calls location v (← callee)
  | sortWith => ofValue do
      let v ← first.value
      QueryKernel.sortWith calls location v (← callee)

namespace Expr

mutual

/-- The ways to evaluate an expression. -/
def modes (calls : Calls) : Expr → Modes
  | literal v => .ofLiteral v
  | list operands type location =>
      let parts := modesAll calls operands
      { Modes.ofStream location type.sequenceType.isAtMostOne
          (pure ⟨none, Stream.pullAll (parts.map (·.stream))⟩) with
        value := listValue parts }
  | range first last type location =>
      .ofValue location type.sequenceType.isAtMostOne
        (rangeValue (modes calls first) (modes calls last) location)
  | arithmetic op a b type location =>
      .ofItem location type.sequenceType.isAtMostOne
        (onAtoms (modes calls a) (modes calls b) location fun x y => (op.apply x y).map .atom)
  | comparison op a b type location =>
      .ofItem location type.sequenceType.isAtMostOne
        (onAtoms (modes calls a) (modes calls b) location
          fun x y => (x.compare? y).map fun order => .boolean (op.holds order))
  | conditional test yes no _ location =>
      let test := modes calls test
      let yes := modes calls yes
      let no := modes calls no
      { location := location
        stream := do if ← test.boolean then yes.stream else no.stream
        item := do if ← test.boolean then yes.item else no.item
        value := do if ← test.boolean then yes.value else no.value
        booleanItem := do if ← test.boolean then yes.booleanItem else no.booleanItem }
  | contextValue type location =>
      .ofValue location type.sequenceType.isAtMostOne
        (QueryKernel.contextValue "context value" location)
  | root location => .ofValue location false (rootValue location)
  | documents source location =>
      .ofValue location false do
        Eval.checkStop
        pure (.collect (source.documents.map .node))
  | filter base predicates type location =>
      .ofValue location type.sequenceType.isAtMostOne
        (filterValue (modes calls base)
          ((predicates.map (·.position?)).zip (modesAll calls predicates)))
  | letIn var bound body location =>
      let bound := modes calls bound
      let atMostOne := body.isAtMostOne
      let body := modes calls body
      let bind : Eval Unit := do bindVariable var location (← bound.value)
      { Modes.ofStreamAndItem location atMostOne (do bind; body.stream) (do bind; body.item) with
        value := do bind; body.value }
  | forIn var source body type location =>
      let source := modes calls source
      let body := modes calls body
      let enter (item : Item) : Eval Stream := do
        Eval.checkStop
        bindVariable var location (.one item)
        body.stream
      .ofStream location type.sequenceType.isAtMostOne do
        let s ← source.stream
        pure ⟨none, fun c => (s.pull c).forEach enter⟩
  | varRef var type location =>
      .ofValue location type.sequenceType.isAtMostOne (variableValue var location)
  | call f arguments type location =>
      f.modes calls location type.sequenceType.isAtMostOne ((arguments.head?).bind (·.size?))
        (modesAll calls arguments)
  | deferred error _ location =>
      .ofValueAndItem location true (Eval.fail (.error error)) (Eval.fail (.error error))
  | dynamicCall callee arguments type location =>
      let callee := modes calls callee
      let arguments := modesAll calls arguments
      let value : Eval Value := do
        let item ← callee.toCallee
        let values ← Eval.foldList (fun (values : List Value) (m : Modes) => do
          return (← m.value) :: values) [] arguments
        (invoke calls item values.reverse).locate location
      .ofValueAndItem location type.sequenceType.isAtMostOne value
        (do singleOfValue location (← value))
  | delete target location =>
      .ofValue location true (deleteAll (modes calls target) location)

/-- The ways to evaluate some expressions. -/
def modesAll (calls : Calls) : List Expr → List Modes
  | [] => []
  | e :: rest => modes calls e :: modesAll calls rest

end

end Expr

/-- The values of function items whose bodies call each other to a given depth.  The parameters stay
bound afterwards. -/
def callsWithin : Nat → Calls
  | 0, _, _ => Eval.fail .callsTooDeep
  | depth + 1, f, arguments => do
      Eval.change fun c =>
        (f.parameters.zip arguments).foldl (fun c (var, value) => c.bind var value) c
      (f.body.modes (callsWithin depth)).value

/-- How deeply calls may be nested. -/
def callDepth : Nat := 1000000

/-- The ways to evaluate an expression with nested calls. -/
def Expr.run (e : Expr) : Modes := e.modes (callsWithin callDepth)

end QueryKernel
