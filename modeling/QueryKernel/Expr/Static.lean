import QueryKernel.Expr

/-!
# Static properties of expressions

Types and sizes known before evaluation, and which expressions update.  The constructors at the end
build expressions with the type that follows from their operands.

## Functions

* `Expr.staticType` is the type of an expression, `Expr.assignType` narrows it where that is possible.
* `Expr.hasUpdates` and `Expr.isVacuous` keep updating and other expressions apart.
* `concatType`, `branchType`, `filterType`, `loopType`, `BuiltIn.resultType` combine the types of
  operands.
-/

namespace QueryKernel

namespace Expr

/-- The static type of an expression. -/
def staticType : Expr → StaticType
  | literal v => .sized v.type v.size
  | letIn _ _ body _ => body.staticType
  | root _ => .ofSequenceType (.many .anyNode)
  | documents .. => .ofSequenceType (.many (.node .document))
  | delete .. => .ofSequenceType .empty
  | list _ t _ | range _ _ t _ | arithmetic _ _ _ t _ | comparison _ _ _ t _ | conditional _ _ _ t _
  | contextValue t _ | filter _ _ t _ | forIn _ _ _ t _ | varRef _ t _ | call _ _ t _
  | deferred _ t _ | dynamicCall _ _ t _ => t

/-- The sequence type of an expression. -/
def sequenceType (e : Expr) : SequenceType := e.staticType.sequenceType

/-- The exact number of items, if it is known. -/
def size? (e : Expr) : Option Nat := e.staticType.size?

/-- Whether there is at most one item. -/
def isAtMostOne (e : Expr) : Bool := e.sequenceType.isAtMostOne

/-- The expression with a narrower static type, for the expressions whose type can be narrowed. -/
def assignType (narrower : SequenceType) : Expr → Expr
  | list operands t l => list operands (t.assign narrower) l
  | range a b t l => range a b (t.assign narrower) l
  | arithmetic op a b t l => arithmetic op a b (t.assign narrower) l
  | comparison op a b t l => comparison op a b (t.assign narrower) l
  | conditional test yes no t l => conditional test yes no (t.assign narrower) l
  | contextValue t l => contextValue (t.assign narrower) l
  | filter base predicates t l => filter base predicates (t.assign narrower) l
  | forIn var source body t l => forIn var source body (t.assign narrower) l
  | varRef var t l => varRef var (t.assign narrower) l
  | call f arguments t l => call f arguments (t.assign narrower) l
  | deferred error t l => deferred error (t.assign narrower) l
  | dynamicCall callee arguments t l => dynamicCall callee arguments (t.assign narrower) l
  | fixed => fixed

mutual

/-- Whether evaluation may record updates. -/
def hasUpdates : Expr → Bool
  | list operands _ _ => anyUpdates operands
  | conditional _ yes no _ _ => yes.hasUpdates || no.hasUpdates
  | letIn _ bound body _ => bound.hasUpdates || body.hasUpdates
  | forIn _ source body _ _ => source.hasUpdates || body.hasUpdates
  | delete .. => true
  | _ => false

/-- Whether one of some expressions may record updates. -/
def anyUpdates : List Expr → Bool
  | [] => false
  | e :: rest => e.hasUpdates || anyUpdates rest

end

/-- Whether an expression yields nothing and has no effect; errors count as such. -/
def isVacuous : Expr → Bool
  | call f .. => f == .error
  | deferred .. => true
  | e => decide (e.size? = some 0) && !e.hasUpdates

/-- A number known to fit 64 bits. -/
def knownSize (n : Nat) : Option Nat := if n ≤ maxSize then some n else none

/-- The type of operands evaluated one after another. -/
def concatType (operands : List Expr) : StaticType :=
  let type := operands.foldl
    (fun s e => (s.union e.sequenceType).withOccurrence (s.occurrence.add e.sequenceType.occurrence))
    SequenceType.empty
  let size := operands.foldl (fun n e => do knownSize ((← n) + (← e.size?))) (some 0)
  match size with
  | some n => .sized type.type n
  | none => .ofSequenceType type

/-- The type of an arithmetic expression.  Untyped operands may become any number. -/
def arithmeticType (op : Operator) (a b : Expr) : StaticType :=
  let atomic (t : ItemType) : ItemType := if t.isAtomic then t else .anyAtomic
  let type :=
    if a.sequenceType.type.isUntyped || b.sequenceType.type.isUntyped then .anyAtomic
    else op.resultType (atomic a.sequenceType.type) (atomic b.sequenceType.type)
  .ofSequenceType <|
    if a.sequenceType.isOne && b.sequenceType.isOne then .one type else .optional type

/-- The type of a comparison. -/
def comparisonType (a b : Expr) : StaticType :=
  .ofSequenceType <|
    if a.sequenceType.isOne && b.sequenceType.isOne then .one .boolean else .optional .boolean

/-- The type of a choice between two branches. -/
def branchType (yes no : Expr) : StaticType :=
  let type := yes.sequenceType.union no.sequenceType
  match yes.size?, no.size? with
  | some m, some n => if m = n then .sized type.type m else .ofSequenceType type
  | _, _ => .ofSequenceType type

/-- The position selected by a literal number. -/
def position? : Expr → Option BinaryFloat
  | literal (.one (.atom a)) => if a.isNumeric then a.toFloat? else none
  | _ => none

/-- The type of a filter. -/
def filterType (base : Expr) (predicates : List Expr) : StaticType :=
  let type := base.sequenceType
  let occurrence : Occurrence :=
    if type.isEmpty then .zero
    else if type.isAtMostOne || predicates.any (·.position?.isSome) then .zeroOrOne
    else .zeroOrMore
  .ofSequenceType (type.withOccurrence occurrence)

/-- The type of a loop. -/
def loopType (source body : Expr) : StaticType :=
  let occurrence := source.sequenceType.occurrence.mul body.sequenceType.occurrence
  if occurrence = .zero then .ofSequenceType .empty
  else
    let size := do knownSize ((← source.size?) * (← body.size?))
    match size with
    | some n => .sized body.sequenceType.type n
    | none => .ofSequenceType ⟨body.sequenceType.type, occurrence⟩

end Expr

/-- The type of a call of a built-in function. -/
def BuiltIn.resultType (f : BuiltIn) (arguments : List Expr) : StaticType :=
  let first := ((arguments.head?).map Expr.sequenceType).getD .anything
  let total : ItemType :=
    if first.type.isUntyped then .double
    else if f = avg ∧ first.type.isSubtype .integer then .atomic .decimal
    else if first.type.isAtomic then first.type
    else .anyAtomic
  match f with
  | head => .ofSequenceType <|
      if first.isEmpty then .empty
      else if 0 < first.occurrence.least then .one first.type
      else .optional first.type
  | count => .ofSequenceType (.one .integer)
  | sum => .ofSequenceType (if arguments.length = 1 then .one total else .optional total)
  | avg => .ofSequenceType (.optional total)
  | reverse | sortWith => ((arguments.head?).map Expr.staticType).getD (.ofSequenceType .anything)
  | error | foldLeft1 => .ofSequenceType .anything

namespace Expr

/-- A sequence constructor. -/
def listOf (operands : List Expr) (location : Option Location) : Expr :=
  list operands (concatType operands) location

/-- A range. -/
def rangeOf (first last : Expr) (location : Option Location) : Expr :=
  range first last (.ofSequenceType (.many .integer)) location

/-- An arithmetic expression. -/
def arithmeticOf (op : Operator) (a b : Expr) (location : Option Location) : Expr :=
  arithmetic op a b (arithmeticType op a b) location

/-- A comparison. -/
def comparisonOf (op : Comparison) (a b : Expr) (location : Option Location) : Expr :=
  comparison op a b (comparisonType a b) location

/-- A conditional. -/
def conditionalOf (test yes no : Expr) (location : Option Location) : Expr :=
  conditional test yes no (branchType yes no) location

/-- The context value. -/
def contextValueOf (location : Option Location) : Expr :=
  contextValue (.ofSequenceType .anything) location

/-- A filter. -/
def filterOf (base : Expr) (predicates : List Expr) (location : Option Location) : Expr :=
  filter base predicates (filterType base predicates) location

/-- A loop. -/
def forOf (var : Variable) (source body : Expr) (location : Option Location) : Expr :=
  forIn var source body (loopType source body) location

/-- A reference to a variable. -/
def varRefOf (var : Variable) (location : Option Location) : Expr :=
  varRef var (.ofSequenceType (var.declared.getD .anything)) location

/-- A call of a built-in function, refused if the number of arguments is wrong. -/
def callOf (f : BuiltIn) (arguments : List Expr) (location : Option Location) : Except Error Expr :=
  if f.takes arguments.length then .ok (call f arguments (f.resultType arguments) location)
  else .error (.of (.argumentCount f.localName f.leastArguments f.mostArguments arguments.length))

/-- A call of a function item. -/
def dynamicCallOf (callee : Expr) (arguments : List Expr) (location : Option Location) : Expr :=
  dynamicCall callee arguments (.ofSequenceType .anything) location

end Expr

end QueryKernel
