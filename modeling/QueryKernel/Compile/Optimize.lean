import QueryKernel.Compile.Copy
import QueryKernel.Compile.Placeholder
import QueryKernel.Compile.Replacement

/-!
# Optimizing expressions

Expressions are simplified from below: constant parts are computed, bound literals inserted, short
loops unrolled.  What is unrolled is simplified once more; it has fewer loops within loops than the loop
had, so that this ends.

## Functions

* `Compile.reduceList`, `reduceFilter`, … say what becomes of a node with simplified parts.
* `Expr.optimizeWith` simplifies an expression, given a way to simplify what is unrolled.
* `Expr.optimizeBy` simplifies an expression; what function items give is left to the caller.
* `Expr.optimize` simplifies an expression.
-/

namespace QueryKernel

namespace Compile

/-- A sequence constructor with simplified operands. -/
def reduceList (calls : Calls) (before : ExprSummary) (operands : List Expr) (location : Option Location) :
    Compile Expr := do
  let operands := operands.filter (!·.isEmptyLiteral)
  requireUniformUpdates "list" operands
  match operands with
  | [] => replace before .emptySequence
  | [operand] => replace before operand
  | _ =>
      let e := Expr.listOf operands location
      let most := (← options).largestPrecomputed
      if operands.all (·.isLiteral) && e.size?.any (· ≤ most) then precompute calls e else pure e

/-- A range with simplified bounds.  Ranges take no space, so their size does not count. -/
def reduceRange (calls : Calls) (first last : Expr) (type : StaticType) (location : Option Location) :
    Compile Expr := do
  requireNoUpdates "range" first
  requireNoUpdates "range" last
  let e := Expr.range first last type location
  if first.isLiteral && last.isLiteral then precompute calls e else pure e

/-- An operation `e` on two simplified atoms. -/
def reduceOperation (calls : Calls) (e a b : Expr) : Compile Expr := do
  requireNoUpdates e.description a
  requireNoUpdates e.description b
  if a.isEmptyLiteral || b.isEmptyLiteral then replaceWith e .emptySequence
  else if a.isLiteral && b.isLiteral then precompute calls e
  else pure e

/-- A conditional with simplified parts.  A condition without boolean value is left for evaluation. -/
def reduceConditional (test yes no : Expr) (location : Option Location) : Compile Expr := do
  requireUniformUpdates "conditional" [yes, no]
  let e := Expr.conditionalOf test yes no location
  match test.literal? with
  | none => pure e
  | some v =>
      match ← attempt (Modes.ofLiteral v).boolean with
      | .ok b => replaceWith e (if b then yes else no)
      | .error _ => pure e

/-- The context value, with the type of the focus in which it is compiled.  In a predicate it is one
item at a time. -/
def reduceContextValue (type : StaticType) (location : Option Location) : Compile Expr := do
  match (← state).topFocus? with
  | some ⟨some v, _, size⟩ =>
      let type := if 1 < size then .ofSequenceType (.one v.type) else .sized v.type v.size
      pure (.contextValue type location)
  | _ => pure (.contextValue type location)

/-- What is known of a predicate before evaluation. -/
inductive Verdict where
  | holds | fails | open
  deriving DecidableEq

/-- What is known of a predicate.  Numbers are positions and stay open. -/
def verdict : Expr → Verdict
  | .literal .empty => .fails
  | .literal (.one (.atom a)) =>
      if a.isNumeric then .open
      else match a.boolean? with
        | .ok true => .holds
        | .ok false => .fails
        | .error _ => .open
  | .literal (.one (.node _)) => .holds
  | _ => .open

/-- A filter with simplified parts. -/
def reduceFilter (calls : Calls) (before : ExprSummary) (base : Expr) (predicates : List Expr)
    (location : Option Location) : Compile Expr := do
  requireNoneUpdates "filter" predicates
  let kept := predicates.filter (verdict · = .open)
  if predicates.any (verdict · = .fails) || base.isEmptyLiteral then replace before .emptySequence
  else if kept.isEmpty then replace before base
  else
    let e := Expr.filterOf base kept location
    let most := (← options).largestPrecomputed
    if base.literal?.any (·.size ≤ most) && kept.all (·.isLiteral) then precompute calls e else pure e

/-- The scope of the body of a binding: the variable with the bound literal, if that has the declared
type, or else with the type of the bound expression. -/
def scopeOfLet (var : Variable) (bound : Expr) : Scope :=
  let scope := Scope.add [] var
  match bound.literal?.filter (fun v => (checkDeclared var v).isOk) with
  | some v => scope.setValue var v
  | none => scope.setType var
      ((var.declared.bind (·.intersect? bound.sequenceType)).getD bound.sequenceType)

/-- A binding with simplified parts. -/
def reduceLet (before : ExprSummary) (var : Variable) (bound body : Expr)
    (location : Option Location) : Compile Expr :=
  if bound.isLiteral && body.isLiteral then replace before body
  else pure (.letIn var bound body location)

/-- The scope of the body of a loop: the variable is one item of the source. -/
def scopeOfFor (var : Variable) (source : Expr) : Scope :=
  let item := SequenceType.one source.sequenceType.type
  (Scope.add [] var).setType var ((var.declared.bind (·.intersect? item)).getD item)

/-- One binding for each item, with a copy of the body. -/
def unrolledLoop (var : Variable) (body : Expr) (location : Option Location) :
    List Item → Compile (List Expr)
  | [] => pure []
  | item :: rest => do
      let (copied, renames) ← copyVariable var []
      let (body', _) ← copy body renames
      return .letIn copied (.literal (.one item)) body' location ::
        (← unrolledLoop var body location rest)

/-- A loop with simplified parts.  A loop over few literal items is unrolled. -/
def reduceFor (again : Expr → Compile Expr) (before : ExprSummary) (var : Variable)
    (source body : Expr) (location : Option Location) : Compile Expr := do
  let e := Expr.forOf var source body location
  let limit := (← options).unrollLimit
  match source.literal?.filter (·.size ≤ limit) with
  | none => pure e
  | some v =>
      let bindings ← unrolledLoop var body location v.items
      replace before (← again (.listOf bindings none))

/-- A reference to a variable. -/
def reduceReference (var : Variable) (type : StaticType) (location : Option Location) :
    Compile Expr := do
  let c ← state
  match c.variableValue? var.id with
  | some v => replaceWith (.varRef var type location) (.literal v)
  | none =>
      match c.variableType? var.id with
      | some known => pure (.varRef var (.ofSequenceType known) location)
      | none => pure (.varRef var type location)

/-- The first item.  It is all of a sequence of at most one item, and the first operand of a
sequence constructor if that is one item. -/
def reduceHead (e argument : Expr) : Compile Expr :=
  if argument.isAtMostOne then replaceWith e argument
  else match argument.operands? with
    | some (first :: _) =>
        if first.sequenceType.isOne then do
          let (first, _) ← copy first []
          replaceWith e first
        else pure e
    | _ => pure e

/-- The number of items.  It is a constant if the size is known and no operand is an error. -/
def reduceCount (e argument : Expr) : Compile Expr :=
  let safe := match argument.operands? with
    | some operands => operands.all (!·.isVacuous)
    | none => !argument.isVacuous
  match argument.size? with
  | some n =>
      match countItem n, safe with
      | .ok item, true => replaceWith e (.literal (.one item))
      | _, _ => pure e
  | none => pure e

/-- Calls nested over the items of a fold, each with a copy of the function. -/
def unrolledFold (callee : Expr) : Expr → List Item → Compile Expr
  | result, [] => pure result
  | result, item :: rest => do
      let (callee', _) ← copy callee []
      unrolledFold callee
        (.dynamicCallOf callee' [result, .literal (.one item)] none) rest

/-- A fold.  A fold over few literal items is unrolled. -/
def reduceFold (again : Expr → Compile Expr) (e items callee : Expr) : Compile Expr := do
  let limit := (← options).unrollLimit
  match items.literal?.filter (·.size ≤ limit) with
  | none => pure e
  | some v =>
      match v.items with
      | [] => pure e
      | first :: rest =>
          replaceWith e (← again (← unrolledFold callee (.literal (.one first)) rest))

/-- The number of items in literals, if all of some expressions are literals. -/
def literalItems? (arguments : List Expr) : Option Nat :=
  (arguments.mapM Expr.literal?).map fun values => values.foldr (·.size + ·) 0

/-- A call of a built-in function with simplified arguments.  Errors are not raised yet. -/
def reduceCall (calls : Calls) (again : Expr → Compile Expr) (f : BuiltIn) (arguments : List Expr)
    (location : Option Location) : Compile Expr := do
  let e := Expr.call f arguments (f.resultType arguments) location
  requireNoneUpdates e.description arguments
  let most := (← options).largestPrecomputed
  let literalItems := if f = .error then none else literalItems? arguments
  if literalItems.any (maxSize < ·) then broken .sizeOverflow
  else if literalItems.any (· ≤ most) then precompute calls e
  else match f, arguments with
    | .head, [argument] => reduceHead e argument
    | .count, [argument] => reduceCount e argument
    | .foldLeft1, [items, callee] => reduceFold again e items callee
    | _, _ => pure e

end Compile

namespace Expr

open Compile

mutual

/-- Simplifies an expression.  What is unrolled is simplified by `again`. -/
def optimizeWith (calls : Calls) (again : Expr → Compile Expr) : Expr → Compile Expr
  | literal v => pure (literal v)
  | list operands type location => do
      let before := (list operands type location).summary
      reduceList calls before (← optimizeAllWith calls again operands) location
  | range first last type location => do
      let first ← optimizeWith calls again first
      let last ← optimizeWith calls again last
      reduceRange calls first last type location
  | arithmetic op a b _ location => do
      let a ← optimizeWith calls again a
      let b ← optimizeWith calls again b
      reduceOperation calls (arithmeticOf op a b location) a b
  | comparison op a b _ location => do
      let a ← optimizeWith calls again a
      let b ← optimizeWith calls again b
      reduceOperation calls (comparisonOf op a b location) a b
  | conditional test yes no _ location => do
      let test ← optimizeWith calls again test
      requireNoUpdates "conditional" test
      let yes ← optimizeWith calls again yes
      let no ← optimizeWith calls again no
      reduceConditional test yes no location
  | contextValue type location => reduceContextValue type location
  | root location => pure (root location)
  | documents source location => pure (documents source location)
  | filter base predicates type location => do
      let before := (filter base predicates type location).summary
      let base ← optimizeWith calls again base
      requireNoUpdates "filter" base
      let focus ← contextItem? (some base)
      let predicates ← withFocus (focus.map .one) (optimizeAllWith calls again predicates)
      reduceFilter calls before base predicates location
  | letIn var bound body location => do
      let before := (letIn var bound body location).summary
      let bound ← optimizeWith calls again bound
      requireNoUpdates "let clause" bound
      let body ← inScope (scopeOfLet var bound) (optimizeWith calls again body)
      reduceLet before var bound body location
  | forIn var source body type location => do
      let before := (forIn var source body type location).summary
      let source ← optimizeWith calls again source
      requireNoUpdates "for clause" source
      if source.isEmptyLiteral then replace before .emptySequence
      else
        let body ← inScope (scopeOfFor var source) (optimizeWith calls again body)
        reduceFor again before var source body location
  | varRef var type location => reduceReference var type location
  | call f arguments _ location => do
      reduceCall calls again f (← optimizeAllWith calls again arguments) location
  | deferred error type location => pure (deferred error type location)
  | dynamicCall callee arguments type location => do
      let callee ← optimizeWith calls again callee
      let arguments ← optimizeAllWith calls again arguments
      let e := dynamicCall callee arguments type location
      requireNoUpdates e.description callee
      requireNoneUpdates e.description arguments
      pure e
  | delete target location => do
      let target ← optimizeWith calls again target
      requireNoUpdates "delete" target
      pure (delete target location)

/-- Simplifies some expressions, in order. -/
def optimizeAllWith (calls : Calls) (again : Expr → Compile Expr) : List Expr → Compile (List Expr)
  | [] => pure []
  | e :: rest => do
      let e ← optimizeWith calls again e
      return e :: (← optimizeAllWith calls again rest)

end

mutual

/-- The largest number of loops and folds around each other. -/
def loopDepth : Expr → Nat
  | literal _ | contextValue .. | root _ | documents .. | varRef .. | deferred .. => 0
  | list operands _ _ => loopDepthAll operands
  | range a b _ _ | arithmetic _ a b _ _ | comparison _ a b _ _ | letIn _ a b _ =>
      max a.loopDepth b.loopDepth
  | conditional test yes no _ _ => max test.loopDepth (max yes.loopDepth no.loopDepth)
  | filter base predicates _ _ => max base.loopDepth (loopDepthAll predicates)
  | forIn _ source body _ _ => max source.loopDepth body.loopDepth + 1
  | call f arguments _ _ => loopDepthAll arguments + (if f = .foldLeft1 then 1 else 0)
  | dynamicCall callee arguments _ _ => max callee.loopDepth (loopDepthAll arguments)
  | delete target _ => target.loopDepth

/-- The largest depth of loops in some expressions. -/
def loopDepthAll : List Expr → Nat
  | [] => 0
  | e :: rest => max e.loopDepth (loopDepthAll rest)

end

/-- Simplifies an expression in which at most the given number of loops are around each other. -/
def optimizeWithin (calls : Calls) : Nat → Expr → Compile Expr
  | 0 => optimizeWith calls pure
  | depth + 1 => optimizeWith calls (optimizeWithin calls depth)

/-- Simplifies an expression, where function items give what `calls` says. -/
def optimizeBy (calls : Calls) (e : Expr) : Compile Expr := optimizeWithin calls e.loopDepth e

/-- Simplifies an expression. -/
def optimize (e : Expr) : Compile Expr := e.optimizeBy (callsWithin callDepth)

end Expr

end QueryKernel
