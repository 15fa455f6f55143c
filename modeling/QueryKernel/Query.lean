import QueryKernel.Compile.Optimize

/-!
# Queries

A query is compiled once and evaluated as a whole, up to its first item, or for its boolean value.

## Functions

* `Expr.compileBy` simplifies an expression in the context of a query; what function items give is left to the
  caller.
* `Expr.evaluateBy`, `evaluateFirstBy`, `evaluateBooleanBy` start the clock and evaluate.
* `Expr.compile`, `evaluate`, `evaluateFirst`, `evaluateBoolean` do so with nested calls.
-/

namespace QueryKernel

namespace Expr

/-- Simplifies an expression.  Of the state of the compilation only the context is kept. -/
def compileBy (calls : Calls) (e : Expr) : Eval Expr := fun c =>
  let (result, after) := e.optimizeBy calls (.start c)
  (result, after.context)

/-- The value of a query. -/
def evaluateBy (calls : Calls) (e : Expr) : Eval Value := do
  Eval.change Context.startClock
  (e.modes calls).value

/-- The first item of the result of a query. -/
def evaluateFirstBy (calls : Calls) (e : Expr) : Eval (Option Item) := do
  Eval.change Context.startClock
  let s ← (e.modes calls).stream
  return (← s.next).map Prod.fst

/-- The boolean value of a query. -/
def evaluateBooleanBy (calls : Calls) (e : Expr) : Eval Bool := do
  Eval.change Context.startClock
  (e.modes calls).boolean

/-- Simplifies an expression whose function items call each other. -/
def compile (e : Expr) : Eval Expr := e.compileBy (callsWithin callDepth)

/-- The value of a query whose function items call each other. -/
def evaluate (e : Expr) : Eval Value := e.evaluateBy (callsWithin callDepth)

/-- The first item of the result of such a query. -/
def evaluateFirst (e : Expr) : Eval (Option Item) := e.evaluateFirstBy (callsWithin callDepth)

/-- The boolean value of such a query. -/
def evaluateBoolean (e : Expr) : Eval Bool := e.evaluateBooleanBy (callsWithin callDepth)

end Expr

end QueryKernel
