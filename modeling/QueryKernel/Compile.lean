import QueryKernel.Compile.Scope
import QueryKernel.Eval

/-!
# Compilation steps

Computations that compile a query: they change the context of the query together with the scopes of
variables and the focuses that have been set aside.  The state stays changed when they fail.

## Functions

* `CompileContext` is the state; `pushScope`, `removeScope?`, `pushFocus`, `popFocus?` are its stacks.
* `CompileContext.variableType?` and `variableValue?` tell what is known of a variable.
* `Compile` is a computation; `Compile.inScope` and `Compile.withFocus` restore the stacks.
-/

namespace QueryKernel

/-- The state of a compilation. -/
structure CompileContext where
  context : Context
  /-- The scope of the construct being compiled. -/
  innermost : Scope
  /-- The scopes around it, inner ones first. -/
  outer : List Scope
  /-- The focuses set aside, latest first. -/
  focuses : List Focus

namespace CompileContext

/-- The state at the start of a compilation. -/
def start (context : Context) : CompileContext := ⟨context, [], [], []⟩

/-- All scopes, inner ones first. -/
def scopes (c : CompileContext) : List Scope := c.innermost :: c.outer

/-- Opens a scope. -/
def pushScope (c : CompileContext) : CompileContext :=
  { c with innermost := [], outer := c.scopes }

/-- Closes the innermost scope and gives it back.  The first scope is never closed. -/
def removeScope? (c : CompileContext) : Except Fault (Scope × CompileContext) :=
  match c.outer with
  | [] => .error .scopeUnderflow
  | next :: rest => .ok (c.innermost, { c with innermost := next, outer := rest })

/-- Declares a variable in the innermost scope. -/
def declare (c : CompileContext) (var : Variable) : CompileContext :=
  { c with innermost := c.innermost.add var }

/-- The type recorded in the innermost scope that declares a variable. -/
def variableType? (c : CompileContext) (id : Nat) : Option SequenceType :=
  (c.scopes.findSome? (·.get? id)).bind (·.sequenceType)

/-- The value recorded for a variable in the innermost scope that has one. -/
def variableValue? (c : CompileContext) (id : Nat) : Option Value :=
  c.scopes.findSome? (·.value? id)

/-- Sets the focus to a value and the present focus aside. -/
def pushFocus (c : CompileContext) (value : Option Value) : CompileContext :=
  { c with
    context := { c.context with focus := .ofValue value }
    focuses := c.context.focus :: c.focuses }

/-- Restores the focus that was set aside last. -/
def popFocus? (c : CompileContext) : Except Fault CompileContext :=
  match c.focuses with
  | [] => .error .focusUnderflow
  | last :: rest => .ok { c with context := { c.context with focus := last }, focuses := rest }

/-- The present focus, if compilation has set one. -/
def topFocus? (c : CompileContext) : Option Focus :=
  if c.focuses.isEmpty then none else some c.context.focus

end CompileContext

/-- A computation over the state of a compilation. -/
def Compile (α : Type) := CompileContext → Except Failure α × CompileContext

namespace Compile

/-- A result without any effect. -/
@[inline] def ofPure {α : Type} (a : α) : Compile α := fun c => (.ok a, c)

/-- One computation after another; a failure ends both. -/
@[inline] def andThen {α β : Type} (x : Compile α) (f : α → Compile β) : Compile β := fun c =>
  match x c with
  | (.ok a, c) => f a c
  | (.error e, c) => (.error e, c)

instance : Monad Compile where
  pure := ofPure
  bind := andThen

/-- An error with a place. -/
def raise {α : Type} (cause : Cause Expr) (location : Option Location) : Compile α := fun c =>
  (.error (.error ⟨cause, location⟩), c)

/-- Something that must not happen. -/
def broken {α : Type} (fault : Fault) : Compile α := fun c => (.error (.fault fault), c)

/-- The state. -/
def state : Compile CompileContext := fun c => (.ok c, c)

/-- Changes the state. -/
def change (f : CompileContext → CompileContext) : Compile Unit := fun c => (.ok (), f c)

/-- The limits of compilation. -/
def options : Compile Options := fun c => (.ok c.context.options, c)

/-- Evaluates something.  An error of the query is a result. -/
def attempt {α : Type} (x : Eval α) : Compile (Except Error α) := fun c =>
  match x c.context with
  | (.ok a, context) => (.ok (.ok a), { c with context })
  | (.error (.error e), context) => (.ok (.error e), { c with context })
  | (.error failure, context) => (.error failure, { c with context })

/-- Compiles something in a scope of its own.  The scopes around it are restored. -/
def inScope {α : Type} (scope : Scope) (x : Compile α) : Compile α := fun c =>
  let (result, after) := x { c.pushScope with innermost := scope }
  (result, { after with innermost := c.innermost, outer := c.outer })

/-- Compiles something with a value as focus.  The focus is restored. -/
def withFocus {α : Type} (value : Option Value) (x : Compile α) : Compile α := fun c =>
  let (result, after) := x (c.pushFocus value)
  (result, { after with
    context := { after.context with focus := c.context.focus }
    focuses := c.focuses })

end Compile

end QueryKernel
