import QueryKernel.Context
import QueryKernel.Value.Walk

/-!
# Evaluation steps

Computations that read and change a context and may fail.  The context stays changed when they fail.

## Functions

* `Failure` tells errors of the query, broken preconditions and calls nested too deeply apart.
* `Eval` is a computation; `Eval.locate` attaches a place to its errors.
-/

namespace QueryKernel

/-- Why a computation gave no result. -/
inductive Failure where
  | error (e : Error)
  | fault (f : Fault)
  /-- Calls of function items are nested more deeply than allowed for. -/
  | callsTooDeep

/-- A computation over a context. -/
def Eval (α : Type) := Context → Except Failure α × Context

namespace Eval

/-- A result without any effect. -/
@[inline] def ofPure {α : Type} (a : α) : Eval α := fun c => (.ok a, c)

/-- One computation after another; a failure ends both. -/
@[inline] def andThen {α β : Type} (x : Eval α) (f : α → Eval β) : Eval β := fun c =>
  match x c with
  | (.ok a, c) => f a c
  | (.error e, c) => (.error e, c)

instance : Monad Eval where
  pure := ofPure
  bind := andThen

/-- A failure. -/
def fail {α : Type} (e : Failure) : Eval α := fun c => (.error e, c)

/-- An error with a place. -/
def raise {α : Type} (cause : Cause Expr) (location : Option Location) : Eval α :=
  fail (.error ⟨cause, location⟩)

/-- The result of a pure computation, with a place for its error. -/
def ofExcept {α : Type} (location : Option Location) : Except (Cause Expr) α → Eval α
  | .ok a => pure a
  | .error cause => raise cause location

/-- The result of an operation with a precondition. -/
def ofFaulty {α : Type} : Except Fault α → Eval α
  | .ok a => pure a
  | .error fault => fail (.fault fault)

/-- The context. -/
def context : Eval Context := fun c => (.ok c, c)

/-- Changes the context. -/
def change (f : Context → Context) : Eval Unit := fun c => (.ok (), f c)

/-- Fails if there is a reason to stop. -/
def checkStop : Eval Unit := fun c =>
  match c.stopCause? with
  | none => (.ok (), c)
  | some cause => (.error (.error ⟨cause, none⟩), c)

/-- Attaches a place to the errors of a computation. -/
def locate {α : Type} (location : Option Location) (x : Eval α) : Eval α := fun c =>
  match x c with
  | (.error (.error e), c) => (.error (.error (e.locate location)), c)
  | other => other

/-- Folds a list, ending at the first failure. -/
def foldList {α β : Type} (f : β → α → Eval β) : β → List α → Eval β
  | b, [], c => (.ok b, c)
  | b, a :: rest, c =>
      match f b a c with
      | (.ok b, c) => foldList f b rest c
      | (.error e, c) => (.error e, c)

/-- Folds the items of a walk, at most the given number, ending at the first failure. -/
def foldWalk {β : Type} (f : β → Item → Eval β) : Nat → β → Walk Expr → Eval β
  | 0, b, _, c => (.ok b, c)
  | n + 1, b, w, c =>
      match w.next with
      | (none, _) => (.ok b, c)
      | (some item, w) =>
          match f b item c with
          | (.ok b, c) => foldWalk f n b w c
          | (.error e, c) => (.error e, c)

/-- Folds the items of a value. -/
def foldValue {β : Type} (f : β → Item → Eval β) (b : β) (v : Value) : Eval β :=
  foldWalk f v.size b v.walk

end Eval

end QueryKernel
