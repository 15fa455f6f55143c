import QueryKernel.Proofs.Compile.Everywhere
import QueryKernel.Proofs.Compile.Succeed
import QueryKernel.Proofs.Value.Matches
import QueryKernel.Query

/-!
# Declared types after compilation

A binding of a literal that is not of the declared type fails wherever it is evaluated, and so does a loop
over a literal with such an item, as a loop as well as unrolled.  What does not fail has lost the binding:
where the body becomes a literal, compilation puts it in place of the binding, unchecked.

What a loop does before it comes to an item counts as well: the steps of a loop are those of the loop over the
items before, followed by those of the loop over the others.

## Definitions

* `Variable.Admits` says that a value is of the declared type of a variable.
* `Stream.overItems` has the steps of a loop over a list of items.
* `Expr.Before` is the part of a query that is evaluated before an item is bound.
* `Eval.FailsAfter` says that an evaluation fails with a type error, is stopped, or fails as another one.
-/

namespace QueryKernel

/-- The value is of the declared type of the variable. -/
def Variable.Admits (var : Variable) (v : Value) : Prop :=
  ∀ declared, var.declared = some declared → declared.occurrence.allows v.size = true ∧
    ∀ item ∈ v.items, item.type.isSubtype declared.type = true

/-- An error about a wrong type. -/
def Failure.IsTypeError (failure : Failure) : Prop :=
  ∃ e, failure = .error e ∧ e.code = ErrorCode.XPTY0004.expandedName

namespace Step

end Step

namespace Stream

variable {enter : Item → Eval Stream}

end Stream

/-! ## Evaluations that fail -/

/-- There is a reason to stop, and the failure says so. -/
def Context.StopsWith (c : Context) (failure : Failure) : Prop :=
  ∃ cause, c.stopCause? = some cause ∧ failure = .error ⟨cause, none⟩

namespace Eval

variable {α β : Type}

/-- The second evaluation fails: with a type error, because it is stopped, or as the first one. -/
def FailsAfter (earlier : Eval α) (x : Eval β) : Prop :=
  ∀ c, ∃ failure c', x c = (.error failure, c') ∧
    (failure.IsTypeError ∨ c'.StopsWith failure ∨ (earlier c).1 = .error failure)

theorem FailsAfter.after {earlier : Eval α} {x : Eval β} (fails : earlier.FailsAfter x)
    (f : Context → Context) :
    FailsAfter (Eval.change f >>= fun _ => earlier) (Eval.change f >>= fun _ => x) :=
  fun c => fails (f c)

theorem FailsAfter.bind {γ δ : Type} {earlier : Eval α} {x : Eval β} (fails : earlier.FailsAfter x)
    (f : α → Eval γ) (g : β → Eval δ) : (earlier >>= f).FailsAfter (x >>= g) := by
  intro c
  obtain ⟨failure, c', failed, why⟩ := fails c
  refine ⟨failure, c', by rw [bind_apply, failed], why.imp_right (.imp_right fun same => ?_)⟩
  rw [bind_apply]
  cases ran : earlier c with
  | mk result c₁ =>
      rw [ran] at same
      cases result with
      | error e =>
          cases same
          rfl
      | ok a => cases same

end Eval

section Stuck

variable {pull more : Context → Step} {location : Option Location}

end Stuck

/-! ## Queries that fail -/

section Misfits

variable {var : Variable} {location : Option Location}

end Misfits

/-- Adds the value of an operand of a sequence constructor. -/
def addOperand (b : ValueBuilder Expr) (m : Modes) : Eval (ValueBuilder Expr) := do
  Eval.checkStop
  let v ← m.value
  Eval.ofFaulty (b.addValueBounded v)

namespace Expr

/-- What is evaluated of a query before an item is bound to a variable. -/
inductive Before (var : Variable) (item : Item) (location : Option Location) : Expr → Expr → Prop where
  | loop {v : Value} {front rest : List Item} {body : Expr} {type : StaticType} (valid : v.Valid)
      (items : v.items = front ++ item :: rest) :
      Before var item location (forIn var (literal (.ofItems front)) body type location)
        (forIn var (literal v) body type location)
  | operands {front rest : List Expr} {body : Expr} {type : StaticType} {place : Option Location} :
      Before var item location (list front type place)
        (list (front ++ letIn var (literal (.one item)) body location :: rest) type place)
  | all {body : Expr} :
      Before var item location emptySequence (letIn var (literal (.one item)) body location)

variable {var : Variable} {location : Option Location} {calls : Calls}

open Compile

/-- A narrower type changes nothing about what comes before a binding. -/
theorem Before.narrow {item : Item} {earlier q : Expr} (before : Before var item location earlier q)
    (known : SequenceType) : ∃ earlier, Before var item location earlier (q.narrow known) := by
  cases before with
  | loop valid items =>
      unfold Expr.narrow
      dsimp only
      split
      · exact ⟨_, .loop valid items⟩
      · exact ⟨_, .loop valid items⟩
  | operands =>
      unfold Expr.narrow
      dsimp only
      split
      · exact ⟨_, .operands⟩
      · exact ⟨_, .operands⟩
  | all =>
      unfold Expr.narrow
      dsimp only
      split
      · exact ⟨_, .all⟩
      · exact ⟨_, .all⟩

variable {again : Expr → Compile Expr} {k k' : CompileContext} {v : Value} {body q : Expr}

end Expr

end QueryKernel
