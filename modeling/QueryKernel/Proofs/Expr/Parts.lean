import QueryKernel.Expr.Static

/-!
# Parts of expressions

The expressions that an expression is put together from, and conditions on all of them.

## Definitions

* `Expr.parts` are the operands of an expression, `Expr.Inside` the expressions at any depth.
* `Expr.Every` says that a condition holds at every node; the bodies of function items are no nodes.
* `Expr.binders` are the variables bound in an expression, in order, and `Expr.free` those that it refers
  to without binding them.
-/

namespace QueryKernel

namespace Expr

/-- The operands of an expression. -/
def parts : Expr → List Expr
  | literal _ | contextValue .. | root _ | documents .. | varRef .. | deferred .. => []
  | list operands _ _ => operands
  | range a b _ _ | arithmetic _ a b _ _ | comparison _ a b _ _ | letIn _ a b _ | forIn _ a b _ _ => [a, b]
  | conditional test yes no _ _ => [test, yes, no]
  | filter base predicates _ _ => base :: predicates
  | call _ arguments _ _ => arguments
  | dynamicCall callee arguments _ _ => callee :: arguments
  | delete target _ => [target]

theorem forall_pair {p : Expr → Prop} {a b : Expr} (left : p a) (right : p b) : ∀ s ∈ [a, b], p s :=
  List.forall_mem_cons.2 ⟨left, List.forall_mem_singleton.2 right⟩

theorem sizeOf_lt_of_part {e s : Expr} (part : s ∈ e.parts) : sizeOf s < sizeOf e := by
  cases e <;> simp only [parts, List.mem_cons, List.not_mem_nil, or_false] at part
  case list operands type location =>
    have smaller := List.sizeOf_lt_of_mem part
    simp only [list.sizeOf_spec]
    omega
  case call f arguments type location =>
    have smaller := List.sizeOf_lt_of_mem part
    simp only [call.sizeOf_spec]
    omega
  case filter base predicates type location =>
    rcases part with rfl | member
    · simp only [filter.sizeOf_spec]
      omega
    · have smaller := List.sizeOf_lt_of_mem member
      simp only [filter.sizeOf_spec]
      omega
  case dynamicCall callee arguments type location =>
    rcases part with rfl | member
    · simp only [dynamicCall.sizeOf_spec]
      omega
    · have smaller := List.sizeOf_lt_of_mem member
      simp only [dynamicCall.sizeOf_spec]
      omega
  case conditional test yes no type location =>
    rcases part with rfl | rfl | rfl <;> simp only [conditional.sizeOf_spec] <;> omega
  case delete target location =>
    subst part
    simp only [delete.sizeOf_spec]
    omega
  case range | arithmetic | comparison | letIn | forIn =>
    rcases part with rfl | rfl <;> simp +arith

/-- What holds of an expression if it holds of its operands holds of all expressions. -/
theorem byParts {P : Expr → Prop} (step : ∀ e, (∀ s ∈ e.parts, P s) → P e) (e : Expr) : P e :=
  step e fun s _ => byParts step s
termination_by sizeOf e
decreasing_by exact sizeOf_lt_of_part ‹_›

/-- A condition on an expression and all expressions in it. -/
inductive Every (p : Expr → Prop) : Expr → Prop where
  | node {e : Expr} (here : p e) (parts : ∀ s ∈ e.parts, Every p s) : Every p e

/-- An expression itself, its operands, their operands and so on. -/
inductive Inside (e : Expr) : Expr → Prop where
  | whole : Inside e e
  | part {s t : Expr} (inside : Inside e s) (member : t ∈ s.parts) : Inside e t

variable {p q : Expr → Prop} {e s : Expr}

theorem Every.here (every : e.Every p) : p e := by
  cases every with
  | node here _ => exact here

theorem Every.part (every : e.Every p) (member : s ∈ e.parts) : s.Every p := by
  cases every with
  | node _ parts => exact parts s member

theorem Every.inside (every : e.Every p) (inside : e.Inside s) : s.Every p := by
  induction inside with
  | whole => exact every
  | part _ member inside_ih => exact inside_ih.part member

theorem Every.mono (every : e.Every p) (implies : ∀ s, e.Inside s → p s → q s) : e.Every q := by
  induction every with
  | @node e here parts parts_ih =>
      refine .node (implies e .whole here) fun s member => parts_ih s member fun t inside => ?_
      refine implies t ?_
      induction inside with
      | whole => exact .part .whole member
      | part _ member inside_ih => exact .part inside_ih member

theorem every_of_forall (all : ∀ s, p s) (e : Expr) : e.Every p :=
  byParts (fun e parts_ih => .node (all e) parts_ih) e

theorem anyUpdates_eq_false_iff {es : List Expr} : anyUpdates es = false ↔ ∀ e ∈ es, e.hasUpdates = false := by
  induction es with
  | nil => simp [anyUpdates]
  | cons e rest rest_ih => simp [anyUpdates, rest_ih]

/-! ## Variables -/

mutual

/-- The numbers of the variables bound in an expression, in order. -/
def binders : Expr → List Nat
  | literal _ | contextValue .. | root _ | documents .. | varRef .. | deferred .. => []
  | list operands _ _ => bindersAll operands
  | range a b _ _ | arithmetic _ a b _ _ | comparison _ a b _ _ => a.binders ++ b.binders
  | conditional test yes no _ _ => test.binders ++ (yes.binders ++ no.binders)
  | filter base predicates _ _ => base.binders ++ bindersAll predicates
  | letIn var bound body _ => bound.binders ++ var.id :: body.binders
  | forIn var source body _ _ => source.binders ++ var.id :: body.binders
  | call _ arguments _ _ => bindersAll arguments
  | dynamicCall callee arguments _ _ => callee.binders ++ bindersAll arguments
  | delete target _ => target.binders

/-- The numbers of the variables bound in some expressions, in order. -/
def bindersAll : List Expr → List Nat
  | [] => []
  | e :: rest => e.binders ++ bindersAll rest

end

mutual

/-- The numbers of the variables that an expression refers to without binding them. -/
def free : Expr → List Nat
  | literal _ | contextValue .. | root _ | documents .. | deferred .. => []
  | varRef var _ _ => [var.id]
  | list operands _ _ => freeAll operands
  | range a b _ _ | arithmetic _ a b _ _ | comparison _ a b _ _ => a.free ++ b.free
  | conditional test yes no _ _ => test.free ++ (yes.free ++ no.free)
  | filter base predicates _ _ => base.free ++ freeAll predicates
  | letIn var bound body _ => bound.free ++ body.free.filter (· ≠ var.id)
  | forIn var source body _ _ => source.free ++ body.free.filter (· ≠ var.id)
  | call _ arguments _ _ => freeAll arguments
  | dynamicCall callee arguments _ _ => callee.free ++ freeAll arguments
  | delete target _ => target.free

/-- The numbers of the variables that some expressions refer to without binding them. -/
def freeAll : List Expr → List Nat
  | [] => []
  | e :: rest => e.free ++ freeAll rest

end

/-- The variable that a node binds. -/
def binder? : Expr → Option Variable
  | letIn var _ _ _ | forIn var _ _ _ _ => some var
  | _ => none

theorem binders_variable {e : Expr} {var : Variable} (binds : e.binder? = some var) : var.id ∈ e.binders := by
  cases e with
  | letIn | forIn => cases binds; simp [binders]
  | _ => cases binds

theorem bindersAll_eq (es : List Expr) : bindersAll es = (es.map binders).flatten := by
  induction es with
  | nil => rfl
  | cons e rest rest_ih => simp [bindersAll, rest_ih]

theorem mem_bindersAll {es : List Expr} {id : Nat} : id ∈ bindersAll es ↔ ∃ e ∈ es, id ∈ e.binders := by
  rw [bindersAll_eq, ← List.flatMap_def, List.mem_flatMap]

theorem binders_part {s : Expr} (member : s ∈ e.parts) : s.binders.Sublist e.binders := by
  -- The parts of a node are a list, or one, two or three of its own.
  have listed : ∀ es : List Expr, s ∈ es → s.binders.Sublist (bindersAll es) := fun es inside => by
    rw [bindersAll_eq]
    exact List.sublist_flatten_of_mem (List.mem_map_of_mem inside)
  have both : ∀ a b : Expr, s ∈ [a, b] → s.binders.Sublist (a.binders ++ b.binders) := by
    intro a b inside
    rcases List.mem_cons.1 inside with rfl | last
    · exact List.sublist_append_left _ _
    · rw [List.mem_singleton.1 last]
      exact List.sublist_append_right _ _
  have around : ∀ (a b : Expr) (id : Nat), s ∈ [a, b] →
      s.binders.Sublist (a.binders ++ id :: b.binders) := fun a b id inside =>
    (both a b inside).trans ((List.Sublist.refl _).append (List.sublist_cons_self id _))
  cases e with
  | list operands => exact listed _ member
  | call f arguments => exact listed _ member
  | range a b => exact both a b member
  | arithmetic op a b => exact both a b member
  | comparison op a b => exact both a b member
  | letIn var bound body => exact around bound body var.id member
  | forIn var source body => exact around source body var.id member
  | filter base predicates =>
      rcases List.mem_cons.1 member with rfl | inside
      · exact List.sublist_append_left _ _
      · exact (listed _ inside).trans (List.sublist_append_right _ _)
  | dynamicCall callee arguments =>
      rcases List.mem_cons.1 member with rfl | inside
      · exact List.sublist_append_left _ _
      · exact (listed _ inside).trans (List.sublist_append_right _ _)
  | conditional test yes no =>
      rcases List.mem_cons.1 member with rfl | inside
      · exact List.sublist_append_left _ _
      · exact (both yes no inside).trans (List.sublist_append_right _ _)
  | delete target =>
      rw [List.mem_singleton.1 member]
      exact List.Sublist.refl _
  | _ => cases member

theorem binder?_of_leaf (leaf : e.parts = []) : e.binder? = none := by
  cases e <;> first | rfl | cases leaf

/-- What binds nothing itself binds what its parts bind. -/
theorem binders_of_parts (unbound : e.binder? = none) : e.binders = bindersAll e.parts := by
  cases e with
  | letIn | forIn => cases unbound
  | _ => simp [binders, bindersAll, parts]

theorem binders_inside {s : Expr} (inside : e.Inside s) : s.binders.Sublist e.binders := by
  induction inside with
  | whole => exact List.Sublist.refl _
  | part inside member inside_ih => exact (binders_part member).trans inside_ih

end Expr

end QueryKernel
