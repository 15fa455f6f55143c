import QueryKernel.Proofs.Compile.Always
import QueryKernel.Proofs.Eval.Focus

/-!
# Compilation gives the focus back

Whatever is simplified, and whether that succeeds or is refused, the focus afterwards is the focus before,
and so are the focuses set aside.

What is computed in advance is evaluated under the focus of the compilation, and filters in it set other
focuses.
-/

namespace QueryKernel

variable {calls : Calls}

namespace Compile

variable {A B : Type}

/-- Whether it succeeds or fails, the focus and the focuses set aside are the same afterwards. -/
def KeepsFocus (x : Compile A) : Prop :=
  ∀ c, (x c).2.context.focus = c.context.focus ∧ (x c).2.focuses = c.focuses

namespace KeepsFocus

/-- A computation that leaves the state alone. -/
theorem still {x : Compile A} (same : ∀ c, (x c).2 = c) : x.KeepsFocus := by
  intro c
  rw [same c]
  exact ⟨rfl, rfl⟩

theorem pure {a : A} : KeepsFocus (pure a) := still fun _ => rfl

theorem bind {x : Compile A} {f : A → Compile B} (first : x.KeepsFocus) (second : ∀ a, (f a).KeepsFocus) :
    (x >>= f).KeepsFocus := by
  intro c
  have kept := first c
  rw [bind_apply]
  cases ran : x c with
  | mk result c₁ =>
      rw [ran] at kept
      cases result with
      | ok a => exact ⟨(second a c₁).1.trans kept.1, (second a c₁).2.trans kept.2⟩
      | error e => exact kept

theorem attempt {x : Eval A} (keeps : x.KeepsFocus) : (attempt x).KeepsFocus := by
  intro c
  have kept := keeps c.context
  unfold Compile.attempt
  split <;> (next ran => rw [ran] at kept; exact ⟨kept, rfl⟩)

theorem inScope {scope : Scope} {x : Compile A} (keeps : x.KeepsFocus) : (inScope scope x).KeepsFocus :=
  fun c => keeps { c.pushScope with innermost := scope }

/-- Under a focus of its own anything may be done to it. -/
theorem withFocus {value : Option Value} {x : Compile A} : (withFocus value x).KeepsFocus :=
  fun _ => ⟨rfl, rfl⟩

theorem topFocus?_eq {x : Compile A} (keeps : x.KeepsFocus) {c c' : CompileContext} {a : A}
    (ran : x c = (.ok a, c')) : c'.topFocus? = c.topFocus? := by
  have same := keeps c
  rw [ran] at same
  rw [CompileContext.topFocus?, CompileContext.topFocus?, same.1, same.2]

end KeepsFocus

/-! ## Replacements -/

theorem noteReplacement_keepsFocus {verb : String} {before : ExprSummary} {after : Expr} :
    (noteReplacement verb before after).KeepsFocus := by
  refine .bind (.still fun _ => rfl) fun most => ?_
  dsimp only
  split
  · exact .pure
  · exact fun _ => ⟨rfl, rfl⟩

theorem replace_keepsFocus {before : ExprSummary} {after : Expr} : (replace before after).KeepsFocus :=
  noteReplacement_keepsFocus.bind fun _ => .pure

theorem replaceWith_keepsFocus {e after : Expr} : (replaceWith e after).KeepsFocus := replace_keepsFocus

theorem precompute_keepsFocus (keep : calls.KeepFocus) {e : Expr} : (precompute calls e).KeepsFocus := by
  have value : (e.modes calls).value.KeepsFocus :=
    Eval.KeepsFocusGiving.keepsFocus fun focus => (e.modes_keepFocus keep focus).value
  refine .bind (.attempt value) fun result => ?_
  cases result with
  | ok v => exact noteReplacement_keepsFocus.bind fun _ => .pure
  | error error => exact noteReplacement_keepsFocus.bind fun _ => .pure

theorem copying_keepsFocus {renames : Renaming} {copy : Copying → A × Copying} :
    (copying renames copy).KeepsFocus := fun _ => ⟨rfl, rfl⟩

/-! ## Updates in their places -/

theorem requireNoUpdates_keepsFocus {description : String} {e : Expr} :
    (requireNoUpdates description e).KeepsFocus := by
  unfold requireNoUpdates
  split <;> exact .still fun _ => rfl

theorem requireNoneUpdates_keepsFocus {description : String} {es : List Expr} :
    (requireNoneUpdates description es).KeepsFocus := by
  induction es with
  | nil => exact .pure
  | cons e rest rest_ih => exact requireNoUpdates_keepsFocus.bind fun _ => rest_ih

theorem requireUniformUpdates_keepsFocus {description : String} {operands : List Expr} :
    (requireUniformUpdates description operands).KeepsFocus := by
  unfold requireUniformUpdates
  split
  · exact .pure
  · split <;> exact .still fun _ => rfl

/-! ## Stand-ins -/

theorem placeholder?_keepsFocus {type : ItemType} {known : Option Value} {source : Option DataSource} :
    (placeholder? type known source).KeepsFocus := by
  unfold placeholder?
  split
  · exact .pure
  · exact .pure
  · split <;> exact fun _ => ⟨rfl, rfl⟩

theorem contextValue?_keepsFocus {base : Option Expr} : (contextValue? base).KeepsFocus := by
  refine .bind (.still fun _ => rfl) fun c => ?_
  dsimp only
  split
  · exact .pure
  · exact .pure
  · exact .pure
  · exact .pure
  · exact placeholder?_keepsFocus.bind fun _ => .pure

theorem contextItem?_keepsFocus {base : Option Expr} : (contextItem? base).KeepsFocus := by
  refine contextValue?_keepsFocus.bind fun found => ?_
  split
  · exact .pure
  · exact .pure
  · exact .pure
  · exact placeholder?_keepsFocus

/-! ## Nodes with simplified parts -/

theorem reduceList_keepsFocus (keep : calls.KeepFocus) {before : ExprSummary} {operands : List Expr}
    {location : Option Location} :
    (reduceList calls before operands location).KeepsFocus := by
  refine requireUniformUpdates_keepsFocus.bind fun _ => ?_
  split
  · exact replace_keepsFocus
  · exact replace_keepsFocus
  · refine .bind (.still fun _ => rfl) fun most => ?_
    dsimp only
    split
    · exact precompute_keepsFocus keep
    · exact .pure

theorem reduceRange_keepsFocus (keep : calls.KeepFocus) {first last : Expr} {type : StaticType}
    {location : Option Location} :
    (reduceRange calls first last type location).KeepsFocus := by
  refine requireNoUpdates_keepsFocus.bind fun _ => requireNoUpdates_keepsFocus.bind fun _ => ?_
  dsimp only
  split
  · exact precompute_keepsFocus keep
  · exact .pure

theorem reduceOperation_keepsFocus (keep : calls.KeepFocus) {e a b : Expr} :
    (reduceOperation calls e a b).KeepsFocus := by
  refine requireNoUpdates_keepsFocus.bind fun _ => requireNoUpdates_keepsFocus.bind fun _ => ?_
  split
  · exact replaceWith_keepsFocus
  · split
    · exact precompute_keepsFocus keep
    · exact .pure

theorem reduceConditional_keepsFocus {test yes no : Expr} {location : Option Location} :
    (reduceConditional test yes no location).KeepsFocus := by
  refine requireUniformUpdates_keepsFocus.bind fun _ => ?_
  dsimp only
  split
  · exact .pure
  · next v _ =>
      have boolean : (Modes.ofLiteral v).boolean.KeepsFocus :=
        Eval.KeepsFocusGiving.keepsFocus fun focus =>
          ((Expr.literal v).modes_keepFocus (callsWithin_keepFocus 0) focus).boolean
      refine .bind (.attempt boolean) fun result => ?_
      split
      · exact replaceWith_keepsFocus
      · exact .pure

theorem reduceContextValue_keepsFocus {type : StaticType} {location : Option Location} :
    (reduceContextValue type location).KeepsFocus := by
  refine .bind (.still fun _ => rfl) fun c => ?_
  split <;> exact .pure

theorem reduceFilter_keepsFocus (keep : calls.KeepFocus) {before : ExprSummary} {base : Expr} {predicates : List Expr}
    {location : Option Location} : (reduceFilter calls before base predicates location).KeepsFocus := by
  refine requireNoneUpdates_keepsFocus.bind fun _ => ?_
  dsimp only
  split
  · exact replace_keepsFocus
  · split
    · exact replace_keepsFocus
    · refine .bind (.still fun _ => rfl) fun most => ?_
      split
      · exact precompute_keepsFocus keep
      · exact .pure

theorem reduceLet_keepsFocus {before : ExprSummary} {var : Variable} {bound body : Expr}
    {location : Option Location} : (reduceLet before var bound body location).KeepsFocus := by
  unfold reduceLet
  split
  · exact replace_keepsFocus
  · exact .pure

theorem reduceReference_keepsFocus {var : Variable} {type : StaticType} {location : Option Location} :
    (reduceReference var type location).KeepsFocus := by
  refine .bind (.still fun _ => rfl) fun c => ?_
  split
  · exact replaceWith_keepsFocus
  · split <;> exact .pure

theorem reduceHead_keepsFocus {e argument : Expr} : (reduceHead e argument).KeepsFocus := by
  unfold reduceHead
  split
  · exact replaceWith_keepsFocus
  · split
    · split
      · exact copying_keepsFocus.bind fun _ => replaceWith_keepsFocus
      · exact .pure
    · exact .pure

theorem reduceCount_keepsFocus {e argument : Expr} : (reduceCount e argument).KeepsFocus := by
  unfold reduceCount
  dsimp only
  split
  · split
    · exact replaceWith_keepsFocus
    · exact .pure
  · exact .pure

theorem unrolledLoop_keepsFocus {var : Variable} {body : Expr} {location : Option Location}
    {items : List Item} : (unrolledLoop var body location items).KeepsFocus := by
  induction items with
  | nil => exact .pure
  | cons item rest rest_ih =>
      exact copying_keepsFocus.bind fun _ => copying_keepsFocus.bind fun _ => rest_ih.bind fun _ => .pure

theorem unrolledFold_keepsFocus {callee result : Expr} {items : List Item} :
    (unrolledFold callee result items).KeepsFocus := by
  induction items generalizing result with
  | nil => exact .pure
  | cons item rest rest_ih => exact copying_keepsFocus.bind fun _ => rest_ih

section Unrolling

variable {again : Expr → Compile Expr} (simplifies : ∀ e, (again e).KeepsFocus)

include simplifies

theorem reduceFor_keepsFocus {before : ExprSummary} {var : Variable} {source body : Expr}
    {location : Option Location} : (reduceFor again before var source body location).KeepsFocus := by
  refine .bind (.still fun _ => rfl) fun most => ?_
  dsimp only
  split
  · exact .pure
  · exact unrolledLoop_keepsFocus.bind fun _ => (simplifies _).bind fun _ => replace_keepsFocus

theorem reduceFold_keepsFocus {e items callee : Expr} : (reduceFold again e items callee).KeepsFocus := by
  refine .bind (.still fun _ => rfl) fun most => ?_
  dsimp only
  split
  · exact .pure
  · split
    · exact .pure
    · exact unrolledFold_keepsFocus.bind fun _ => (simplifies _).bind fun _ => replaceWith_keepsFocus

theorem reduceCall_keepsFocus (keep : calls.KeepFocus) {f : BuiltIn} {arguments : List Expr}
    {location : Option Location} :
    (reduceCall calls again f arguments location).KeepsFocus := by
  refine requireNoneUpdates_keepsFocus.bind fun _ => .bind (.still fun _ => rfl) fun most => ?_
  dsimp only
  generalize (if f = .error then none else literalItems? arguments) = literalItems
  split
  · exact .still fun _ => rfl
  · split
    · exact precompute_keepsFocus keep
    · split
      · exact reduceHead_keepsFocus
      · exact reduceCount_keepsFocus
      · exact reduceFold_keepsFocus simplifies
      · exact .pure

end Unrolling

end Compile

/-! ## Trees -/

namespace Expr

open Compile

theorem optimizeAllWith_keepsFocus {again : Expr → Compile Expr} {es : List Expr}
    (each : ∀ e ∈ es, (optimizeWith calls again e).KeepsFocus) : (optimizeAllWith calls again es).KeepsFocus := by
  induction es with
  | nil => exact .pure
  | cons e rest rest_ih =>
      refine (each e List.mem_cons_self).bind fun _ => ?_
      exact (rest_ih fun other member => each other (List.mem_cons_of_mem _ member)).bind fun _ => .pure

theorem optimizeWith_keepsFocus (keep : calls.KeepFocus) {again : Expr → Compile Expr}
    (simplifies : ∀ e, (again e).KeepsFocus)
    (e : Expr) : (optimizeWith calls again e).KeepsFocus := by
  induction e using byParts with
  | step e part =>
    cases e with
    | literal | root | documents | deferred => exact .pure
    | contextValue type location => exact reduceContextValue_keepsFocus
    | varRef var type location => exact reduceReference_keepsFocus
    | list operands type location =>
        exact (optimizeAllWith_keepsFocus part).bind fun _ => reduceList_keepsFocus keep
    | range a b type location =>
        refine (part a (by simp [parts])).bind fun _ => (part b (by simp [parts])).bind fun _ => ?_
        exact reduceRange_keepsFocus keep
    | arithmetic op a b type location | comparison op a b type location =>
        refine (part a (by simp [parts])).bind fun _ => (part b (by simp [parts])).bind fun _ => ?_
        exact reduceOperation_keepsFocus keep
    | conditional test yes no type location =>
        refine (part test (by simp [parts])).bind fun _ => requireNoUpdates_keepsFocus.bind fun _ => ?_
        refine (part yes (by simp [parts])).bind fun _ => (part no (by simp [parts])).bind fun _ => ?_
        exact reduceConditional_keepsFocus
    | filter base predicates type location =>
        refine (part base (by simp [parts])).bind fun _ => requireNoUpdates_keepsFocus.bind fun _ => ?_
        exact contextItem?_keepsFocus.bind fun _ => .bind .withFocus fun _ => reduceFilter_keepsFocus keep
    | letIn var bound body location =>
        refine (part bound (by simp [parts])).bind fun _ => requireNoUpdates_keepsFocus.bind fun _ => ?_
        exact .bind (.inScope (part body (by simp [parts]))) fun _ => reduceLet_keepsFocus
    | forIn var source body type location =>
        refine (part source (by simp [parts])).bind fun _ => requireNoUpdates_keepsFocus.bind fun _ => ?_
        split
        · exact replace_keepsFocus
        · exact .bind (.inScope (part body (by simp [parts]))) fun _ => reduceFor_keepsFocus simplifies
    | call f arguments type location =>
        exact (optimizeAllWith_keepsFocus part).bind fun _ => reduceCall_keepsFocus simplifies keep
    | dynamicCall callee arguments type location =>
        refine (part callee (by simp [parts])).bind fun _ => ?_
        refine (optimizeAllWith_keepsFocus fun e member => part e (by simp [parts, member])).bind fun _ => ?_
        exact requireNoUpdates_keepsFocus.bind fun _ => requireNoneUpdates_keepsFocus.bind fun _ => .pure
    | delete target location =>
        exact (part target (by simp [parts])).bind fun _ => requireNoUpdates_keepsFocus.bind fun _ => .pure

/-- Compilation gives the focus back, however deeply loops are unrolled in it. -/
theorem optimizeWithin_keepsFocus (keep : calls.KeepFocus) (depth : Nat) (e : Expr) :
    (optimizeWithin calls depth e).KeepsFocus := by
  induction depth generalizing e with
  | zero => exact optimizeWith_keepsFocus keep (fun _ => .pure) e
  | succ depth depth_ih => exact optimizeWith_keepsFocus keep depth_ih e

/-! ## What is simplified under the focus of a tree -/

/-- The nodes whose parts are simplified one after another, without a scope or a focus of their own. -/
def InOrder : Expr → Prop
  | filter .. | letIn .. | forIn .. => False
  | _ => True

/-- Simplifying the first tree from the first state comes to the second one, in the second state, and has
not entered a predicate on the way. -/
inductive Visits (calls : Calls) (again : Expr → Compile Expr) :
    Expr → CompileContext → Expr → CompileContext → Prop where
  | here {e : Expr} {c : CompileContext} : Visits calls again e c e c
  | first {e s t : Expr} {rest : List Expr} {c c' : CompileContext} (parts : e.parts = s :: rest)
      (inside : Visits calls again s c t c') : Visits calls again e c t c'
  | operand {e s t : Expr} {before others rest : List Expr} {c c₁ c' : CompileContext} (plain : e.InOrder)
      (parts : e.parts = before ++ s :: rest) (done : optimizeAllWith calls again before c = (.ok others, c₁))
      (inside : Visits calls again s c₁ t c') : Visits calls again e c t c'
  | letBody {var : Variable} {bound bound' body t : Expr} {location : Option Location}
      {c c₁ c' : CompileContext} (done : bound.optimizeWith calls again c = (.ok bound', c₁))
      (inside : Visits calls again body { c₁.pushScope with innermost := scopeOfLet var bound' } t c') :
      Visits calls again (.letIn var bound body location) c t c'
  | loopBody {var : Variable} {source source' body t : Expr} {type : StaticType} {location : Option Location}
      {c c₁ c' : CompileContext} (done : source.optimizeWith calls again c = (.ok source', c₁))
      (inside : Visits calls again body { c₁.pushScope with innermost := scopeOfFor var source' } t c') :
      Visits calls again (.forIn var source body type location) c t c'

/-- What is visited is simplified under the focus of the tree. -/
theorem Visits.focus {again : Expr → Compile Expr} (keep : calls.KeepFocus)
    (simplifies : ∀ e, (again e).KeepsFocus) {e t : Expr}
    {c c' : CompileContext} (visits : Visits calls again e c t c') : c'.topFocus? = c.topFocus? := by
  have each := fun e => optimizeWith_keepsFocus keep simplifies e
  induction visits with
  | here => rfl
  | first _ _ inside_ih => exact inside_ih
  | operand _ _ done _ inside_ih =>
      exact inside_ih.trans ((optimizeAllWith_keepsFocus fun e _ => each e).topFocus?_eq done)
  | letBody done _ inside_ih | loopBody done _ inside_ih =>
      have entered := (each _).topFocus?_eq done
      exact inside_ih.trans entered

end Expr

end QueryKernel
