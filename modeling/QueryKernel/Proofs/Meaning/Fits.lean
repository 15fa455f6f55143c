import QueryKernel.Proofs.Eval.Built
import QueryKernel.Proofs.Meaning.Allowed
import QueryKernel.Proofs.Meaning.Renamed

/-!
# Outcomes fit their types

The static type of every part of an expression allows the outcomes of that part, whatever they are, as
long as the variables hold what is known of them.

This is said of an expression in an environment: the body of a binding fits its types only where the variable
holds an outcome of what it is bound to.

## Definitions

* `Expr.Typed` says that a type allows all outcomes, and that these are plain.
* `Expr.Allots` says that declared types allow as many items as are bound.
* `Expr.Fits` says both of all parts of an expression.
* `Env.Conforms` says that an environment holds plain items, as many as declared types allow.
-/

namespace QueryKernel

/-- Only atoms and nodes. -/
def AllPlain (items : List Item) : Prop := ∀ item ∈ items, item.IsPlain

/-- The outcomes of an expression are plain, and its type allows their sizes. -/
def Expr.Typed (e : Expr) (env : Env) : Prop :=
  ∀ s updates, e.outcomes .free env s updates → e.staticType.Allows s.items.length ∧ AllPlain s.items

namespace Expr

mutual

/-- Declared types allow as many items as the variables are bound to, whatever the outcomes are. -/
def Allots : Expr → Env → Prop
  | literal _, _ | contextValue _ _, _ | root _, _ | documents _ _, _ | varRef _ _ _, _ | deferred _ _ _, _ => True
  | list operands _ _, env => AllotsAll operands env
  | range first last _ _, env => first.Allots env ∧ last.Allots env
  | arithmetic _ a b _ _, env => a.Allots env ∧ b.Allots env
  | comparison _ a b _ _, env => a.Allots env ∧ b.Allots env
  | conditional test yes no _ _, env => test.Allots env ∧ yes.Allots env ∧ no.Allots env
  | filter base predicates _ _, env =>
      base.Allots env ∧ ∀ s, base.outcomes .free env s [] → ∀ item ∈ s.items,
        AllotsAll predicates (env.focusOn item)
  | letIn var bound body _, env =>
      bound.Allots env ∧ ∀ s, bound.outcomes .free env s [] →
        var.Allows s.items.length ∧ body.Allots (env.set var.id s)
  | forIn var source body _ _, env =>
      source.Allots env ∧ ∀ s, source.outcomes .free env s [] → ∀ item ∈ s.items,
        var.Allows 1 ∧ body.Allots (env.set var.id (.one item))
  | call _ arguments _ _, env => AllotsAll arguments env
  | dynamicCall callee arguments _ _, env => callee.Allots env ∧ AllotsAll arguments env
  | delete target _, env => target.Allots env

/-- The same for all of some expressions. -/
def AllotsAll : List Expr → Env → Prop
  | [], _ => True
  | e :: rest, env => e.Allots env ∧ AllotsAll rest env

end

theorem allotsAll_iff {es : List Expr} {env : Env} : AllotsAll es env ↔ ∀ e ∈ es, e.Allots env := by
  induction es with
  | nil => simp [AllotsAll]
  | cons e rest rest_ih => simp [AllotsAll, rest_ih]

/-- Without declared types there is nothing to allow. -/
theorem allots_of_undeclared {e : Expr}
    (undeclared : e.Every fun s => ∀ var, s.binder? = some var → var.declared = none) (env : Env) :
    e.Allots env := by
  induction e using byParts generalizing env with
  | step e parts_ih =>
      have part : ∀ s ∈ e.parts, ∀ env, s.Allots env := fun s member => parts_ih s member (undeclared.part member)
      cases e with
      | literal | contextValue | root | documents | varRef | deferred => trivial
      | list | call => exact allotsAll_iff.2 fun s member => part s member env
      | range | arithmetic | comparison =>
          exact ⟨part _ List.mem_cons_self env, part _ (List.mem_cons_of_mem _ List.mem_cons_self) env⟩
      | conditional =>
          exact ⟨part _ (by simp [parts]) env, part _ (by simp [parts]) env, part _ (by simp [parts]) env⟩
      | filter =>
          exact ⟨part _ List.mem_cons_self env, fun s _ item _ =>
            allotsAll_iff.2 fun p member => part p (List.mem_cons_of_mem _ member) _⟩
      | letIn var =>
          exact ⟨part _ (by simp [parts]) env, fun s _ =>
            ⟨Variable.allows_of_undeclared (undeclared.here var rfl), part _ (by simp [parts]) _⟩⟩
      | forIn var =>
          exact ⟨part _ (by simp [parts]) env, fun s _ item _ =>
            ⟨Variable.allows_of_undeclared (undeclared.here var rfl), part _ (by simp [parts]) _⟩⟩
      | dynamicCall =>
          exact ⟨part _ List.mem_cons_self env, allotsAll_iff.2 fun s member =>
            part s (List.mem_cons_of_mem _ member) env⟩
      | delete target => exact part target List.mem_cons_self env

mutual

/-- All parts of an expression have outcomes that their types allow, declared types of variables included. -/
def Fits : Expr → Env → Prop
  | literal v, env => (literal v).Typed env
  | list operands type location, env => (list operands type location).Typed env ∧ FitsAll operands env
  | range first last type location, env =>
      (range first last type location).Typed env ∧ first.Fits env ∧ last.Fits env
  | arithmetic op a b type location, env =>
      (arithmetic op a b type location).Typed env ∧ a.Fits env ∧ b.Fits env
  | comparison op a b type location, env =>
      (comparison op a b type location).Typed env ∧ a.Fits env ∧ b.Fits env
  | conditional test yes no type location, env =>
      (conditional test yes no type location).Typed env ∧ test.Fits env ∧ yes.Fits env ∧ no.Fits env
  | contextValue type location, env => (contextValue type location).Typed env
  | root location, env => (root location).Typed env
  | documents source location, env => (documents source location).Typed env
  | filter base predicates type location, env =>
      (filter base predicates type location).Typed env ∧ base.Fits env ∧
        ∀ s, base.outcomes .free env s [] → ∀ item ∈ s.items,
          FitsAll predicates (env.focusOn item)
  | letIn var bound body location, env =>
      (letIn var bound body location).Typed env ∧ bound.Fits env ∧
        ∀ s, bound.outcomes .free env s [] → var.Allows s.items.length ∧ body.Fits (env.set var.id s)
  | forIn var source body type location, env =>
      (forIn var source body type location).Typed env ∧ source.Fits env ∧
        ∀ s, source.outcomes .free env s [] → ∀ item ∈ s.items,
          var.Allows 1 ∧ body.Fits (env.set var.id (.one item))
  | varRef var type location, env => (varRef var type location).Typed env
  | call f arguments type location, env =>
      (call f arguments type location).Typed env ∧ FitsAll arguments env
  | deferred error type location, env => (deferred error type location).Typed env
  | dynamicCall .., _ => False
  | delete target location, env => (delete target location).Typed env ∧ target.Fits env

/-- All parts of some expressions have outcomes that their types allow. -/
def FitsAll : List Expr → Env → Prop
  | [], _ => True
  | e :: rest, env => e.Fits env ∧ FitsAll rest env

end

theorem fitsAll_iff {es : List Expr} {env : Env} : FitsAll es env ↔ ∀ e ∈ es, e.Fits env := by
  induction es with
  | nil => simp [FitsAll]
  | cons e rest rest_ih => simp [FitsAll, rest_ih]

theorem Fits.typed {e : Expr} {env : Env} (fits : e.Fits env) : e.Typed env := by
  cases e with
  | literal | contextValue | root | documents | varRef | deferred => exact fits
  | dynamicCall => exact fits.elim
  | _ => exact fits.1

/-- An expression of the same type whose outcomes are among those of another. -/
theorem Typed.within {e e' : Expr} {env env' : Env} (typed : e.Typed env)
    (within : Within .free e' env' .free e env) (same : e'.staticType = e.staticType) :
    e'.Typed env' := by
  intro s updates given
  rw [same]
  exact typed s updates (within s updates given)

/-! ## Renaming -/

variable {visible : Visible} {rename : Nat → Nat} {e e' : Expr}

theorem Renamed.typed (renamed : Renamed visible rename e e') {env env' : Env}
    (carries : env.Carries visible rename env') (typed : e.Typed env) : e'.Typed env' :=
  typed.within (renamed.within Numbers.free.implies_self carries) renamed.staticType_eq

theorem fitsAll_of_zip {es es' : List Expr} {env env' : Env} (length : es.length = es'.length)
    (each : ∀ pair ∈ es.zip es', pair.1.Fits env → pair.2.Fits env') (fits : FitsAll es env) :
    FitsAll es' env' := by
  induction es generalizing es' with
  | nil =>
      rw [List.length_eq_zero_iff.1 length.symm]
      trivial
  | cons e rest rest_ih =>
      cases es' with
      | nil => cases length
      | cons e' rest' =>
          refine ⟨each (e, e') List.mem_cons_self fits.1, ?_⟩
          refine rest_ih (Nat.succ.inj length) (fun pair member => ?_) fits.2
          exact each pair (List.mem_cons_of_mem _ member)

theorem Renamed.fits (renamed : Renamed visible rename e e') {env env' : Env}
    (carries : env.Carries visible rename env') (fits : e.Fits env) : e'.Fits env' := by
  have typed := renamed.typed carries fits.typed
  -- Parts are renamed in environments of their own, so that the environments are general.
  have same := Numbers.free.implies_self
  induction renamed generalizing env env' with
  | literal | contextValue | root | documents | varRef | deferred => exact typed
  | list length parts parts_ih =>
      refine ⟨typed, fitsAll_of_zip length (fun pair member inner => ?_) fits.2⟩
      exact parts_ih pair member carries inner ((parts pair member).typed carries inner.typed)
  | range low high low_ih high_ih =>
      obtain ⟨_, first, last⟩ := fits
      exact ⟨typed, low_ih carries first (low.typed carries first.typed),
        high_ih carries last (high.typed carries last.typed)⟩
  | arithmetic left right left_ih right_ih =>
      obtain ⟨_, a, b⟩ := fits
      exact ⟨typed, left_ih carries a (left.typed carries a.typed),
        right_ih carries b (right.typed carries b.typed)⟩
  | comparison left right left_ih right_ih =>
      obtain ⟨_, a, b⟩ := fits
      exact ⟨typed, left_ih carries a (left.typed carries a.typed),
        right_ih carries b (right.typed carries b.typed)⟩
  | conditional condition positive negative condition_ih positive_ih negative_ih =>
      obtain ⟨_, test, yes, no⟩ := fits
      exact ⟨typed, condition_ih carries test (condition.typed carries test.typed),
        positive_ih carries yes (positive.typed carries yes.typed),
        negative_ih carries no (negative.typed carries no.typed)⟩
  | filter input length conditions input_ih conditions_ih =>
      obtain ⟨_, base, predicates⟩ := fits
      refine ⟨typed, input_ih carries base (input.typed carries base.typed),
        fun s given item member => ?_⟩
      have inside := carries.focusOn item
      have before := predicates s (input.within same carries s [] given) item member
      refine fitsAll_of_zip length (fun pair among inner => ?_) before
      exact conditions_ih pair among inside inner ((conditions pair among).typed inside inner.typed)
  | letIn declared apart value result value_ih result_ih =>
      obtain ⟨_, bound, body⟩ := fits
      refine ⟨typed, value_ih carries bound (value.typed carries bound.typed), fun s given => ?_⟩
      have inside := carries.set apart s
      obtain ⟨allowed, inner⟩ := body s (value.within same carries s [] given)
      exact ⟨allowed.of_declared declared, result_ih inside inner (result.typed inside inner.typed)⟩
  | forIn declared apart input result input_ih result_ih =>
      obtain ⟨_, source, body⟩ := fits
      refine ⟨typed, input_ih carries source (input.typed carries source.typed),
        fun s given item member => ?_⟩
      have inside := carries.set apart (.one item)
      obtain ⟨allowed, inner⟩ := body s (input.within same carries s [] given) item member
      exact ⟨allowed.of_declared declared, result_ih inside inner (result.typed inside inner.typed)⟩
  | call length parts parts_ih =>
      refine ⟨typed, fitsAll_of_zip length (fun pair member inner => ?_) fits.2⟩
      exact parts_ih pair member carries inner ((parts pair member).typed carries inner.typed)
  | delete input input_ih =>
      exact ⟨typed, input_ih carries fits.2 (input.typed carries fits.2.typed)⟩

end Expr

end QueryKernel
