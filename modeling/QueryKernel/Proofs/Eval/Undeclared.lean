import QueryKernel.Proofs.Eval.Varied
import QueryKernel.Proofs.Expr.Justified
import QueryKernel.Query

/-!
# Declared types only restrict

An evaluation in which types of variables are declared either meets a value that one of them refuses, or
gives what it gives without the declarations, by the same steps.

This is about evaluation of trees as they are.  Compilation is another matter: it takes the declared type for the
type of the variable before anything has been checked.
-/

namespace QueryKernel

/-- An outcome against one without some checks: a check has refused a value, or they are the same. -/
inductive Restricted {A : Type} (refused : Cause Expr → Prop) (R : A → A → Prop) :
    Except Failure A × Context → Except Failure A × Context → Prop where
  | refused {error : Error} (cause : refused error.cause) (c : Context) (other : Except Failure A × Context) :
      Restricted refused R (.error (.error error), c) other
  | failed (e : Failure) (c : Context) : Restricted refused R (.error e, c) (.error e, c)
  | done {a b : A} (related : R a b) (c : Context) : Restricted refused R (.ok a, c) (.ok b, c)

/-- A check that refuses a value gives up. -/
def Excuse.ofCause (refused : Cause Expr → Prop) : Excuse where
  holds e _ := ∃ error, e = .error error ∧ refused error.cause
  located := by
    rintro error c location ⟨_, same, cause⟩
    cases same
    exact ⟨_, rfl, by rwa [ErrorOf.cause_locate]⟩
  focused := fun _ given => given

variable {excuse : Excuse} {refused : Cause Expr → Prop} {A : Type}

theorem Excused.restricted {R : A → A → Prop} {result result' : Except Failure A × Context}
    (excused : Excused (.ofCause refused) R result result') : Restricted refused R result result' := by
  cases excused with
  | excused given =>
      obtain ⟨error, rfl, cause⟩ := given
      exact .refused cause _ _
  | failed e c => exact .failed e c
  | done related c => exact .done related c

/-! ## Without declared types -/

/-- The variable without its declared type, if it is one of some. -/
def Variable.undeclare (dropped : Nat → Bool) (var : Variable) : Variable :=
  if dropped var.id then { var with declared := none } else var

namespace Expr

mutual

/-- The expression without the declared types of some variables; the static types of its nodes stay. -/
def undeclare (dropped : Nat → Bool) : Expr → Expr
  | literal v => literal v
  | list operands type l => list (undeclareAll dropped operands) type l
  | range a b type l => range (a.undeclare dropped) (b.undeclare dropped) type l
  | arithmetic op a b type l => arithmetic op (a.undeclare dropped) (b.undeclare dropped) type l
  | comparison op a b type l => comparison op (a.undeclare dropped) (b.undeclare dropped) type l
  | conditional test yes no type l =>
      conditional (test.undeclare dropped) (yes.undeclare dropped) (no.undeclare dropped) type l
  | contextValue type l => contextValue type l
  | root l => root l
  | documents source l => documents source l
  | filter base predicates type l => filter (base.undeclare dropped) (undeclareAll dropped predicates) type l
  | letIn var bound body l => letIn (var.undeclare dropped) (bound.undeclare dropped) (body.undeclare dropped) l
  | forIn var source body type l =>
      forIn (var.undeclare dropped) (source.undeclare dropped) (body.undeclare dropped) type l
  | varRef var type l => varRef (var.undeclare dropped) type l
  | call f arguments type l => call f (undeclareAll dropped arguments) type l
  | deferred error type l => deferred error type l
  | dynamicCall callee arguments type l =>
      dynamicCall (callee.undeclare dropped) (undeclareAll dropped arguments) type l
  | delete target l => delete (target.undeclare dropped) l

/-- Some expressions without the declared types of some variables. -/
def undeclareAll (dropped : Nat → Bool) : List Expr → List Expr
  | [] => []
  | e :: rest => e.undeclare dropped :: undeclareAll dropped rest

end

end Expr

/-- Whatever the declared type of a variable refuses is given up. -/
def Excuse.Refuses (excuse : Excuse) (var : Variable) : Prop :=
  ∀ v cause, checkDeclared var v = .error cause → ∀ location c, excuse.holds (.error ⟨cause, location⟩) c

theorem bindVariable_undeclare {dropped : Nat → Bool} {var : Variable} {location : Option Location}
    (refuses : dropped var.id = true → excuse.Refuses var) (v : Value) :
    (bindVariable var location v).SameUnless excuse Eq (bindVariable (var.undeclare dropped) location v) := by
  cases drops : dropped var.id with
  | false =>
      rw [show var.undeclare dropped = var by simp [Variable.undeclare, drops]]
      exact .refl _
  | true =>
      rw [show var.undeclare dropped = { var with declared := none } by simp [Variable.undeclare, drops]]
      intro c
      simp only [bindVariable, Eval.bind_apply]
      cases checked : checkDeclared var v with
      | ok => exact .done rfl _
      | error cause => exact .excused (refuses drops v cause checked location c) _

/-! ## Trees -/

namespace Expr

/-- An error that a declared type of one of some variables bound in an expression may raise. -/
def Refuses (dropped : Nat → Bool) (e : Expr) (cause : Cause Expr) : Prop :=
  ∃ s var v, e.Inside s ∧ s.binder? = some var ∧ dropped var.id = true ∧ checkDeclared var v = .error cause

variable {dropped : Nat → Bool}

theorem undeclareAll_eq (es : List Expr) : undeclareAll dropped es = es.map (undeclare dropped) := by
  induction es with
  | nil => rfl
  | cons e rest rest_ih => rw [undeclareAll, rest_ih, List.map_cons]

theorem staticType_undeclare (e : Expr) : (e.undeclare dropped).staticType = e.staticType := by
  induction e using byParts with
  | step e parts_ih =>
      cases e with
      | letIn var bound body => exact parts_ih body (List.mem_cons_of_mem _ List.mem_cons_self)
      | _ => rfl

theorem position?_undeclare (e : Expr) : (e.undeclare dropped).position? = e.position? := by
  cases e <;> rfl

/-- The expression without some declared types is the expression with other variables bound. -/
theorem varied_undeclare {e : Expr} {P : Variable → Prop}
    (refuses : e.Every fun s => ∀ var, s.binder? = some var → P var) :
    e.Varied (fun _ _ => False) (fun var var' => P var ∧ var' = var.undeclare dropped) (e.undeclare dropped) := by
  let turns (var var' : Variable) : Prop := P var ∧ var' = var.undeclare dropped
  let pair (s : Expr) : Expr × Expr := (s, s.undeclare dropped)
  have firsts : ∀ es : List Expr, (es.map pair).map Prod.fst = es := fun es => by
    rw [List.map_map]
    exact List.map_id es
  have seconds : ∀ es : List Expr, (es.map pair).map Prod.snd = undeclareAll dropped es := fun es => by
    rw [List.map_map, undeclareAll_eq]
    rfl
  have paired : ∀ {Q : Expr × Expr → Prop} {es : List Expr}, (∀ s ∈ es, Q (s, s.undeclare dropped)) →
      ∀ p ∈ es.map pair, Q p := fun each p member => by
    obtain ⟨s, inside, rfl⟩ := List.mem_map.1 member
    exact each s inside
  induction e using byParts with
  | step e parts_ih =>
      have parts : ∀ s ∈ e.parts, s.Varied (fun _ _ => False) turns (s.undeclare dropped) :=
        fun s member => parts_ih s member (refuses.part member)
      cases e with
      | literal => exact .literal
      | contextValue => exact .contextValue
      | root => exact .root
      | documents => exact .documents
      | deferred => exact .deferred
      | varRef var =>
          refine .varRef ?_ ?_ <;> (unfold Variable.undeclare; split <;> rfl)
      | list operands type location =>
          have whole := @Varied.list _ turns (operands.map pair) type location (paired parts)
          rwa [firsts, seconds] at whole
      | range first last =>
          exact .range (parts first List.mem_cons_self) (parts last (List.mem_cons_of_mem _ List.mem_cons_self))
      | arithmetic op a b =>
          exact .arithmetic (parts a List.mem_cons_self) (parts b (List.mem_cons_of_mem _ List.mem_cons_self))
      | comparison op a b =>
          exact .comparison (parts a List.mem_cons_self) (parts b (List.mem_cons_of_mem _ List.mem_cons_self))
      | conditional test yes no =>
          exact .conditional (parts test List.mem_cons_self) (parts yes (List.mem_cons_of_mem _ List.mem_cons_self))
            (parts no (List.mem_cons_of_mem _ (List.mem_cons_of_mem _ List.mem_cons_self)))
      | filter base predicates type location =>
          have whole := @Varied.filter _ turns base _ (predicates.map pair) type location
            (parts base List.mem_cons_self) (paired fun s _ => position?_undeclare s)
            (paired fun s member => parts s (List.mem_cons_of_mem _ member))
          rwa [firsts, seconds] at whole
      | letIn var bound body location =>
          exact .letIn ⟨refuses.here var rfl, rfl⟩ (parts bound List.mem_cons_self)
            (parts body (List.mem_cons_of_mem _ List.mem_cons_self))
      | forIn var source body type location =>
          exact .forIn ⟨refuses.here var rfl, rfl⟩ (parts source List.mem_cons_self)
            (parts body (List.mem_cons_of_mem _ List.mem_cons_self))
      | call f arguments type location =>
          have whole := @Varied.call _ turns f (arguments.map pair) type location
            (fun _ => paired fun s _ => congrArg StaticType.size? (staticType_undeclare s)) (paired parts)
          rwa [firsts, seconds] at whole
      | dynamicCall callee arguments type location =>
          have whole := @Varied.dynamicCall _ turns callee _ (arguments.map pair) type location
            (parts callee List.mem_cons_self) (paired fun s member => parts s (List.mem_cons_of_mem _ member))
          rwa [firsts, seconds] at whole
      | delete target => exact .delete (parts target List.mem_cons_self)

/-- In all ways to evaluate an expression, the checks of declared types are all that is missing without
them, and calls of function items are all that is done in another way. -/
theorem modes_undeclare {calls calls' : Calls} (called : calls.SameUnless excuse calls') {e : Expr}
    (refuses : e.Every fun s => ∀ var, s.binder? = some var → dropped var.id = true → excuse.Refuses var) :
    (e.modes calls).SameUnless excuse ((e.undeclare dropped).modes calls') := by
  refine ((varied_undeclare refuses).standsIn called (fun impossible => impossible.elim) ?_).modes
  rintro var _ ⟨refuses, rfl⟩ location v
  exact bindVariable_undeclare refuses v

/-- Without dropped declarations the expression stays as it is. -/
theorem undeclare_nothing (e : Expr) : e.undeclare (fun _ => false) = e := by
  have all : ∀ es : List Expr, (∀ s ∈ es, s.undeclare (fun _ => false) = s) →
      undeclareAll (fun _ => false) es = es := fun es each => by
    rw [undeclareAll_eq]
    exact (List.map_congr_left each).trans (List.map_id _)
  have kept : ∀ var : Variable, var.undeclare (fun _ => false) = var := fun _ => if_neg Bool.false_ne_true
  induction e using byParts with
  | step e parts_ih =>
      cases e with
      | literal | contextValue | root | documents | deferred => rfl
      | varRef var => rw [undeclare, kept]
      | list operands => rw [undeclare, all operands parts_ih]
      | call f arguments => rw [undeclare, all arguments parts_ih]
      | range a b | arithmetic op a b | comparison op a b =>
          rw [undeclare, parts_ih a (by simp [parts]), parts_ih b (by simp [parts])]
      | letIn var a b | forIn var a b =>
          rw [undeclare, parts_ih a (by simp [parts]), parts_ih b (by simp [parts]), kept]
      | conditional test yes no =>
          rw [undeclare, parts_ih test (by simp [parts]), parts_ih yes (by simp [parts]),
            parts_ih no (by simp [parts])]
      | filter a es | dynamicCall a es =>
          obtain ⟨first, others⟩ := List.forall_mem_cons.1 parts_ih
          rw [undeclare, first, all es others]
      | delete target => rw [undeclare, parts_ih target List.mem_cons_self]

/-- An expression gives the same unless a call of a function item is given up. -/
theorem modes_sameUnless {calls calls' : Calls} (called : calls.SameUnless excuse calls') (e : Expr) :
    (e.modes calls).SameUnless excuse (e.modes calls') := by
  have same : (e.modes calls).SameUnless excuse ((e.undeclare fun _ => false).modes calls') :=
    modes_undeclare called (every_of_forall (fun _ _ _ impossible => by cases impossible) e)
  rwa [undeclare_nothing] at same

/-- Declared types only restrict.  Evaluation without the declared types of some variables gives the same, with
the same effects, unless one of them refuses a value. -/
theorem declarations_only_restrict (calls : Calls) (dropped : Nat → Bool) (e : Expr) (c : Context) :
    Restricted (e.Refuses dropped) Eq (e.evaluateBy calls c) ((e.undeclare dropped).evaluateBy calls c) ∧
      Restricted (e.Refuses dropped) Eq (e.evaluateFirstBy calls c) ((e.undeclare dropped).evaluateFirstBy calls c) ∧
      Restricted (e.Refuses dropped) Eq (e.evaluateBooleanBy calls c)
        ((e.undeclare dropped).evaluateBooleanBy calls c) := by
  have every : ∀ {s}, e.Inside s → s.Every fun s => ∀ var, s.binder? = some var → dropped var.id = true →
      (Excuse.ofCause (e.Refuses dropped)).Refuses var := by
    intro s inside
    induction s using byParts with
    | step s parts_ih =>
        refine .node (fun var binds drops v cause failed location _ => ?_) fun t member => ?_
        · exact ⟨⟨cause, location⟩, rfl, s, var, v, inside, binds, drops, failed⟩
        · exact parts_ih t member (.part inside member)
  have modes := modes_undeclare (.refl calls) (every .whole)
  have start : (Eval.change Context.startClock).SameUnless (.ofCause (e.Refuses dropped)) Eq
      (Eval.change Context.startClock) := .refl _
  refine ⟨(start.followed (fun _ => modes.value) c).restricted, Excused.restricted ?_,
    (start.followed (fun _ => modes.boolean) c).restricted⟩
  refine start.followed (fun _ => modes.stream.bind fun s t related => ?_) c
  exact related.ask (.pure rfl) fun _ _ _ _ => .pure rfl

end Expr

end QueryKernel
