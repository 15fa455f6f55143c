import QueryKernel.Proofs.Compile.Everywhere
import QueryKernel.Query

/-!
# Compilation leaves the execution alone

Compilation is refused over updates only; focus, variables and pending updates are afterwards what they
were before; and an error met in advance is raised by every evaluation of what stands in its place.

Function items in literals are really called, and what they return becomes a literal that may be called in
turn.  So all this is about a class of function items whose calls leave a query alone and stay in the class.
-/

namespace QueryKernel

variable {calls : Calls}

/-- Two states of a query with the same focus, variables and pending updates. -/
structure Context.SameState (c d : Context) : Prop where
  focus : d.focus = c.focus
  bindings : d.bindings = c.bindings
  updates : d.updates = c.updates

/-- An item that is no function item outside a class. -/
def ItemOf.Still (still : FunctionItem Expr → Prop) : Item → Prop
  | .function f => still f
  | _ => True

/-- Calls of the function items of a class leave a query alone and give values with items of the class. -/
structure Undisturbing (calls : Calls) (still : FunctionItem Expr → Prop) : Prop where
  retype : ∀ f type, still f → still { f with type }
  call : ∀ f arguments c, still f → arguments.length = f.parameters.length →
    (∀ v ∈ arguments, (Kind.shaped (ItemOf.Still still)).value v) →
    c.SameState (calls f arguments c).2 ∧
      ∀ v, (calls f arguments c).1 = .ok v → (Kind.shaped (ItemOf.Still still)).value v

/-- The ways to evaluate an expression fail with an error of the given cause, and change nothing. -/
def Expr.Raises (cause : Cause Expr) (e : Expr) : Prop :=
  ∃ error : Error, error.cause = cause ∧ ∀ calls c,
    (e.modes calls).stream c = (.error (.error error), c) ∧
    (e.modes calls).item c = (.error (.error error), c) ∧
    (e.modes calls).value c = (.error (.error error), c) ∧
    (e.modes calls).booleanItem c = (.error (.error error), c)

variable {still : FunctionItem Expr → Prop}

/-! ## Rules for the state before compilation -/

theorem still_refine (functions : Undisturbing calls still) (item : Item) (type : ItemType)
    (holds : ItemOf.Still still item) : ItemOf.Still still (item.refine type) := by
  cases item with
  | function f => exact functions.retype f type holds
  | _ => trivial

/-- A pair of values is refused by maps and arrays, and function items leave the query alone. -/
theorem still_pairs (functions : Undisturbing calls still) {before : Context} {callee : Item} {focus : Focus}
    (holds : ItemOf.Still still callee) :
    calls.PairAlways (At (fun c => before.SameState { c with focus := before.focus }) focus)
      (Kind.shaped (ItemOf.Still still)) callee := by
  intro a b left right
  have pair : ∀ v ∈ [a, b], (Kind.shaped (ItemOf.Still still)).value v := by
    intro v member
    rcases List.mem_cons.1 member with rfl | last
    · exact left
    · rw [List.mem_singleton.1 last]
      exact right
  cases callee with
  | function f =>
      simp only [invoke]
      split
      · next arity =>
          intro c inv
          obtain ⟨same, given⟩ := functions.call f [a, b] c holds arity pair
          refine ⟨⟨same.focus.trans inv.focus_eq, ?_⟩, given⟩
          exact ⟨rfl, same.bindings.trans inv.rest.bindings, same.updates.trans inv.rest.updates⟩
      · exact .raise
  -- Maps and arrays take one argument.
  | map identity entries type =>
      exact .bind (P := fun _ => False) .raise fun _ impossible => impossible.elim
  | array identity members type =>
      exact .bind (P := fun _ => False) .raise fun _ impossible => impossible.elim
  | atom a => exact .raise
  | node n => exact .raise

theorem still_rules (functions : Undisturbing calls still) (before : Context) :
    CompileRules calls (fun c => before.SameState { c with focus := before.focus }) (fun _ => True)
      (Kind.shaped (ItemOf.Still still)) where
  lawful := Kind.shaped_lawful _
  atom := fun _ => trivial
  node := fun _ => trivial
  setFocus := fun _ _ same => ⟨rfl, same.bindings, same.updates⟩
  focused := fun _ _ _ _ => trivial
  nextVariable := fun _ _ same => ⟨rfl, same.bindings, same.updates⟩
  nextIdentity := fun _ _ same => ⟨rfl, same.bindings, same.updates⟩
  forest := fun _ _ same => ⟨rfl, same.bindings, same.updates⟩
  trace := fun _ _ same => ⟨rfl, same.bindings, same.updates⟩
  emptyMap := fun _ _ => trivial
  emptyArray := fun _ _ => trivial
  narrow := Kind.shaped_narrow (still_refine functions)
  unfocused := trivial
  pushed := fun _ _ => trivial
  refocused := fun _ _ _ _ _ _ => trivial
  pairs := fun _ _ _ holds => still_pairs functions holds

/-- What compilation does to the state of a query, and which errors it may have. -/
theorem compile_always (functions : Undisturbing calls still) {updating : Prop} {e : Expr}
    (bears : e.Every (Expr.Bears (Kind.shaped (ItemOf.Still still)) updating)) (c : Context) :
    c.SameState (e.compileBy calls c).2 ∧
      ∀ error, (e.compileBy calls c).1 = .error (.error error) → Refused updating error.cause := by
  have start : Steady (fun d => c.SameState { d with focus := c.focus })
      (Kind.shaped (ItemOf.Still still)) c.focus (.start c) := by
    refine ⟨⟨rfl, ⟨rfl, rfl, rfl⟩⟩, fun scope member entry inside => ?_⟩
    rw [List.mem_singleton.1 member] at inside
    cases inside
  obtain ⟨kept, _, refused⟩ := Expr.optimize_always (still_rules functions c) bears trivial _ start
  exact ⟨⟨kept.context.focus_eq, kept.context.rest.bindings, kept.context.rest.updates⟩, refused⟩

/-! ## Errors met in advance -/

theorem deferred_raises (error : Error) (type : StaticType) (location : Option Location) :
    (Expr.deferred error type location).Raises error.cause :=
  ⟨error, rfl, fun _ _ => ⟨rfl, rfl, rfl, rfl⟩⟩

theorem noteReplacement_ok (verb : String) (before : ExprSummary) (after : Expr) (c : CompileContext) :
    ∃ c', Compile.noteReplacement verb before after c = (.ok (), c') := by
  simp only [Compile.noteReplacement, Compile.bind_apply, Compile.options]
  split
  · exact ⟨_, rfl⟩
  · exact ⟨_, rfl⟩

/-- An error met while an expression is computed in advance is put off. -/
theorem precompute_error {e : Expr} {c : CompileContext} {error : Error}
    (failed : ((e.modes calls).value c.context).1 = .error (.error error)) :
    (Compile.precompute calls e c).1 = .ok (.deferred (error.locate e.location)
      (.ofSequenceType e.sequenceType) e.location) := by
  cases ran : (e.modes calls).value c.context with
  | mk result context =>
      rw [ran] at failed
      cases failed
      obtain ⟨c', noted⟩ := noteReplacement_ok "pre-evaluate" e.summary
        (.deferred (error.locate e.location) (.ofSequenceType e.sequenceType) e.location) { c with context }
      simp only [Compile.precompute, Compile.bind_apply, Compile.attempt, ran, Compile.deferError, noted]
      rfl

/-- Compilation raises no error of evaluation and leaves the execution alone.  If it is refused, then for
an update in the wrong place; focus, variables and updates are those from before; and if an expression fails
while it is computed in advance, what stands in its place fails with the same cause in every way to
evaluate it, also as a copy and with a narrower type. -/
theorem compile_undisturbing (functions : Undisturbing calls still) :
    (∀ (e : Expr) (c : Context), e.Every (Expr.Bears (Kind.shaped (ItemOf.Still still)) True) →
      (∀ error, (e.compileBy calls c).1 = .error (.error error) →
        error.code = ErrorCode.XUST0001.expandedName ∧ error.cause.kind = .update) ∧
      c.SameState (e.compileBy calls c).2) ∧
    ∀ (e : Expr) (c : CompileContext) (error : Error),
      ((e.modes calls).value c.context).1 = .error (.error error) →
      ∃ node, (Compile.precompute calls e c).1 = .ok node ∧ node.Raises error.cause ∧
        (∀ s, (node.copy s).1 = node) ∧ ∀ known, (node.narrow known).Raises error.cause := by
  refine ⟨fun e c bears => ?_, fun e c error failed => ?_⟩
  · obtain ⟨same, refused⟩ := compile_always functions bears c
    refine ⟨fun error failed => ?_, same⟩
    obtain ⟨_, description, cause | cause⟩ := refused error failed
    · rw [ErrorOf.code, cause]
      exact ⟨rfl, rfl⟩
    · rw [ErrorOf.code, cause]
      exact ⟨rfl, rfl⟩
  · refine ⟨_, precompute_error failed, ?_, fun _ => rfl, fun known => ?_⟩
    · rw [← error.cause_locate e.location]
      exact deferred_raises _ _ _
    · rw [← error.cause_locate e.location]
      simp only [Expr.narrow]
      split <;> exact deferred_raises _ _ _

/-- A function item that gives its first argument. -/
def keepFirst : FunctionItem Expr :=
  ⟨0, none, [⟨0, "a", none⟩, ⟨1, "b", none⟩], .varRefOf ⟨0, "a", none⟩ none, .anyFunction⟩

theorem keepFirst_called (identity : Nat) (name : Option ExpandedName) (type : ItemType) (a b : Value)
    (c : Context) :
    callsWithin callDepth ⟨identity, name, keepFirst.parameters, keepFirst.body, type⟩ [a, b] c =
      (.ok a, (c.bind ⟨0, "a", none⟩ a).bind ⟨1, "b", none⟩ b) := by
  have first : ((c.bind ⟨0, "a", none⟩ a).bind ⟨1, "b", none⟩ b).lookup? ⟨0, "a", none⟩ = some a := by
    simp [Context.lookup?, Context.bind, Bindings.lookup_set]
  show variableValue ⟨0, "a", none⟩ none ((c.bind ⟨0, "a", none⟩ a).bind ⟨1, "b", none⟩ b) = _
  simp only [variableValue, Eval.bind_apply, Eval.context, first]
  rfl

/-- Calls that give the first argument, whatever the function item is. -/
def firstArgument : Calls := fun _ arguments => pure (arguments.headD .empty)

theorem firstArgument_undisturbing : Undisturbing firstArgument fun _ => True := by
  refine ⟨fun _ _ _ => trivial, fun f arguments c _ _ given => ⟨⟨rfl, rfl, rfl⟩, fun v same => ?_⟩⟩
  cases same
  cases arguments with
  | nil => exact (Kind.shaped_lawful _).empty
  | cons v rest => exact given v List.mem_cons_self

/-- `fold-left1((1, 2, 3), keepFirst)` -/
def foldFirst : Expr :=
  .call .foldLeft1 [.literal (.ofItems [.integer 1, .integer 2, .integer 3]),
    .literal (.one (.function keepFirst))] (.ofSequenceType .anything) none

theorem foldFirst_bears (updating : Prop) :
    foldFirst.Every (Expr.Bears (Kind.shaped (ItemOf.Still fun _ => True)) updating) := by
  refine .node trivial fun s member => ?_
  rcases List.mem_cons.1 member with rfl | last
  · refine Compile.literal_bears ((Kind.shaped_lawful _).ofItems fun item inside => ?_)
    rcases List.mem_cons.1 inside with rfl | others
    · trivial
    · rcases List.mem_cons.1 others with rfl | final
      · trivial
      · rw [List.mem_singleton.1 final]
        trivial
  · rw [List.mem_singleton.1 last]
    exact Compile.literal_bears ((Kind.shaped_lawful _).one trivial)

/-- `1 div 0` -/
def oneByZero : Expr :=
  .arithmeticOf .divide (.literal (.one (.integer 1))) (.literal (.one (.integer 0))) none

/-- A fold is computed in advance by calls, and a division fails in advance. -/
theorem compile_undisturbing_keepFirst :
    ((∀ error, (foldFirst.compileBy firstArgument (.initial {})).1 = .error (.error error) →
      error.code = ErrorCode.XUST0001.expandedName ∧ error.cause.kind = .update) ∧
      (Context.initial {}).SameState (foldFirst.compileBy firstArgument (.initial {})).2) ∧
    ∃ node, (Compile.precompute firstArgument oneByZero (.start (.initial {}))).1 = .ok node ∧
      node.Raises .divisionByZero ∧ (∀ s, (node.copy s).1 = node) ∧
      ∀ known, (node.narrow known).Raises .divisionByZero := by
  exact ⟨(compile_undisturbing firstArgument_undisturbing).1 _ _ (foldFirst_bears True),
    (compile_undisturbing firstArgument_undisturbing).2 oneByZero (.start (.initial {}))
      ⟨.divisionByZero, none⟩ (by with_unfolding_all rfl)⟩

end QueryKernel
