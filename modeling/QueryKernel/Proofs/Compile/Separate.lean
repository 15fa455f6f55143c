import QueryKernel.Proofs.Compile.Grounded
import QueryKernel.Proofs.Compile.Undisturbed
import QueryKernel.Proofs.Eval.Nested
import QueryKernel.Proofs.Eval.Sound
import QueryKernel.Proofs.Eval.Vacant

/-!
# Updates stay separate

In a compiled query an expression that is no updating one records no updates, and an updating query gives
nothing.

The first is true whatever variables function items set.  For the second they may set variables, but none that the
compiled query binds: a function item that does so can fill a variable of which compilation has found out that it is
empty.
-/

namespace QueryKernel

/-- The variables hold values of a class. -/
def Context.Bound (good : Item → Prop) (c : Context) : Prop :=
  ∀ id v, c.bindings.lookup id = some v → (Kind.shaped good).value v

/-- A focus on a value of a class. -/
def Focus.Holds (good : Item → Prop) (focus : Focus) : Prop :=
  ∀ v, focus.value = some v → (Kind.shaped good).value v

/-- Focus and variables hold values of a class. -/
structure Context.Holds (good : Item → Prop) (c : Context) : Prop where
  focus : c.focus.Holds good
  bound : c.Bound good

/-- A class of items with what is inside of maps and arrays.  Calls of its function items record no updates,
put the focus back and stay in the class. -/
structure UpdateFree (calls : Calls) (good : Item → Prop) : Prop where
  atom : ∀ a, good (.atom a)
  node : ∀ n, good (.node n)
  refine : ∀ item type, good item → good (item.refine type)
  emptyMap : ∀ identity type, good (.map identity [] type)
  emptyArray : ∀ identity type, good (.array identity [] type)
  entry : ∀ identity entries type, good (.map identity entries type) →
    ∀ entry ∈ entries, (Kind.shaped good).value entry.2
  member : ∀ identity members type, good (.array identity members type) →
    ∀ v ∈ members, (Kind.shaped good).value v
  call : ∀ f arguments c, good (.function f) → arguments.length = f.parameters.length →
    (∀ v ∈ arguments, (Kind.shaped good).value v) → c.Holds good →
    (calls f arguments c).2.updates = c.updates ∧ (calls f arguments c).2.focus = c.focus ∧
      (calls f arguments c).2.Bound good ∧
      ∀ v, (calls f arguments c).1 = .ok v → (Kind.shaped good).value v

/-- Calls of the function items of a class, given values of it, lead from a context to one that stands in a relation
to it. -/
def Calls.Lead (calls : Calls) (good : Item → Prop) (relation : Context → Context → Prop) : Prop :=
  ∀ f arguments c, good (.function f) → arguments.length = f.parameters.length →
    (∀ v ∈ arguments, (Kind.shaped good).value v) → c.Holds good → relation c (calls f arguments c).2

/-- No way to evaluate the expression records an update, whatever comes of it; a stream records none
between its items. -/
def Expr.RecordsNothing (calls : Calls) (good : Item → Prop) (e : Expr) : Prop :=
  ∀ focus updates, focus.Holds good →
    (e.modes calls).Always (At (fun c => c.Bound good ∧ c.updates = updates) focus) (Kind.shaped good)

/-- Variables that are declared have values of the declared size. -/
def Context.Fits (declared : Declarations) (c : Context) : Prop :=
  ∀ id v type, c.bindings.lookup id = some v → declared id = some type → type.occurrence.allows v.size = true

/-- A context in which a query can be evaluated. -/
structure Context.Prepared (declared : Declarations) (good : Item → Prop) (c : Context) : Prop where
  holds : c.Holds good
  fits : c.Fits declared

/-- The contexts that evaluations of a query lead to, one after another. -/
inductive Expr.Reaches (calls : Calls) (e : Expr) (c : Context) : Context → Prop where
  | start : Reaches calls e c c
  | evaluate {d : Context} (before : Reaches calls e c d) : Reaches calls e c (e.evaluateBy calls d).2
  | evaluateFirst {d : Context} (before : Reaches calls e c d) :
      Reaches calls e c (e.evaluateFirstBy calls d).2
  | evaluateBoolean {d : Context} (before : Reaches calls e c d) :
      Reaches calls e c (e.evaluateBooleanBy calls d).2

variable {calls : Calls} {declared : Declarations} {good : Item → Prop} {R : Context → Prop} {empty : Nat → Prop}
  {K : Surroundings} {e : Expr}

/-! ## Calls -/

theorem invoke_kept (functions : UpdateFree calls good) (bound : ∀ c, R c → c.Bound good)
    (called : calls.Lead good fun c d => R c → R d) {callee : Item} {arguments : List Value} {focus : Focus}
    (held : focus.Holds good) (given : good callee) (values : ∀ v ∈ arguments, (Kind.shaped good).value v) :
    (invoke calls callee arguments).Always (At R focus) (Kind.shaped good).value := by
  refine invoke_always (Kind.shaped_lawful good).empty ?_ ?_ ?_
  · rintro f rfl arity c inv
    have holds : c.Holds good := ⟨inv.focus_eq ▸ held, bound c inv.rest⟩
    obtain ⟨-, restored, -, result⟩ := functions.call f arguments c given arity values holds
    exact ⟨⟨restored.trans inv.focus_eq, called f arguments c given arity values holds inv.rest⟩, result⟩
  · rintro identity entries type rfl
    exact functions.entry identity entries type given
  · rintro identity members type rfl
    exact functions.member identity members type given

theorem pairs_kept (functions : UpdateFree calls good) (bound : ∀ c, R c → c.Bound good)
    (called : calls.Lead good fun c d => R c → R d) (callee : Item) (focus : Focus) (held : focus.Holds good)
    (given : good callee) : calls.PairAlways (At R focus) (Kind.shaped good) callee :=
  fun _ _ left right => invoke_kept functions bound called held given
    (List.forall_mem_cons.2 ⟨left, List.forall_mem_singleton.2 right⟩)

/-- A condition on contexts that says nothing but of updates and bindings, and that calls keep. -/
structure Conditioned (calls : Calls) (good : Item → Prop) (R : Context → Prop) : Prop where
  bound : ∀ c, R c → c.Bound good
  same : ∀ c c', R c → c'.updates = c.updates → c'.bindings = c.bindings → R c'
  called : calls.Lead good fun c d => R c → R d

theorem conditioned_rules (functions : UpdateFree calls good) (conditioned : Conditioned calls good R) :
    Rules R (Focus.Holds good) (Kind.shaped good) where
  lawful := Kind.shaped_lawful good
  atom := functions.atom
  node := functions.node
  setFocus := fun _ _ inv => conditioned.same _ _ inv rfl rfl
  focused := fun item position size given v same => by
    cases same
    exact (Kind.shaped_lawful good).one given

/-- What a condition asks of a node follows from what it asks of bindings and updates. -/
theorem conditioned_observes (functions : UpdateFree calls good) (conditioned : Conditioned calls good R)
    {updating : Prop} (bears : e.Bears (Kind.shaped good) updating)
    (binds : ∀ var, e.binder? = some var → ∀ c v, R c → (Kind.shaped good).value v → R (c.bind var v))
    (records : updating → ∀ c n, R c → R { c with updates := c.updates.push (.delete n) }) :
    e.Observes R (Focus.Holds good) (Kind.shaped good) calls := by
  cases e with
  | literal v => exact bears
  | contextValue type location => exact fun focus v held same => held v same
  | varRef var type location => exact fun c v inv found => conditioned.bound c inv _ v found
  | letIn var bound body location => exact binds var rfl
  | forIn var source body type location =>
      exact fun c item inv given => binds var rfl c _ inv ((Kind.shaped_lawful good).one given)
  | delete target location => exact records bears
  | call f arguments type location =>
      exact fun _ callee focus held given =>
        pairs_kept functions conditioned.bound conditioned.called callee focus held given
  | dynamicCall callee arguments type location =>
      exact fun callee arguments focus held given values =>
        invoke_kept functions conditioned.bound conditioned.called held given values
  | _ => trivial

/-! ## Expressions that do not update -/

theorem bound_bind {c : Context} (bound : c.Bound good) (var : Variable) {v : Value}
    (given : (Kind.shaped good).value v) : (c.bind var v).Bound good :=
  ((Kind.shaped good).carried_bound fun _ => True).bind c var v trivial bound given

/-- An expression without updates records none. -/
theorem recordsNothing_of_bears (functions : UpdateFree calls good)
    (bears : e.Every (Expr.Bears (Kind.shaped good) False)) : e.RecordsNothing calls good := by
  intro focus updates held
  have conditioned : Conditioned calls good fun c => c.Bound good ∧ c.updates = updates := by
    refine ⟨fun _ inv => inv.1, fun c c' inv same bindings => ⟨?_, same.trans inv.2⟩,
      fun f arguments c given arity values holds inv => ?_⟩
    · rw [Context.Bound, bindings]
      exact inv.1
    · obtain ⟨recorded, -, bound, -⟩ := functions.call f arguments c given arity values holds
      exact ⟨bound, recorded.trans inv.2⟩
  exact Expr.modes_always (conditioned_rules functions conditioned) (bears.mono fun s _ here =>
    conditioned_observes functions conditioned here
      (fun var _ c v inv given => ⟨bound_bind inv.1 var given, inv.2⟩) False.elim) held

/-! ## Updating queries -/

/-- A call sets no variables but some that do not count, and leaves declared variables as they are declared. -/
structure Context.Spared (declared : Declarations) (mine : List Nat) (c d : Context) : Prop where
  fits : c.Fits declared → d.Fits declared
  kept : ∀ id ∈ mine, d.bindings.lookup id = c.bindings.lookup id

/-- Variables that are declared to be empty are so. -/
theorem Context.Fits.empties {c : Context} (fits : c.Fits declared) (bound : c.Bound good) :
    c.Empties declared.Empty := by
  rintro id v ⟨type, typed, zero⟩ found
  have allowed := fits id v type found typed
  rw [zero] at allowed
  exact (bound id v found).1.empty_of_size (Occurrence.size_of_allows_zero allowed)

theorem fits_bind {c : Context} (fits : c.Fits declared) {var : Variable} (undeclared : declared var.id = none)
    (v : Value) : (c.bind var v).Fits declared := by
  intro id w type found typed
  rw [Context.bind, Bindings.lookup_set] at found
  split at found
  · next same =>
      rw [same, undeclared] at typed
      cases typed
  · exact fits id w type found typed

theorem empties_bind {c : Context} (empties : c.Empties empty) {var : Variable} (apart : ¬empty var.id) (v : Value) :
    (c.bind var v).Empties empty := by
  intro id w known found
  rw [Context.bind, Bindings.lookup_set] at found
  split at found
  · next same => exact absurd (same ▸ known) apart
  · exact empties id w known found

/-- What is declared to be empty or bound in the query stays empty, whatever is called. -/
theorem empties_conditioned (functions : UpdateFree calls good) {mine : List Nat}
    (spares : calls.Lead good (Context.Spared declared mine))
    (stock : ∀ id, empty id → declared.Empty id ∨ id ∈ mine) :
    Conditioned calls good fun c => (c.Bound good ∧ c.Fits declared) ∧ c.Empties empty := by
  refine ⟨fun _ inv => inv.1.1, fun c c' inv _ bindings => ?_, fun f arguments c given arity values holds inv => ?_⟩
  · rw [Context.Bound, Context.Fits, Context.Empties, bindings]
    exact inv
  · have bound := (functions.call f arguments c given arity values holds).2.2.1
    have spared := spares f arguments c given arity values holds
    have fits := spared.fits inv.1.2
    refine ⟨⟨bound, fits⟩, fun id v known found => ?_⟩
    rcases stock id known with nothing | inside
    · exact fits.empties bound id v nothing found
    · exact inv.2 id v known (spared.kept id inside ▸ found)

/-- The variables of a query keep it that those are empty which are known to be. -/
theorem minds_of_bears (functions : UpdateFree calls good)
    (spares : calls.Lead good (Context.Spared declared e.binders)) (undeclared : ∀ id ∈ e.binders, declared id = none)
    (bears : e.Every (Expr.Bears (Kind.shaped good) True)) :
    e.Every (Expr.Minds (fun c => c.Bound good ∧ c.Fits declared) (Focus.Holds good) (Kind.shaped good) calls
      fun id => declared.Empty id ∨ id ∈ e.binders) := by
  refine bears.mono fun s inside here => ?_
  have mine : ∀ var, s.binder? = some var → var.id ∈ e.binders :=
    fun var binds => (Expr.binders_inside inside).subset (Expr.binders_variable binds)
  refine ⟨fun var binds => .inr (mine var binds), fun empty stock apart => ?_⟩
  refine conditioned_observes functions (empties_conditioned functions spares stock) here ?_ fun _ c n inv => inv
  exact fun var binds c v inv given =>
    ⟨⟨bound_bind inv.1.1 var given, fits_bind inv.1.2 (undeclared _ (mine var binds)) v⟩,
      empties_bind inv.2 (apart var binds) v⟩

/-- What evaluations lead to satisfies a condition that they keep. -/
theorem reaches_always {k : Kind} {c d : Context} {focus : Focus} (always : (e.modes calls).Always (At R focus) k)
    (started : ∀ c, R c → R c.startClock) (inv : At R focus c) (reaches : e.Reaches calls c d) : At R focus d := by
  have timed : ∀ d, At R focus d → At R focus d.startClock :=
    fun d inv => ⟨inv.focus_eq, started d inv.rest⟩
  have first : (Eval.change Context.startClock).Always (At R focus) fun _ => True := .change timed trivial
  induction reaches with
  | start => exact inv
  | evaluate _ before_ih => exact ((first.bind fun _ _ => always.value) _ before_ih).1
  | evaluateFirst _ before_ih =>
      exact ((first.bind fun _ _ => firstItem_always always.stream) _ before_ih).1
  | evaluateBoolean _ before_ih => exact ((first.bind fun _ _ => always.boolean) _ before_ih).1

/-- What gives nothing gives nothing when it is evaluated. -/
theorem evaluate_nothing {c : Context} {focus : Focus} (vacant : (e.modes calls).Vacant (At R focus))
    (started : ∀ c, R c → R c.startClock) (inv : At R focus c) :
    (∀ v, (e.evaluateBy calls c).1 = .ok v → v = .empty) ∧
      ∀ found, (e.evaluateFirstBy calls c).1 = .ok found → found = none := by
  have first : (Eval.change Context.startClock).Always (At R focus) fun _ => True :=
    .change (fun d inv => ⟨inv.focus_eq, started d inv.rest⟩) trivial
  have single : Eval.Always (At R focus) (· = none) (do
      let s ← (e.modes calls).stream
      return (← s.next).map Prod.fst) := vacant.stream.first (.pure rfl)
  exact ⟨((first.bind fun _ _ => vacant.value) c inv).2, ((first.bind fun _ _ => single) c inv).2⟩

/-! ## Compiled queries -/

theorem conditioned_compileRules (functions : UpdateFree calls good) (conditioned : Conditioned calls good R) :
    CompileRules calls R (Focus.Holds good) (Kind.shaped good) where
  toRules := conditioned_rules functions conditioned
  nextVariable := fun _ _ inv => conditioned.same _ _ inv rfl rfl
  nextIdentity := fun _ _ inv => conditioned.same _ _ inv rfl rfl
  forest := fun _ _ inv => conditioned.same _ _ inv rfl rfl
  trace := fun _ _ inv => conditioned.same _ _ inv rfl rfl
  emptyMap := functions.emptyMap
  emptyArray := functions.emptyArray
  narrow := Kind.shaped_narrow functions.refine
  unfocused := fun _ none => by cases none
  pushed := fun item given v same => by
    cases same
    exact (Kind.shaped_lawful good).one given
  refocused := fun focus v item held present isFirst w same => by
    cases same
    exact (Kind.shaped_lawful good).one ((Kind.shaped_lawful good).get? (held v present) isFirst)
  pairs := pairs_kept functions conditioned.bound conditioned.called

theorem Expr.built_bears (built : e.Built declared good) : e.Every (Bears (Kind.shaped good) True) := by
  refine built.every.mono fun s _ made => ?_
  cases made with
  | literal value => exact ⟨value.1.shaped, value.2⟩
  | _ => trivial

/-- What is no updating expression in a compiled query records no updates. -/
theorem compiled_recordsNothing (functions : UpdateFree calls good)
    (bears : e.Every (Expr.Bears (Kind.shaped good) True)) {c : Context} (holds : c.Holds good) {compiled : Expr}
    (accepted : (e.compileBy calls c).1 = .ok compiled) {s : Expr} (inside : compiled.Inside s)
    (quiet : s.hasUpdates = false) : s.RecordsNothing calls good := by
  have conditioned : Conditioned calls good fun d => d.Bound good :=
    ⟨fun _ inv => inv, fun c c' inv _ bindings => by rwa [Context.Bound, bindings],
      fun f arguments c given arity values holds _ => (functions.call f arguments c given arity values holds).2.2.1⟩
  have start : Steady (fun d => d.Bound good) (Kind.shaped good) c.focus (.start c) := by
    refine ⟨⟨rfl, holds.bound⟩, fun scope member entry inside => ?_⟩
    rw [List.mem_singleton.1 member] at inside
    cases inside
  obtain ⟨-, given, -⟩ := Expr.optimize_always (conditioned_compileRules functions conditioned) bears holds.focus _
    start
  have tidy := (Expr.optimize_tidy e (.start c) trivial).2.1 compiled accepted
  exact recordsNothing_of_bears functions
    (Expr.quiet_bears (tidy.inside inside) ((given compiled accepted).inside inside) quiet)

/-- The variables that are declared surround a query. -/
def Declarations.surroundings (declared : Declarations) : Surroundings where
  bound id := declared id ≠ none
  empty := declared.Empty
  within := fun _ ⟨type, typed, _⟩ => typed ▸ Option.some_ne_none type

/-- Updates stay separate.  In a compiled query whatever is no updating expression records no updates in any way
to evaluate it, if function items record none.  If moreover the variables of the query are distinct and have no
declared types, and function items take no variables back, leave declared variables as they are declared and set none
that the compiled query binds, then an updating query gives nothing whenever its evaluation succeeds, whatever its
variables have held before, and also after other evaluations. -/
theorem compile_separates_updates (functions : UpdateFree calls good) (built : e.Built declared good) {c : Context}
    (holds : c.Holds good) {compiled : Expr} (accepted : (e.compileBy calls c).1 = .ok compiled) :
    (∀ s, compiled.Inside s → s.hasUpdates = false → s.RecordsNothing calls good) ∧
    (e.binders.Nodup → (∀ id ∈ e.binders, declared id = none) →
      (∀ id, id ∈ e.binders ∨ declared id ≠ none → id < c.nextVariable) →
      calls.Lead good (fun d d' => d.nextVariable ≤ d'.nextVariable ∧ d.Spared declared compiled.binders d') →
      c.Fits declared →
      (e.compileBy calls c).2.Prepared declared good ∧
      (compiled.hasUpdates = true → ∀ before d : Context, before.Prepared declared good →
        compiled.Reaches calls before d →
        (∀ v, (compiled.evaluateBy calls d).1 = .ok v → v = .empty) ∧
          ∀ found, (compiled.evaluateFirstBy calls d).1 = .ok found → found = none)) := by
  refine ⟨fun s inside quiet => compiled_recordsNothing functions (Expr.built_bears built) holds accepted inside quiet,
    fun distinct undeclared made mild fits => ?_⟩
  have conditioned : Conditioned calls good fun d => d.Bound good ∧ d.Fits declared := by
    refine ⟨fun _ inv => inv.1, fun d d' inv _ bindings => ?_, fun f arguments d given arity values holds inv => ?_⟩
    · rw [Context.Bound, Context.Fits, bindings]
      exact inv
    · exact ⟨(functions.call f arguments d given arity values holds).2.2.1,
        (mild f arguments d given arity values holds).2.fits inv.2⟩
  have rules : KnownRules calls _ (Focus.Holds good) (Kind.shaped good) :=
    { conditioned_compileRules functions conditioned with
      exact := fun _ given none => given.1.empty_of_size none
      onward := fun n => pairs_kept functions (fun _ inv => inv.1.1) fun f arguments d given arity values holds inv =>
        ⟨conditioned.called f arguments d given arity values holds inv.1,
          Nat.le_trans inv.2 (mild f arguments d given arity values holds).1⟩ }
  have ready : e.Ready (Kind.shaped good) True declared.surroundings c.nextVariable :=
    ⟨Expr.built_bears built, Expr.built_justified built ⟨distinct, undeclared, fun id mine bound =>
      bound (undeclared id mine)⟩ fun _ => id, fun id mine => made id (.inl mine)⟩
  cases ran : e.optimizeBy calls (.start c) with
  | mk result after =>
    have context : (e.compileBy calls c).2 = after.context := by rw [Expr.compileBy, ran]
    rw [Expr.compileBy, ran] at accepted
    cases accepted
    have tidy := (Expr.optimize_tidy e (.start c) trivial).2.1 compiled (by rw [ran])
    obtain ⟨m, -, known, turned⟩ := Expr.optimize_leads rules holds.focus ready _
      (start_known ⟨holds.bound, fits⟩ fun id bound => made id (.inr bound)) _ _ ran
    refine ⟨?_, fun updates before d prepared reaches => ?_⟩
    · obtain ⟨focus, bound, fits⟩ := known.context
      exact context ▸ ⟨⟨focus ▸ holds.focus, bound⟩, fits⟩
    · have apart : ∀ id ∈ compiled.binders, declared id = none :=
        fun id mine => Classical.not_not.1 (turned.justified.not_bound id mine)
      have minds := minds_of_bears functions (fun f arguments d given arity values holds =>
        (mild f arguments d given arity values holds).2) apart turned.bears
      have around : ∀ id, declared.Empty id → declared.Empty id ∨ id ∈ compiled.binders := fun _ => .inl
      have conditions := conditioned_rules functions conditioned
      have inv := reaches_always (turned.justified.keeps conditions minds around prepared.holds.focus)
        (fun _ inv => inv) ⟨rfl, ⟨prepared.holds.bound, prepared.fits⟩,
          prepared.fits.empties prepared.holds.bound⟩ reaches
      exact evaluate_nothing (turned.justified.vacant conditions minds around
        (Expr.null_of_updates tidy turned.justified updates) prepared.holds.focus) (fun _ inv => inv) inv

/-- Function items that give their first argument, and nothing in maps and arrays. -/
def ItemOf.KeepsFirst : Item → Prop
  | .function f => f.parameters = keepFirst.parameters ∧ f.body = keepFirst.body
  | .map _ entries _ => entries = []
  | .array _ members _ => members = []
  | _ => True

theorem keepFirst_updateFree : UpdateFree (callsWithin callDepth) ItemOf.KeepsFirst where
  atom := fun _ => trivial
  node := fun _ => trivial
  refine := fun item type keeps => by
    cases item with
    | function | map | array => exact keeps
    | _ => trivial
  emptyMap := fun _ _ => rfl
  emptyArray := fun _ _ => rfl
  entry := fun _ _ _ none entry inside => by
    cases none
    cases inside
  member := fun _ _ _ none v inside => by
    cases none
    cases inside
  call := by
    rintro ⟨identity, name, _, _, type⟩ arguments c ⟨rfl, rfl⟩ arity given holds
    match arguments with
    | [a, b] =>
        have first := given a List.mem_cons_self
        have second := given b (List.mem_cons_of_mem _ List.mem_cons_self)
        rw [keepFirst_called]
        refine ⟨rfl, rfl, bound_bind (bound_bind holds.bound _ first) _ second, fun v same => ?_⟩
        cases same
        exact first

/-- They set the variables with the numbers 0 and 1. -/
theorem keepFirst_spares {mine : List Nat} (apart : ∀ id ∈ mine, 2 ≤ id) :
    (callsWithin callDepth).Lead ItemOf.KeepsFirst fun c d =>
      c.nextVariable ≤ d.nextVariable ∧ c.Spared (fun _ => none) mine d := by
  rintro ⟨identity, name, _, _, type⟩ arguments c ⟨rfl, rfl⟩ arity given holds
  match arguments with
  | [a, b] =>
      rw [keepFirst_called]
      refine ⟨Nat.le_refl _, fun _ _ _ _ _ none => (by cases none), fun id inside => ?_⟩
      have foreign := apart id inside
      have first : id ≠ 0 := by omega
      have second : id ≠ 1 := by omega
      simp [Context.bind, Bindings.lookup_set, first, second]

/-- `for $x in keepFirst(1, 2) return if ($x eq 1) then delete nodes () else ()` -/
def deleteIfFirst : Expr :=
  let x : Variable := ⟨2, "x", none⟩
  .forOf x (.dynamicCallOf (.literal (.one (.function keepFirst)))
      [.literal (.one (.integer 1)), .literal (.one (.integer 2))] none)
    (.conditionalOf (.comparisonOf .eq (.varRefOf x none) (.literal (.one (.integer 1))) none)
      (.delete .emptySequence none) .emptySequence none) none

theorem deleteIfFirst_built : deleteIfFirst.Built (fun _ => none) ItemOf.KeepsFirst := by
  have one : ∀ item : Item, item.KeepsFirst → (ValueOf.one item).Good ItemOf.KeepsFirst :=
    fun item keeps => ⟨trivial, fun other member => List.mem_singleton.1 member ▸ keeps⟩
  have empty : Expr.emptySequence.Built (fun _ => none) ItemOf.KeepsFirst :=
    .literal ⟨trivial, fun _ member => by cases member⟩
  refine .forIn rfl (.dynamicCall (.literal (one _ ⟨rfl, rfl⟩)) (List.forall_mem_cons.2
    ⟨.literal (one _ trivial), List.forall_mem_singleton.2 (.literal (one _ trivial))⟩)) ?_
  exact .conditional (.comparison (.varRef rfl) (.literal (one _ trivial))) (.delete empty) empty

/-- The loop is an updating query; it gives nothing, whatever its variables have held before. -/
theorem deleteIfFirst_separates_updates :
    ∃ compiled : Expr, compiled.hasUpdates = true ∧
      (∀ s, compiled.Inside s → s.hasUpdates = false → s.RecordsNothing (callsWithin callDepth) ItemOf.KeepsFirst) ∧
      ∀ before d : Context, before.Holds ItemOf.KeepsFirst → compiled.Reaches (callsWithin callDepth) before d →
        ∀ v, (compiled.evaluate d).1 = .ok v → v = .empty := by
  let c : Context := { Context.initial {} with nextVariable := 3 }
  have shown : (deleteIfFirst.compile c).1.toOption.map (fun compiled => (compiled.hasUpdates, compiled.binders)) =
      some (true, [2]) := by
    with_unfolding_all rfl
  have binders : deleteIfFirst.binders = [2] := rfl
  have fits : ∀ d : Context, d.Fits fun _ => none := fun _ _ _ _ _ none => by cases none
  have holds : c.Holds ItemOf.KeepsFirst := ⟨fun _ none => (by cases none), fun _ _ none => by cases none⟩
  cases accepted : (deleteIfFirst.compile c).1 with
  | error =>
      rw [accepted] at shown
      cases shown
  | ok compiled =>
      rw [accepted] at shown
      obtain ⟨updating, mine⟩ := Prod.mk.inj (Option.some.inj shown)
      obtain ⟨quiet, more⟩ :=
        compile_separates_updates keepFirst_updateFree deleteIfFirst_built holds accepted
      obtain ⟨-, nothing⟩ := more (by rw [binders]; simp) (fun _ _ => rfl) (by simp [binders, c])
        (keepFirst_spares (by rw [mine]; simp)) (fits c)
      exact ⟨compiled, updating, quiet, fun before d given reaches =>
        (nothing updating before d ⟨given, fits before⟩ reaches).1⟩

/-- `let $x := if (documents) then () else () return (if (.(5, 6)) then delete nodes () else (), $x)` -/
def deleteAndRead : Expr :=
  let x : Variable := ⟨0, "x", none⟩
  .letIn x (.conditionalOf (.documents (.mk 0 "empty" []) none) .emptySequence .emptySequence none)
    (.listOf [.conditionalOf (.dynamicCallOf (.contextValueOf none)
        [.literal (.one (.integer 5)), .literal (.one (.integer 6))] none)
      (.delete .emptySequence none) .emptySequence none, .varRefOf x none] none) none

/-- A function item that records no updates but shares a variable with the query: the compiled query is
updating because the variable is known to be empty, and then the call fills it. -/
theorem deleteAndRead_gives_argument :
    let c : Context := { Context.initial {} with
      focus := .ofValue (some (.one (.function keepFirst))), nextVariable := 1 }
    (∀ a b d, (callsWithin callDepth keepFirst [a, b] d).2.updates = d.updates) ∧
      deleteAndRead.binders.Nodup ∧ ∃ compiled, (deleteAndRead.compile c).1 = .ok compiled ∧
        compiled.hasUpdates = true ∧ (compiled.evaluate (deleteAndRead.compile c).2).1 = .ok (.one (.integer 5)) := by
  intro c
  refine ⟨fun a b d => ?_, by simp [deleteAndRead, Expr.binders, Expr.bindersAll, Expr.listOf,
    Expr.conditionalOf, Expr.dynamicCallOf, Expr.contextValueOf, Expr.varRefOf, Expr.emptySequence], ?_⟩
  · rw [show keepFirst = ⟨0, none, keepFirst.parameters, keepFirst.body, .anyFunction⟩ from rfl,
      keepFirst_called]
    rfl
  · have ran : (deleteAndRead.compile c).1.toOption.map (fun compiled =>
        (compiled.hasUpdates, (compiled.evaluate (deleteAndRead.compile c).2).1)) =
        some (true, .ok (.one (.integer 5))) := by
      with_unfolding_all rfl
    cases accepted : (deleteAndRead.compile c).1 with
    | error =>
        rw [accepted] at ran
        cases ran
    | ok compiled =>
        rw [accepted] at ran
        have both := Prod.mk.inj (Option.some.inj ran)
        exact ⟨compiled, rfl, both.1, both.2⟩

end QueryKernel
