import QueryKernel.Eval.Run
import QueryKernel.Proofs.Expr.Parts
import QueryKernel.Proofs.Value.Shape

/-!
# Trees built with the constructors

The trees, items and contexts that a query can meet: each node has the static type that its constructor
gives it, all variables of one number have one declared type, values are valid, and what is inside
function items, maps and arrays is of the same kind.

## Definitions

* `Expr.Built` is about trees, given the items that may occur in literals.
* `ClosedClass` says that a class of items is closed under taking apart its members, and
  `ItemOf.WellFormed` that an item belongs to such a class.
* `Context.Sound` is about contexts: focus and variables hold such items, declared types are
  respected, and there is no reason to stop.
-/

namespace QueryKernel

/-- The declared types of variables, by number. -/
abbrev Declarations := Nat → Option SequenceType

/-- A valid value of items of a class. -/
def ValueOf.Good (good : Item → Prop) (v : Value) : Prop := v.Valid ∧ ∀ item ∈ v.items, good item

/-- The variable is the one that was declared under its number. -/
def Variable.Agrees (declared : Declarations) (var : Variable) : Prop := var.declared = declared var.id

/-- Trees made with the constructors from literals with items of a class. -/
inductive Expr.Built (declared : Declarations) (good : Item → Prop) : Expr → Prop where
  | literal {v : Value} (value : v.Good good) : Built declared good (.literal v)
  | list {operands : List Expr} {location : Option Location}
      (parts : ∀ e ∈ operands, Built declared good e) : Built declared good (.listOf operands location)
  | range {first last : Expr} {location : Option Location} (low : Built declared good first)
      (high : Built declared good last) : Built declared good (.rangeOf first last location)
  | arithmetic {op : Operator} {a b : Expr} {location : Option Location} (left : Built declared good a)
      (right : Built declared good b) : Built declared good (.arithmeticOf op a b location)
  | comparison {op : Comparison} {a b : Expr} {location : Option Location}
      (left : Built declared good a) (right : Built declared good b) :
      Built declared good (.comparisonOf op a b location)
  | conditional {test yes no : Expr} {location : Option Location} (condition : Built declared good test)
      (positive : Built declared good yes) (negative : Built declared good no) :
      Built declared good (.conditionalOf test yes no location)
  | contextValue {location : Option Location} : Built declared good (.contextValueOf location)
  | root {location : Option Location} : Built declared good (.root location)
  | documents {source : DataSource} {location : Option Location} :
      Built declared good (.documents source location)
  | filter {base : Expr} {predicates : List Expr} {location : Option Location}
      (input : Built declared good base) (conditions : ∀ e ∈ predicates, Built declared good e) :
      Built declared good (.filterOf base predicates location)
  | letIn {var : Variable} {bound body : Expr} {location : Option Location}
      (agrees : var.Agrees declared) (value : Built declared good bound)
      (result : Built declared good body) : Built declared good (.letIn var bound body location)
  | forIn {var : Variable} {source body : Expr} {location : Option Location}
      (agrees : var.Agrees declared) (input : Built declared good source)
      (result : Built declared good body) : Built declared good (.forOf var source body location)
  | varRef {var : Variable} {location : Option Location} (agrees : var.Agrees declared) :
      Built declared good (.varRefOf var location)
  | call {f : BuiltIn} {arguments : List Expr} {location : Option Location}
      (takes : f.takes arguments.length = true) (parts : ∀ e ∈ arguments, Built declared good e) :
      Built declared good (.call f arguments (f.resultType arguments) location)
  | deferred {error : Error} {type : StaticType} {location : Option Location} :
      Built declared good (.deferred error type location)
  | dynamicCall {callee : Expr} {arguments : List Expr} {location : Option Location}
      (function : Built declared good callee) (parts : ∀ e ∈ arguments, Built declared good e) :
      Built declared good (.dynamicCallOf callee arguments location)
  | delete {target : Expr} {location : Option Location} (input : Built declared good target) :
      Built declared good (.delete target location)

/-- A class of items that has all atoms and nodes, and for each map or array what is inside. -/
structure ItemClass (good : Item → Prop) : Prop where
  atom : ∀ a, good (.atom a)
  node : ∀ n, good (.node n)
  entry : ∀ identity entries type, good (.map identity entries type) →
    ∀ entry ∈ entries, entry.2.Good good
  member : ∀ identity members type, good (.array identity members type) →
    ∀ v ∈ members, v.Good good

/-- A class of items with what is inside function items as well.  Parameters of functions have no declared type. -/
structure ClosedClass (declared : Declarations) (good : Item → Prop) : Prop extends ItemClass good where
  parameter : ∀ f, good (.function f) → ∀ p ∈ f.parameters, declared p.id = none
  body : ∀ f, good (.function f) → f.body.Built declared good

/-- The item belongs to some closed class. -/
def ItemOf.WellFormed (declared : Declarations) (item : Item) : Prop :=
  ∃ good, ClosedClass declared good ∧ good item

theorem ValueOf.Good.mono {good wider : Item → Prop} {v : Value} (holds : v.Good good)
    (implies : ∀ item, good item → wider item) : v.Good wider :=
  ⟨holds.1, fun item member => implies item (holds.2 item member)⟩

theorem Expr.Built.mono {declared : Declarations} {good wider : Item → Prop} {e : Expr}
    (built : e.Built declared good) (implies : ∀ item, good item → wider item) :
    e.Built declared wider := by
  induction built with
  | literal value => exact .literal (value.mono implies)
  | list _ parts_ih => exact .list parts_ih
  | range _ _ low_ih high_ih => exact .range low_ih high_ih
  | arithmetic _ _ left_ih right_ih => exact .arithmetic left_ih right_ih
  | comparison _ _ left_ih right_ih => exact .comparison left_ih right_ih
  | conditional _ _ _ condition_ih positive_ih negative_ih =>
      exact .conditional condition_ih positive_ih negative_ih
  | contextValue => exact .contextValue
  | root => exact .root
  | documents => exact .documents
  | filter _ _ input_ih conditions_ih => exact .filter input_ih conditions_ih
  | letIn agrees _ _ value_ih result_ih => exact .letIn agrees value_ih result_ih
  | forIn agrees _ _ input_ih result_ih => exact .forIn agrees input_ih result_ih
  | varRef agrees => exact .varRef agrees
  | call takes _ parts_ih => exact .call takes parts_ih
  | deferred => exact .deferred
  | dynamicCall _ _ function_ih parts_ih => exact .dynamicCall function_ih parts_ih
  | delete _ input_ih => exact .delete input_ih

/-- What such a tree is made of is such a tree, at any depth. -/
theorem Expr.Built.every {declared : Declarations} {good : Item → Prop} {e : Expr}
    (built : e.Built declared good) : e.Every (Expr.Built declared good) := by
  induction built with
  | literal value => exact .node (.literal value) fun _ member => by cases member
  | contextValue => exact .node .contextValue fun _ member => by cases member
  | root => exact .node .root fun _ member => by cases member
  | documents => exact .node .documents fun _ member => by cases member
  | varRef agrees => exact .node (.varRef agrees) fun _ member => by cases member
  | deferred => exact .node .deferred fun _ member => by cases member
  | list built parts_ih => exact .node (.list built) parts_ih
  | call takes built parts_ih => exact .node (.call takes built) parts_ih
  | range low high left_ih right_ih => exact .node (.range low high) (Expr.forall_pair left_ih right_ih)
  | arithmetic left right left_ih right_ih => exact .node (.arithmetic left right) (Expr.forall_pair left_ih right_ih)
  | comparison left right left_ih right_ih => exact .node (.comparison left right) (Expr.forall_pair left_ih right_ih)
  | letIn agrees value result left_ih right_ih =>
      exact .node (.letIn agrees value result) (Expr.forall_pair left_ih right_ih)
  | forIn agrees input result left_ih right_ih =>
      exact .node (.forIn agrees input result) (Expr.forall_pair left_ih right_ih)
  | conditional condition positive negative condition_ih positive_ih negative_ih =>
      exact .node (.conditional condition positive negative)
        (List.forall_mem_cons.2 ⟨condition_ih, Expr.forall_pair positive_ih negative_ih⟩)
  | filter input conditions first_ih others_ih =>
      exact .node (.filter input conditions) (List.forall_mem_cons.2 ⟨first_ih, others_ih⟩)
  | dynamicCall function built first_ih others_ih =>
      exact .node (.dynamicCall function built) (List.forall_mem_cons.2 ⟨first_ih, others_ih⟩)
  | delete input input_ih => exact .node (.delete input) (List.forall_mem_singleton.2 input_ih)

/-- Atoms and nodes alone are a closed class. -/
theorem closedClass_plain (declared : Declarations) :
    ClosedClass declared fun item => match item with
      | .atom _ => True
      | .node _ => True
      | _ => False :=
  ⟨⟨fun _ => trivial, fun _ => trivial, fun _ _ _ impossible => impossible.elim,
    fun _ _ _ impossible => impossible.elim⟩, fun _ impossible => impossible.elim,
    fun _ impossible => impossible.elim⟩

/-- The well-formed items are the largest closed class. -/
theorem closedClass_wellFormed (declared : Declarations) :
    ClosedClass declared (ItemOf.WellFormed declared) := by
  refine ⟨⟨?_, ?_, ?_, ?_⟩, ?_, ?_⟩
  · exact fun a => ⟨_, closedClass_plain declared, trivial⟩
  · exact fun n => ⟨_, closedClass_plain declared, trivial⟩
  · rintro identity entries type ⟨good, closed, holds⟩ entry member
    exact (closed.entry identity entries type holds entry member).mono
      fun item given => ⟨good, closed, given⟩
  · rintro identity members type ⟨good, closed, holds⟩ v member
    exact (closed.member identity members type holds v member).mono
      fun item given => ⟨good, closed, given⟩
  · rintro f ⟨good, closed, holds⟩ p member
    exact closed.parameter f holds p member
  · rintro f ⟨good, closed, holds⟩
    exact (closed.body f holds).mono fun item given => ⟨good, closed, given⟩

/-- Focus and variables hold items of a class, the declared types of variables allow the sizes of their
values, and there is no reason to stop. -/
structure Context.Sound (declared : Declarations) (good : Item → Prop) (c : Context) : Prop where
  focus : ∀ v, c.focus.value = some v → v.Good good
  value : ∀ id v, c.bindings.lookup id = some v → v.Good good
  fits : ∀ id v, c.bindings.lookup id = some v → ∀ type, declared id = some type →
    type.occurrence.allows v.size = true
  runs : c.stopCause? = none

/-- Without focus and variables a context is sound. -/
theorem sound_of_unbound {declared : Declarations} {good : Item → Prop} {c : Context} (focus : c.focus.value = none)
    (bindings : c.bindings = []) (runs : c.stopCause? = none) : c.Sound declared good := by
  have nothing : ∀ {id v}, c.bindings.lookup id ≠ some v := by simp [bindings]
  exact ⟨fun v found => absurd (focus.symm.trans found) (Option.some_ne_none v).symm,
    fun _ _ found => absurd found nothing, fun _ _ found => absurd found nothing, runs⟩

end QueryKernel
