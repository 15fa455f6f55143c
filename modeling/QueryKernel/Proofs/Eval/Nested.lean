import QueryKernel.Proofs.Compile.Literals
import QueryKernel.Proofs.Eval.Everywhere
import QueryKernel.Proofs.Eval.Operations

/-!
# Evaluation stays in a kind

Literals, variables and focus with values of a kind lead to values of the kind only, whatever functions, maps and
arrays are called on the way.

Any expression may give a function item, so nothing is known of the one that is called.  The kind has to say it
of its items: what is inside of them is of the kind again (`Kind.Nested`, `Kind.NestedBodies`), and calls of them
keep a condition on contexts whose variables are of the kind (`Calls.Stay`, `Kind.Carried`).
-/

namespace QueryKernel

namespace Kind

/-- What is inside of the maps and arrays of a kind is of the kind. -/
structure Nested (k : Kind) : Prop where
  lawful : k.Lawful
  atom : ∀ a, k.item (.atom a)
  node : ∀ n, k.item (.node n)
  entry : ∀ identity entries type, k.item (.map identity entries type) → ∀ entry ∈ entries, k.value entry.2
  member : ∀ identity members type, k.item (.array identity members type) → ∀ v ∈ members, k.value v

/-- The literals in the bodies of the function items of a kind are of the kind. -/
def NestedBodies (k : Kind) : Prop := ∀ f, k.item (.function f) → f.body.Every (Expr.Bears k True)

/-- A focus on a value of a kind, if it is on a value. -/
def Focused (k : Kind) (focus : Focus) : Prop := ∀ v, focus.value = some v → k.value v

/-- A condition that gives variables of a kind, and stays when some of them are bound, whatever focus and updates
are. -/
structure Carried (k : Kind) (sets : Nat → Prop) (R : Context → Prop) : Prop where
  bound : ∀ c id v, R c → c.bindings.lookup id = some v → k.value v
  bind : ∀ c (var : Variable) v, sets var.id → R c → k.value v → R (c.bind var v)
  focus : ∀ c focus, R c → R { c with focus }
  updates : ∀ c updates, R c → R { c with updates }

/-- All variables hold values of a kind. -/
def Bound (k : Kind) (c : Context) : Prop := ∀ id v, c.bindings.lookup id = some v → k.value v

theorem carried_bound (k : Kind) (sets : Nat → Prop) : k.Carried sets k.Bound where
  bound := fun _ id v bound found => bound id v found
  bind := fun c var v _ bound given id w found => by
    rw [Context.bind, Bindings.lookup_set] at found
    split at found
    · cases found
      exact given
    · exact bound id w found
  focus := fun _ _ bound => bound
  updates := fun _ _ bound => bound

/-- Valid values with items of a class. -/
def valid (good : Item → Prop) : Kind where
  item := good
  value := ValueOf.Good good
  builder := ValueBuilder.Good good

theorem valid_lawful (good : Item → Prop) : (valid good).Lawful where
  items := fun given => given.2
  get? := by
    intro v i item given found
    rw [given.1.get?_eq] at found
    exact given.2 item (List.mem_of_getElem? found)
  walk := fun given n => given.1.walk_reads.gives given.2 n
  empty := ValueOf.good_empty
  one := ValueOf.good_one
  range := by
    intro a b v integers made
    refine (ValueOf.range?_holds made).allGood fun item member => ?_
    obtain ⟨i, _, rfl⟩ := List.mem_map.1 member
    exact integers _
  ofItems := fun all => (ValueOf.ofItems_holds _).allGood all
  reverse := fun given => given.1.reverse_holds.allGood fun item member => given.2 item (List.mem_reverse.1 member)
  start := ValueBuilder.good_empty
  addBack := by
    rintro b item ⟨items, collects, all⟩ holds
    refine ⟨_, collects.addBack item, fun other member => ?_⟩
    rcases List.mem_append.1 member with old | new
    · exact all other old
    · rw [List.mem_singleton.1 new]
      exact holds
  addValue := by
    rintro b v grown ⟨items, collects, all⟩ given added
    refine ⟨_, (addValueBounded_collects collects given.1 added).1, fun item member => ?_⟩
    rcases List.mem_append.1 member with old | new
    · exact all item old
    · exact given.2 item new
  freeze := fun holds => holds.freeze

end Kind

/-- Calls of functions of a kind with values of the kind keep a condition and give values of the kind. -/
def Calls.Stay (calls : Calls) (k : Kind) (R : Context → Prop) : Prop :=
  ∀ f arguments focus, k.item (.function f) → arguments.length = f.parameters.length → (∀ v ∈ arguments, k.value v) →
    k.Focused focus → (calls f arguments).Always (At R focus) k.value

variable {k : Kind} {sets : Nat → Prop} {R : Context → Prop} {calls : Calls}

/-- Every way to evaluate an expression with literals of the kind stays in the kind. -/
theorem Expr.modes_stay (nested : k.Nested) (carried : k.Carried sets R) (stay : calls.Stay k R) {e : Expr}
    (bears : e.Every (Bears k True)) (mine : ∀ id ∈ e.binders, sets id) {focus : Focus} (held : k.Focused focus) :
    (e.modes calls).Always (At R focus) k := by
  have lawful := nested.lawful
  have rules : Rules R k.Focused k :=
    { lawful, atom := nested.atom, node := nested.node, setFocus := carried.focus
      focused := fun item position size given v same => by
        cases same
        exact lawful.one given }
  have invokes : ∀ callee arguments focus, k.Focused focus → k.item callee → (∀ v ∈ arguments, k.value v) →
      (invoke calls callee arguments).Always (At R focus) k.value := by
    intro callee arguments focus held given values
    refine invoke_always lawful.empty ?_ ?_ ?_
    · rintro f rfl arity
      exact stay f arguments focus given arity values held
    · rintro identity entries type rfl
      exact nested.entry identity entries type given
    · rintro identity members type rfl
      exact nested.member identity members type given
  -- All that a node looks up, binds or calls is of the kind.
  have observes : e.Every (Observes R k.Focused k calls) := by
    refine bears.mono fun s inside here => ?_
    have own : ∀ id ∈ s.binders, sets id := fun id bound => mine id ((binders_inside inside).subset bound)
    cases s with
    | literal v => exact here
    | contextValue type location => exact fun focus v held same => held v same
    | varRef var type location => exact fun c v inv found => carried.bound c _ v inv found
    | letIn var bound body location =>
        exact fun c v inv given => carried.bind c var v (own _ (binders_variable rfl)) inv given
    | forIn var source body type location =>
        exact fun c item inv given => carried.bind c var _ (own _ (binders_variable rfl)) inv (lawful.one given)
    | delete target location => exact fun c n inv => carried.updates c _ inv
    | call f arguments type location =>
        exact fun _ callee focus held given a b left right =>
          invokes callee [a, b] focus held given (List.forall_mem_cons.2 ⟨left, List.forall_mem_singleton.2 right⟩)
    | dynamicCall callee arguments type location =>
        exact fun callee arguments focus held given values => invokes callee arguments focus held given values
    | _ => trivial
  exact modes_always rules observes held

/-- The variables that function items of a kind bind are among those set. -/
def Kind.BindsOnly (k : Kind) (sets : Nat → Prop) : Prop :=
  ∀ f, k.item (.function f) → ∀ id ∈ f.parameters.map Variable.id ++ f.body.binders, sets id

theorem callBody_stays (nested : k.Nested) (bodies : k.NestedBodies) (binds : k.BindsOnly sets)
    (carried : k.Carried sets R) (stay : calls.Stay k R) : Calls.Stay (callBody calls) k R := by
  intro f arguments focus given arity values held
  refine callBody_always (fun pair member c inv => ⟨inv.focus_eq, ?_⟩) (Expr.modes_stay nested carried stay
    (bodies f given) (fun id bound => binds f given id (List.mem_append_right _ bound)) held).value
  obtain ⟨parameter, argument⟩ := List.of_mem_zip member
  exact carried.bind c pair.1 pair.2 (binds f given _ (List.mem_append_left _ (List.mem_map_of_mem parameter)))
    inv.rest (values pair.2 argument)

theorem callsWithin_stay (nested : k.Nested) (bodies : k.NestedBodies) (binds : k.BindsOnly sets)
    (carried : k.Carried sets R) (depth : Nat) : (callsWithin depth).Stay k R := by
  induction depth with
  | zero => exact fun _ _ _ _ _ _ _ => .fail
  | succ depth depth_ih => exact callBody_stays nested bodies binds carried depth_ih

end QueryKernel
