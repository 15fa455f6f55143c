import QueryKernel.Proofs.Compile.Separate
import QueryKernel.Proofs.Eval.Nested
import QueryKernel.Proofs.Eval.Undeclared
import QueryKernel.Proofs.Mirror.Copies

/-!
# Function items that are met

Evaluation meets function items in literals, in focus and variables, and in what function items that it has met
give.  What others would do makes no difference, so that all conditions are on those of a class: `Calls.Limited`
says that calls of them depend on some variables and set others, and `Enclosed` says the same of their bodies.

Any expression may give a function item, so nothing is known of it where it is called.  That those of a class go
the same way in two contexts is therefore not enough, as others might be called in one of them.  Calls are replaced
twice: by calls that forget all values outside of the class, which go the same way without any condition, and by
calls that give up where there is anything to forget.  When a call is given up, a value outside of the class gets
into a variable, and a condition on the context says that this never happens.
-/

namespace QueryKernel

/-- A class of items with what is inside of maps and arrays.  Calls of its function items stay in the class and put
the focus back, change no variables but some, and go the same way in contexts that agree on what they read. -/
structure Calls.Limited (calls : Calls) (good : Item → Prop) (reads sets : Nat → Prop) : Prop where
  nested : (Kind.shaped good).Nested
  stay : calls.Stay (Kind.shaped good) (Context.Bound good)
  kept : ∀ f arguments c, good (.function f) → arguments.length = f.parameters.length →
    (∀ v ∈ arguments, (Kind.shaped good).value v) → c.Holds good →
    ∀ id, ¬sets id → (calls f arguments c).2.bindings.lookup id = c.bindings.lookup id
  alike : ∀ f arguments c d, good (.function f) → arguments.length = f.parameters.length →
    (∀ v ∈ arguments, (Kind.shaped good).value v) → c.Holds good → d.Holds good →
    ∀ seen : Nat → Prop, (∀ id, reads id → seen id) → c.Mirrors Eq (.variables seen) d →
      Mirrored Eq (.variables seen) Equal (calls f arguments c) (calls f arguments d)

/-- A class of items with what is inside of maps, arrays and the bodies of functions.  Its functions read some
variables besides those that they set themselves, and set others. -/
structure Enclosed (good : Item → Prop) (reads sets : Nat → Prop) : Prop where
  nested : (Kind.shaped good).Nested
  literals : (Kind.shaped good).NestedBodies
  free : ∀ f, good (.function f) → ∀ id ∈ f.body.free, id ∈ f.parameters.map Variable.id ∨ reads id
  bound : (Kind.shaped good).BindsOnly sets

open Classical in
/-- The context without the values that are outside of a class. -/
noncomputable def Context.forget (good : Item → Prop) (c : Context) : Context :=
  { c with
    focus := if c.focus.Holds good then c.focus else .undefined
    bindings := c.bindings.filter fun (id, _) => ∀ v, c.bindings.lookup id = some v → (Kind.shaped good).value v }

open Classical in
/-- A call that is given up leaves a value outside of a class in a variable, if there is one. -/
noncomputable def Eval.giveUp {A : Type} (good : Item → Prop) : Eval A := fun c =>
  (.error .callsTooDeep,
    if outside : ∃ v, ¬(Kind.shaped good).value v then c.bind ⟨0, "", none⟩ outside.choose else c)

/-- What has left a value outside of a class in a variable has been given up. -/
def Excuse.unbound (good : Item → Prop) : Excuse where
  holds _ c := ¬c.Bound good
  located := fun _ given => given
  focused := fun _ given => given

/-- A function item of a class and values of the class that it is called with. -/
structure FunctionItem.Called (good : Item → Prop) (f : FunctionItem Expr) (arguments : List Value) : Prop where
  function : good (.function f)
  values : ∀ v ∈ arguments, (Kind.shaped good).value v

open Classical in
/-- Calls of functions of a class that see values of the class only. -/
noncomputable def Calls.forgetting (calls : Calls) (good : Item → Prop) : Calls := fun f arguments c =>
  if FunctionItem.Called good f arguments then calls f arguments (c.forget good) else Eval.fail .callsTooDeep c

open Classical in
/-- Calls of functions of a class in contexts with values of the class.  All others are given up. -/
noncomputable def Calls.orGiveUp (calls : Calls) (good : Item → Prop) : Calls := fun f arguments c =>
  if FunctionItem.Called good f arguments ∧ c.Holds good then calls f arguments c else Eval.giveUp good c

variable {good : Item → Prop} {reads sets : Nat → Prop} {calls : Calls} {link : Link} {visible : Visible} {e : Expr}

/-! ## Values that are forgotten -/

theorem lookup_filter_fst {B : Type} (p : Nat → Bool) (l : List (Nat × B)) (id : Nat) :
    (l.filter fun entry => p entry.1).lookup id = if p id then l.lookup id else none := by
  induction l with
  | nil => simp
  | cons entry rest rest_ih =>
      obtain ⟨other, found⟩ := entry
      by_cases same : id = other
      · subst same
        cases kept : p id <;> simp [kept, rest_ih]
      · have differs : (id == other) = false := beq_false_of_ne same
        cases kept : p other <;> simp [List.lookup_cons, kept, rest_ih, differs]

open Classical in
theorem Context.forget_lookup (c : Context) (id : Nat) :
    (c.forget good).bindings.lookup id =
      if ∀ v, c.bindings.lookup id = some v → (Kind.shaped good).value v then c.bindings.lookup id else none := by
  unfold Context.forget
  rw [lookup_filter_fst fun id => decide (∀ v, c.bindings.lookup id = some v → (Kind.shaped good).value v)]
  simp only [decide_eq_true_eq]

theorem Context.forget_holds (c : Context) : (c.forget good).Holds good := by
  refine ⟨?_, fun id v found => ?_⟩
  · unfold Context.forget
    split
    · next held => exact held
    · exact fun _ none => by cases none
  · rw [Context.forget_lookup] at found
    split at found
    · next held => exact held v found
    · cases found

open Classical in
theorem Context.Holds.forget_eq {c : Context} (holds : c.Holds good) : c.forget good = c := by
  unfold Context.forget
  have all : ∀ entry ∈ c.bindings,
      decide (∀ v, c.bindings.lookup entry.1 = some v → (Kind.shaped good).value v) = true :=
    fun entry _ => decide_eq_true (holds.bound entry.1)
  rw [if_pos holds.focus]
  exact congrArg (fun bindings => { c with bindings }) (List.filter_eq_self.2 all)

/-- What is forgotten in one context is so in the other. -/
theorem Context.Mirrors.forget {c d : Context} (agree : c.Mirrors link visible d) :
    (c.forget good).Mirrors link visible (d.forget good) where
  focus := fun seen => by rw [Context.forget, Context.forget, agree.focus seen]
  forest := agree.forest
  bindings := fun x y linked seen => by
    rw [Context.forget_lookup, Context.forget_lookup, agree.bindings x y linked seen]
  stop := agree.stop

/-- Calls that see values of the class only go the same way wherever what they read is the same, if they set only
what stands for itself. -/
theorem Calls.Limited.mirror (limited : calls.Limited good reads sets)
    (seen : (Visible.variables reads).Within visible) (linked : ∀ id, reads id → link id id)
    (only : ∀ id, sets id → link.Only id id) : (calls.forgetting good).Mirror link visible := by
  intro f arguments arity
  by_cases called : FunctionItem.Called good f arguments
  · have forgets : calls.forgetting good f arguments = fun c => calls f arguments (c.forget good) :=
      funext fun c => if_pos called
    rw [forgets]
    intro wider within c d agree
    have agree : (c.forget good).Mirrors link wider (d.forget good) := agree.forget
    generalize before : c.forget good = c at agree
    generalize before' : d.forget good = d at agree
    have first : c.Holds good := before ▸ Context.forget_holds _
    have second : d.Holds good := before' ▸ Context.forget_holds _
    have read : ∀ reference, Visible.variables reads reference → wider reference :=
      fun reference read => within _ (seen _ read)
    -- What is linked to itself may be the same in both, though it is not visible.
    let same : Nat → Prop := fun id => d.bindings.lookup id = c.bindings.lookup id
    have start : c.Mirrors Eq (.variables same) d :=
      ⟨fun _ => agree.focus (read .focus trivial), fun _ => agree.forest (read .forest trivial),
        fun x y equal held => equal ▸ held, agree.stop⟩
    have compared := limited.alike f arguments c d called.function arity called.values first second same
      (fun id reading => agree.bindings id id (linked id reading) (read (.variable id) reading)) start
    have kept := limited.kept f arguments c called.function arity called.values first
    have kept' := limited.kept f arguments d called.function arity called.values second
    simp only [before, before']
    generalize calls f arguments c = left at compared kept ⊢
    generalize calls f arguments d = right at compared kept' ⊢
    cases compared with
    | failed alike c' d' => exact .failed alike c' d'
    | @done a b c' d' more grown related after =>
        refine .done (Visible.within_refl wider) related ?_
        refine ⟨fun _ => after.focus (grown .focus trivial), fun _ => after.forest (grown .forest trivial),
          fun x y pair shown => ?_, after.stop⟩
        by_cases set : sets x
        · obtain rfl : y = x := (only x set).right pair
          exact after.bindings y y rfl (grown (.variable y) (agree.bindings y y pair shown))
        · have other : ¬sets y := fun set' => set ((only y set').left pair ▸ set')
          rw [kept x set, kept' y other]
          exact agree.bindings x y pair shown
  · have fails : calls.forgetting good f arguments = Eval.fail .callsTooDeep := funext fun c => if_neg called
    rw [fails]
    exact .fail (.same _)

/-! ## Nothing is given up -/

/-- A call is given up only where there is a value outside of the class. -/
theorem exists_outside (nested : (Kind.shaped good).Nested) {f : FunctionItem Expr} {arguments : List Value}
    {c : Context} (refused : ¬(FunctionItem.Called good f arguments ∧ c.Holds good)) :
    ∃ v, ¬(Kind.shaped good).value v := by
  by_contra none
  have all : ∀ v, (Kind.shaped good).value v := fun v => not_not.1 (not_exists.1 none v)
  refine refused ⟨⟨?_, fun v _ => all v⟩, fun v _ => all v, fun _ v _ => all v⟩
  exact nested.lawful.get? (i := 0) (all (.one (.function f))) rfl

theorem Eval.giveUp_excused {A : Type} (outside : ∃ v, ¬(Kind.shaped good).value v) (c : Context)
    (other : Except Failure A × Context) : Excused (.unbound good) Eq (Eval.giveUp good c) other := by
  refine .excused (fun bound => outside.choose_spec (bound 0 _ ?_)) other
  rw [dif_pos outside, Context.bind, Bindings.lookup_set, if_pos rfl]

theorem orGiveUp_sameUnless (nested : (Kind.shaped good).Nested) {calls' : Calls}
    (same : ∀ f arguments c, FunctionItem.Called good f arguments → c.Holds good →
      calls' f arguments c = calls f arguments c) : (calls.orGiveUp good).SameUnless (.unbound good) calls' := by
  intro f arguments c
  by_cases given : FunctionItem.Called good f arguments ∧ c.Holds good
  · rw [Calls.orGiveUp, if_pos given, same f arguments c given.1 given.2]
    exact Eval.SameUnless.refl _ c
  · rw [Calls.orGiveUp, if_neg given]
    exact Eval.giveUp_excused (exists_outside nested given) c _

theorem orGiveUp_stays (stay : calls.Stay (Kind.shaped good) (Context.Bound good)) :
    (calls.orGiveUp good).Stay (Kind.shaped good) (Context.Bound good) := by
  intro f arguments focus given arity values held c inv
  have taken : FunctionItem.Called good f arguments ∧ c.Holds good := ⟨⟨given, values⟩, inv.focus_eq ▸ held, inv.rest⟩
  rw [Calls.orGiveUp, if_pos taken]
  exact stay f arguments focus given arity values held c inv

/-- In a context with values of the class, other calls with the same outcomes there make no difference. -/
theorem modes_eq_forgetting (nested : (Kind.shaped good).Nested)
    (stay : calls.Stay (Kind.shaped good) (Context.Bound good)) (bears : e.Every (Expr.Bears (Kind.shaped good) True))
    {c : Context} (holds : c.Holds good) :
    (e.modes calls).value c = (e.modes (calls.forgetting good)).value c := by
  have forgetting : (calls.orGiveUp good).SameUnless (.unbound good) (calls.forgetting good) :=
    orGiveUp_sameUnless nested fun f arguments c called holds =>
      (if_pos called).trans (congrArg (calls f arguments) holds.forget_eq)
  have unchanged : (calls.orGiveUp good).SameUnless (.unbound good) calls :=
    orGiveUp_sameUnless nested fun _ _ _ _ _ => rfl
  have same := (Expr.modes_sameUnless unchanged e).value c
  have same' := (Expr.modes_sameUnless forgetting e).value c
  have carried := (Kind.shaped good).carried_bound fun _ => True
  have kept := (Expr.modes_stay nested carried (orGiveUp_stays stay) bears (fun _ _ => trivial) holds.focus).value c
    ⟨rfl, holds.bound⟩
  generalize (e.modes (calls.orGiveUp good)).value c = middle at same same' kept
  generalize (e.modes calls).value c = left at same ⊢
  generalize (e.modes (calls.forgetting good)).value c = right at same' ⊢
  cases same with
  | excused given => exact absurd kept.1.rest given
  | failed failure c' =>
      cases same' with
      | excused given => exact absurd kept.1.rest given
      | failed => rfl
  | done related c' =>
      cases same' with
      | done related' => rw [← related, ← related']

/-! ## Function items with bodies -/

theorem holds_parameters {pairs : List (Variable × Value)} (values : ∀ pair ∈ pairs, (Kind.shaped good).value pair.2)
    {c : Context} (holds : c.Holds good) : (pairs.foldl (fun c (var, value) => c.bind var value) c).Holds good := by
  induction pairs generalizing c with
  | nil => exact holds
  | cons pair rest rest_ih =>
      obtain ⟨here, others⟩ := List.forall_mem_cons.1 values
      exact rest_ih others ⟨holds.focus, bound_bind holds.bound pair.1 here⟩

/-- Calls of function items of a class are limited, if their bodies are. -/
theorem Enclosed.callBody_limited (enclosed : Enclosed good reads sets) (limited : calls.Limited good reads sets) :
    Calls.Limited (callBody calls) good reads sets where
  nested := enclosed.nested
  stay := callBody_stays enclosed.nested enclosed.literals enclosed.bound ((Kind.shaped good).carried_bound sets)
    limited.stay
  kept := fun f arguments c given arity values holds id notSet => by
    let same : Context → Prop := fun d => d.Bound good ∧ d.bindings.lookup id = c.bindings.lookup id
    have carried : (Kind.shaped good).Carried sets same :=
      { bound := fun _ id v inv found => inv.1 id v found
        bind := fun d var v set inv given => by
          refine ⟨bound_bind inv.1 var given, ?_⟩
          have other : id ≠ var.id := fun equal => notSet (equal ▸ set)
          rw [Context.bind, Bindings.lookup_set, if_neg other, inv.2]
        focus := fun _ _ inv => inv
        updates := fun _ _ inv => inv }
    have stay : calls.Stay (Kind.shaped good) same := fun f arguments focus given arity values held d inv => by
      have holds : d.Holds good := ⟨inv.focus_eq ▸ held, inv.rest.1⟩
      obtain ⟨kept, value⟩ := limited.stay f arguments focus given arity values held d ⟨inv.focus_eq, inv.rest.1⟩
      have unset := limited.kept f arguments d given arity values holds id notSet
      exact ⟨⟨kept.focus_eq, kept.rest, unset.trans inv.rest.2⟩, value⟩
    exact (callBody_stays enclosed.nested enclosed.literals enclosed.bound carried stay f arguments c.focus given arity
      values holds.focus c ⟨rfl, holds.bound, rfl⟩).1.rest.2
  alike := fun f arguments c d given arity values first second seen reading agree => by
    have forgets : ∀ c : Context, c.Holds good →
        callBody calls f arguments c = callBody (calls.forgetting good) f arguments c := fun c holds =>
      modes_eq_forgetting enclosed.nested limited.stay (enclosed.literals f given)
        (holds_parameters (fun pair member => values pair.2 (List.of_mem_zip member).2) holds)
    have within : (Visible.variables reads).Within (.variables seen) := by
      rintro (id | _ | _) read
      · exact reading id read
      · trivial
      · trivial
    have mirror : (calls.forgetting good).Mirror Eq (.variables seen) :=
      limited.mirror within (fun _ _ => rfl) fun id _ => Link.only_eq id
    -- The body sees its parameters and what the function reads, and nothing else.
    have refers : f.body.Scoped ((Visible.variables seen).inside f) :=
      Expr.scoped_of_free (.inr trivial) (.inr trivial) fun id member => by
        rcases enclosed.free f given id member with mine | read
        · obtain ⟨p, parameter, rfl⟩ := List.mem_map.1 mine
          exact .inl ⟨p, parameter, rfl⟩
        · exact .inr (reading id read)
    rw [forgets c first, forgets d second]
    exact callBody_mirrors (fun p _ => Link.only_eq p.id)
      (Expr.modes_mirrors (mirror.grow fun _ => .inr) (Expr.alike_refl f.body) refers) arity _
      (Visible.within_refl _) c d agree

theorem Enclosed.callsWithin_limited (enclosed : Enclosed good reads sets) (depth : Nat) :
    (callsWithin depth).Limited good reads sets := by
  induction depth with
  | zero =>
      exact ⟨enclosed.nested, fun _ _ _ _ _ _ _ => .fail, fun _ _ _ _ _ _ _ _ _ => rfl,
        fun _ _ c d _ _ _ _ _ _ _ _ => .failed (.same _) c d⟩
  | succ depth depth_ih => exact enclosed.callBody_limited depth_ih

end QueryKernel
