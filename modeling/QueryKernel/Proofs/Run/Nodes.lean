import QueryKernel.Proofs.Expr.Parts
import QueryKernel.Proofs.Meaning.Constructors
import QueryKernel.Proofs.Run.Decided
import QueryKernel.Proofs.Run.Sums

/-!
# Nodes that follow an outcome

Each way to evaluate a node gives what the meaning says if this is so of its parts.

Contexts change on the way: a part is evaluated after others have bound their variables, so that an environment
has to describe a context only as far as the part can see.
-/

namespace QueryKernel

/-! ## Environments and contexts -/

namespace Visible

variable {visible : Visible} {id : Nat}

theorem focus_of_add (seen : visible.add id .focus) : visible .focus := by simpa [add] using seen

theorem forest_of_add (seen : visible.add id .forest) : visible .forest := by simpa [add] using seen

theorem variable_of_add {other : Nat} (seen : visible.add id (.variable other)) :
    other = id ∨ visible (.variable other) := by simpa [add] using seen

theorem forest_of_focused (seen : visible.focused .forest) : visible .forest := by
  simpa [focused] using seen

theorem variable_of_focused (seen : visible.focused (.variable id)) : visible (.variable id) := by
  simpa [focused] using seen

theorem Apart.fewer {ids more : List Nat} (apart : visible.Apart more) (subset : ids ⊆ more) :
    visible.Apart ids := fun id member => apart id (subset member)

theorem including_mono {ids more : List Nat} (subset : ids ⊆ more) (reference : Reference)
    (seen : visible.including ids reference) : visible.including more reference :=
  seen.imp_right fun ⟨id, member, same⟩ => ⟨id, subset member, same⟩

theorem add_apart {ids : List Nat} (apart : visible.Apart ids) (foreign : id ∉ ids) :
    (visible.add id).Apart ids := by
  intro other member seen
  rcases variable_of_add seen with rfl | before
  · exact foreign member
  · exact apart other member before

theorem focused_apart {ids : List Nat} (apart : visible.Apart ids) : visible.focused.Apart ids :=
  fun other member seen => apart other member (variable_of_focused seen)

theorem including_apart {own ids : List Nat} (apart : visible.Apart ids) (disjoint : ∀ id ∈ own, id ∉ ids) :
    (visible.including own).Apart ids := by
  rintro id member (before | ⟨other, mine, same⟩)
  · exact apart id member before
  · cases same
    exact disjoint id mine member

/-- What the body of a binding sees, with what it binds itself. -/
theorem including_add {own ids : List Nat} (inside : id ∈ ids) (subset : own ⊆ ids) (reference : Reference)
    (seen : (visible.add id).including own reference) : visible.including ids reference := by
  rcases seen with (rfl | before) | ⟨other, mine, rfl⟩
  · exact .inr ⟨id, inside, rfl⟩
  · exact .inl before
  · exact .inr ⟨other, subset mine, rfl⟩

end Visible

/-- The environment says what a context has, as far as that is visible. -/
structure Env.Describes (visible : Visible) (env : Env) (c : Context) : Prop where
  focus : visible .focus → ∀ v, c.focus.value = some v → v.Is env.focus
  forest : visible .forest → env.root = c.forest.root
  values : ∀ id, visible (.variable id) → ∀ v, c.bindings.lookup id = some v → v.Is (env.values id)

theorem is_one (item : Item) : (ValueOf.one item).Is (.one item) :=
  ValueOf.Shaped.isSequence trivial rfl rfl

/-- A value that is a sequence is any other sequence with at least its obligations. -/
theorem ValueOf.Is.weaken {v : Value} {s : Sequence} {items : List Item} {compact : Bool}
    (same : v.Is ⟨items, compact⟩) (given : s.From items compact) : v.Is s :=
  ⟨same.shaped, given.items_eq.trans same.items_eq, fun range => given.compact_of (same.holds.compact_of range)⟩

namespace Env

variable {visible : Visible} {env : Env} {c c' : Context}

theorem Describes.alike (describes : env.Describes visible c) (alike : c.Alike visible c') :
    env.Describes visible c' := by
  refine ⟨fun seen v found => ?_, fun seen => ?_, fun id seen v found => ?_⟩
  · rw [alike.focus seen] at found
    exact describes.focus seen v found
  · rw [alike.forest seen]
    exact describes.forest seen
  · rw [alike.bindings id seen] at found
    exact describes.values id seen v found

theorem Describes.bind (describes : env.Describes visible c) (var : Variable) {v : Value} {s : Sequence}
    (same : v.Is s) : (env.set var.id s).Describes (visible.add var.id) (c.bind var v) := by
  refine ⟨fun seen => describes.focus (Visible.focus_of_add seen),
    fun seen => describes.forest (Visible.forest_of_add seen), fun id seen w found => ?_⟩
  rw [Context.bind, Bindings.lookup_set] at found
  by_cases equal : id = var.id
  · rw [if_pos equal] at found
    cases found
    rw [equal, Env.set_same]
    exact same
  · rw [if_neg equal] at found
    rw [Env.set_other _ _ equal]
    exact describes.values id ((Visible.variable_of_add seen).resolve_left equal) w found

theorem Describes.focusOn (describes : env.Describes visible c) (item : Item) (position size : Nat) :
    (env.focusOn item).Describes visible.focused (c.focusOn item position size) := by
  refine ⟨fun _ v found => ?_, fun seen => describes.forest (Visible.forest_of_focused seen),
    fun id seen => describes.values id (Visible.variable_of_focused seen)⟩
  cases found
  exact is_one item

theorem Describes.inside {ids : List Nat} {d : Context} (describes : env.Describes visible c)
    (apart : visible.Apart ids) (inside : c.Inside ids d) (item : Item) (position size : Nat) :
    (env.focusOn item).Describes visible.focused (d.focusOn item position size) :=
  (describes.alike (inside.alike apart)).focusOn item position size

end Env

/-! ## Expressions -/

namespace Expr

/-- All ways to evaluate an expression agree with its outcomes, wherever the environment describes the
context and numbers in predicates are decided as evaluation does. -/
def Agrees (numbers : Numbers) (calls : Calls) (visible : Visible) (e : Expr) : Prop :=
  ∀ env c s updates, env.Describes visible c → e.Fits env → e.Decided numbers calls visible c →
    e.outcomes numbers env s updates →
      (e.modes calls).Follows (visible.including e.binders) e.binders c s updates

variable {numbers : Numbers} {calls : Calls} {visible : Visible} {compiled : Bool} {e : Expr}
  {es : List Expr} {ids : List Nat} {env : Env} {c c₀ : Context} {s : Sequence} {items : List Item}
  {updates : List PendingUpdate}

theorem Agrees.operand (agrees : e.Agrees numbers calls visible) (subset : e.binders ⊆ ids)
    (describes : env.Describes visible c) (fits : e.Fits env) (decided : e.Decided numbers calls visible c)
    (given : e.outcomes numbers env s updates) :
    (e.modes calls).Follows (visible.including ids) ids c s updates :=
  (agrees env c s updates describes fits decided given).mono (Visible.including_mono subset) subset

/-- Outcomes of every kind are plain, as the freest are. -/
theorem Placed.plain (placed : e.Placed compiled visible) (fits : e.Fits env)
    (given : e.outcomes numbers env s updates) :
    e.staticType.Allows s.items.length ∧ AllPlain s.items :=
  fits.typed s updates (placed.within numbers.implies_free (env.carries_self visible) s updates given)

theorem Placed.free (placed : e.Placed compiled visible) (given : e.outcomes numbers env s updates) :
    e.outcomes .free env s updates :=
  placed.within numbers.implies_free (env.carries_self visible) s updates given

/-! ## Sequences -/

theorem pullAll_follows (apart : visible.Apart ids) (subset : bindersAll es ⊆ ids)
    (each : ∀ e ∈ es, e.Agrees numbers calls visible) (fits : FitsAll es env)
    (given : outcomesAll numbers es env items updates) (describes : env.Describes visible c₀)
    (decided : DecidedAll numbers calls es visible c₀) (alike : c₀.Alike visible c) :
    (Stream.pullAll ((modesAll calls es).map (·.stream)) c).Follows (visible.including ids) ids c items
      updates := by
  induction es generalizing c items updates with
  | nil =>
      obtain ⟨rfl, rfl⟩ := given
      exact ⟨rfl, Context.leads_refl _ _⟩
  | cons e rest rest_ih =>
      obtain ⟨s, firstUpdates, others, otherUpdates, first, later, rfl, rfl⟩ := given
      have mine : e.binders ⊆ ids := fun id member => subset (List.mem_append_left _ member)
      have theirs : bindersAll rest ⊆ ids := fun id member => subset (List.mem_append_right _ member)
      have follows := (each e List.mem_cons_self).operand mine (describes.alike alike) fits.1
        (decided.1.alike alike) first
      simp only [modesAll, List.map_cons, Stream.pullAll]
      cases started : (e.modes calls).stream c with
      | mk result c₁ =>
          cases result with
          | error e => trivial
          | ok stream =>
              obtain ⟨now, behind, rfl, led, inside⟩ := follows.stream stream c₁ started
              have pulled := inside.pull c₁ (Context.alike_refl _ _)
              have before : c₀.Alike visible c₁ := alike.trans (led.alike apart)
              have joined := pulled.andThen before (fun _ => id) (fun _ => Or.inl) (fun _ => id) apart
                fun c₂ near =>
                  rest_ih theirs (fun other member => each other (List.mem_cons_of_mem _ member)) fits.2
                    later decided.2 near
              rw [List.append_assoc]
              exact joined.after led

theorem foldValues_gives (apart : visible.Apart ids) (subset : bindersAll es ⊆ ids)
    (each : ∀ e ∈ es, e.Agrees numbers calls visible) (fits : FitsAll es env)
    (given : outcomesAll numbers es env items updates) (describes : env.Describes visible c)
    (decided : DecidedAll numbers calls es visible c) {builder : ValueBuilder Expr} {before : List Item}
    (gathers : builder.Gathers before) :
    (Eval.foldList (fun (b : ValueBuilder Expr) (m : Modes) => do
      Eval.checkStop
      let v ← m.value
      Eval.ofFaulty (b.addValueBounded v)) builder (modesAll calls es)).Gives ids c updates
        (·.Gathers (before ++ items)) := by
  induction es generalizing c items updates builder before with
  | nil =>
      obtain ⟨rfl, rfl⟩ := given
      rw [List.append_nil]
      exact .pure gathers
  | cons e rest rest_ih =>
      obtain ⟨s, firstUpdates, others, otherUpdates, first, later, rfl, rfl⟩ := given
      have mine : e.binders ⊆ ids := fun id member => subset (List.mem_append_left _ member)
      have theirs : bindersAll rest ⊆ ids := fun id member => subset (List.mem_append_right _ member)
      rw [modesAll, Eval.foldList_cons, ← List.append_assoc]
      refine .bind (P := (·.Gathers (before ++ s.items))) (Eval.Gives.checkStop.andThen fun _ c₁ _ _ led => ?_)
        fun grown c₁ _ gathered led => ?_
      · have follows := (each e List.mem_cons_self).operand mine (describes.alike (led.alike apart)) fits.1
          (decided.1.alike (led.alike apart)) first
        refine follows.value.followed fun v c₂ _ same _ => .ofFaulty fun grown added => ?_
        rw [same.items_eq]
        exact gathers.addValueBounded same.shaped added
      · exact rest_ih theirs (fun other member => each other (List.mem_cons_of_mem _ member)) fits.2 later
          (describes.alike (led.alike apart)) (decidedAll_iff.2 fun other member =>
            (decidedAll_iff.1 decided.2 other member).alike (led.alike apart)) gathered

theorem list_follows {type : StaticType} {location : Option Location} (apart : visible.Apart (bindersAll es))
    (each : ∀ e ∈ es, e.Agrees numbers calls visible) :
    (list es type location).Agrees numbers calls visible := by
  rintro env c s updates describes ⟨_, fits⟩ decided ⟨items, given, same⟩
  refine Modes.Follows.withValue (.ofStream ?_) ?_
  · intro stream c' started
    obtain ⟨rfl, rfl⟩ := Eval.pure_ok_iff.1 started
    rw [same.items_eq]
    refine ⟨[], updates, rfl, Context.leads_refl _ _, fun n none => (by cases none), fun c₁ alike => ?_⟩
    exact pullAll_follows apart (fun _ => id) each fits given describes decided (alike.fewer fun _ => .inl)
  · refine (foldValues_gives apart (fun _ => id) each fits given describes decided
      ValueBuilder.empty_gathers).finish fun b gathered => gathered.is same.items_eq

/-! ## Choices and references -/

theorem conditional_follows {test yes no : Expr} {type : StaticType} {location : Option Location}
    (apart : visible.Apart (conditional test yes no type location).binders)
    (condition : test.Agrees numbers calls visible) (positive : yes.Agrees numbers calls visible)
    (negative : no.Agrees numbers calls visible) :
    (conditional test yes no type location).Agrees numbers calls visible := by
  rintro env c s updates describes ⟨_, testFits, yesFits, noFits⟩ decided ⟨t, tested, either⟩
  have own : test.binders ⊆ (conditional test yes no type location).binders := List.subset_append_left _ _
  have first := condition.operand own describes testFits decided.1 tested
  -- The branch that is taken follows the outcome in any context that the test leads to.
  have branch : ∀ held c', (test.modes calls).boolean c = (.ok held, c') → truth t.items = held →
      c.Leads (conditional test yes no type location).binders c' [] →
      (if held then yes.modes calls else no.modes calls).Follows
        (visible.including (conditional test yes no type location).binders)
        (conditional test yes no type location).binders c' s updates := by
    intro held c' ran same led
    have reached := decided.2 c held c' (Context.alike_refl _ _) ran
    have later := describes.alike (led.alike apart)
    rcases either with ⟨holds, given⟩ | ⟨fails, given⟩
    · rw [holds] at same
      subst same
      exact positive.operand (fun id member => List.mem_append_right _ (List.mem_append_left _ member))
        later yesFits (reached.alike (led.alike apart)) given
    · rw [fails] at same
      subst same
      exact negative.operand (fun id member => List.mem_append_right _ (List.mem_append_right _ member))
        later noFits (reached.alike (led.alike apart)) given
  refine ⟨.after first.boolean fun held c' ran same led => ?_,
    first.boolean.andThen fun held c' ran same led => ?_, first.boolean.andThen fun held c' ran same led => ?_,
    fun none => first.boolean.andThen fun held c' ran same led => ?_⟩
  · have taken := (branch held c' ran same led).stream
    cases held <;> exact taken
  · have taken := (branch held c' ran same led).item
    cases held <;> exact taken
  · have taken := (branch held c' ran same led).value
    cases held <;> exact taken
  · have taken := (branch held c' ran same led).booleanItem none
    cases held <;> exact taken

theorem contextValue_gives {description : String} {location : Option Location} {focus : Sequence}
    (known : ∀ v, c.focus.value = some v → v.Is focus) (same : s.From focus.items focus.compact) :
    (QueryKernel.contextValue description location).Gives ids c [] (·.Is s) := by
  intro v c' ran
  obtain ⟨d, c₁, asked, found⟩ := Eval.bind_ok_iff.1 ran
  obtain ⟨rfl, rfl⟩ := Eval.context_ok_iff.1 asked
  cases value : c₁.focus.value with
  | none =>
      rw [value] at found
      exact (Eval.raise_ok_iff.1 found).elim
  | some w =>
      rw [value] at found
      obtain ⟨rfl, rfl⟩ := Eval.pure_ok_iff.1 found
      exact ⟨(known _ value).weaken same, Context.leads_refl _ _⟩

theorem contextValue_follows {type : StaticType} {location : Option Location} (seen : visible .focus) :
    (contextValue type location).Agrees numbers calls visible := by
  rintro env c s updates describes _ _ ⟨same, rfl⟩
  exact .ofValue (contextValue_gives (describes.focus seen) same)

theorem root_follows {location : Option Location} (seen : visible .focus) (around : visible .forest) :
    (root location).Agrees numbers calls visible := by
  rintro env c s updates describes _ _ ⟨same, rfl⟩
  refine .ofValue ?_
  have whole : env.focus.From env.focus.items env.focus.compact := ⟨rfl, id⟩
  refine (contextValue_gives (describes.focus seen) whole).andThen fun v c₁ _ given led => ?_
  refine .andThen (P := fun d => d.forest = c.forest) (fun d c₂ asked => ?_) fun d c₂ _ forest _ => ?_
  · obtain ⟨rfl, rfl⟩ := Eval.context_ok_iff.1 asked
    exact ⟨led.forest, Context.leads_refl _ _⟩
  · split
    · next roots found =>
        have all := distinctRoots_eq given.shaped found
        rw [forest, ← describes.forest around, ← given.items_eq] at all
        rw [all] at same
        exact .pure (ofItems_is same.items_eq)
    · exact .raise

theorem documents_follows {source : DataSource} {location : Option Location} :
    (documents source location).Agrees numbers calls visible := by
  rintro env c s updates _ _ _ ⟨same, rfl⟩
  refine .ofValue (Eval.Gives.checkStop.andThen fun _ _ _ _ _ => .pure ?_)
  exact (ValueBuilder.empty_gathers.addAll _).is same.items_eq

theorem varRef_follows {var : Variable} {type : StaticType} {location : Option Location}
    (seen : visible (.variable var.id)) : (varRef var type location).Agrees numbers calls visible := by
  rintro env c s updates describes _ _ ⟨same, rfl⟩
  refine .ofValue fun v c' ran => ?_
  obtain ⟨d, c₁, asked, found⟩ := Eval.bind_ok_iff.1 ran
  obtain ⟨rfl, rfl⟩ := Eval.context_ok_iff.1 asked
  cases value : c₁.lookup? var with
  | none =>
      rw [value] at found
      exact (Eval.raise_ok_iff.1 found).elim
  | some w =>
      rw [value] at found
      obtain ⟨rfl, rfl⟩ := Eval.pure_ok_iff.1 found
      exact ⟨(describes.values var.id seen _ value).weaken same, Context.leads_refl _ _⟩

/-! ## Filters -/

theorem test_gives (agrees : e.Agrees numbers calls visible.focused) (subset : e.binders ⊆ ids)
    (apart : visible.Apart ids) (describes : env.Describes visible c) {item : Item} {position size : Nat}
    (fits : e.Fits (env.focusOn item)) {held : Bool} {d : Context} (inside : c.Inside ids d)
    (decided : e.Decided numbers calls visible.focused (d.focusOn item position size))
    (decides : e.Decides numbers calls (d.focusOn item position size))
    (given : e.outcomes numbers (env.focusOn item) s []) (may : MayHold numbers s.items position held) :
    (e.modes calls).test.Gives ids (d.focusOn item position size) [] (·.isSome = held) := by
  have follows := agrees.operand subset (describes.inside apart inside item position size) fits decided given
  exact (follows.test fun a c' ran numeric held => decides a c' ran numeric _ held).weaken
    fun found same => same held may

theorem passAll_gives (apart : visible.Apart ids) (subset : bindersAll es ⊆ ids)
    (each : ∀ e ∈ es, e.Agrees numbers calls visible.focused) (describes : env.Describes visible c)
    {all : List Item} (fits : ∀ item ∈ all, FitsAll es (env.focusOn item)) {v w : Value} {t : Sequence}
    (decided : DecidedOn numbers calls es visible v c) (same : v.Is t) (within : t.items ⊆ all)
    (passed : passes numbers es env t.items items) {d d' : Context} (inside : c.Inside ids d)
    (ran : passAll ((es.map (·.position?)).zip (modesAll calls es)) v d = (.ok w, d')) :
    w.Is ⟨items, es.isEmpty && t.compact⟩ ∧ c.Inside ids d' := by
  induction es generalizing v t d items with
  | nil =>
      cases ran
      rw [show items = t.items from passed]
      exact ⟨same, inside⟩
  | cons e rest rest_ih =>
      obtain ⟨passing, now, later⟩ := passed
      obtain ⟨reached, next⟩ := decided
      have mine : e.binders ⊆ ids := fun id member => subset (List.mem_append_left _ member)
      have theirs : bindersAll rest ⊆ ids := fun id member => subset (List.mem_append_right _ member)
      rw [modesAll, List.map_cons, List.zip_cons_cons, passAll, Eval.foldList_cons] at ran
      obtain ⟨v₁, d₁, stepped, goingOn⟩ := Eval.bind_ok_iff.1 ran
      have alone : passAll [(e.position?, e.modes calls)] v d = (.ok v₁, d₁) := by
        rw [passAll, Eval.foldList_cons, Eval.bind_apply, stepped]
        rfl
      -- What the first predicate leaves, and in which context the next one starts.
      have step : v₁.Is ⟨passing, false⟩ ∧ c.Inside ids d₁ := by
        cases position : e.position? with
        | some p =>
            rw [position] at stepped now
            obtain ⟨selected, rfl⟩ := Eval.ofFaulty_ok_iff.1 stepped
            rw [show passing = selectAt t.items p from now, same.items_eq]
            exact ⟨selectPosition_is same.shaped selected, inside⟩
        | none =>
            rw [position] at stepped now
            refine selectWhere_gives ?_ same.shaped same.items_eq.symm rfl now inside stepped
            rintro k item held found ⟨s, given, may⟩ d inside
            have member := List.mem_of_getElem? found
            obtain ⟨decided, decides⟩ := reached d item (k + 1) v.size (inside.alike apart)
              (same.items_eq ▸ member)
            exact test_gives (each e List.mem_cons_self) mine apart describes (fits item (within member)).1 inside
              decided (decides position) given may
      have final := rest_ih theirs (fun other member => each other (List.mem_cons_of_mem _ member))
        (fun item member => (fits item member).2) (next d v₁ d₁ (inside.alike apart) alone) step.1
        (fun item member => within (now.sublist.subset member)) later step.2 goingOn
      rwa [Bool.and_false] at final

theorem filter_follows {base : Expr} {type : StaticType} {location : Option Location}
    (apart : visible.Apart (filter base es type location).binders)
    (input : base.Placed compiled visible) (inputAgrees : base.Agrees numbers calls visible)
    (each : ∀ e ∈ es, e.Agrees numbers calls visible.focused) :
    (filter base es type location).Agrees numbers calls visible := by
  rintro env c s updates describes ⟨_, baseFits, fits⟩ decided ⟨b, items, given, passed, same, rfl⟩
  refine .ofValue fun w c' ran => ?_
  have own : base.binders ⊆ (filter base es type location).binders := List.subset_append_left _ _
  have first := inputAgrees.operand own describes baseFits decided.1 given
  obtain ⟨v, c₁, valued, ran⟩ := Eval.bind_ok_iff.1 ran
  obtain ⟨whole, led⟩ := first.value v c₁ valued
  have reached := decided.2 c v c₁ (Context.alike_refl _ _) valued
  obtain ⟨saved, c₂, asked, ran⟩ := Eval.bind_ok_iff.1 ran
  obtain ⟨rfl, rfl⟩ := Eval.context_ok_iff.1 asked
  -- Only the focus is put back afterwards.
  change ((passAll ((es.map (·.position?)).zip (modesAll calls es)) v c₂).1,
    { (passAll ((es.map (·.position?)).zip (modesAll calls es)) v c₂).2 with focus := c₂.focus }) =
    (.ok w, c') at ran
  cases filtered : passAll ((es.map (·.position?)).zip (modesAll calls es)) v c₂ with
  | mk result d =>
      rw [filtered] at ran
      cases ran
      obtain ⟨is, inside⟩ := passAll_gives apart (List.subset_append_right _ _) each
        (describes.alike (led.alike apart)) (fits b (input.free given)) (reached.alike (led.alike apart)) whole
        (fun _ => id) passed
        (Context.inside_refl _ _) filtered
      exact ⟨is.weaken same, led.quiet inside⟩

/-! ## Bindings -/

theorem bindVariable_ok {var : Variable} {location : Option Location} {v : Value} {u : Unit} {c' : Context}
    (ran : bindVariable var location v c = (.ok u, c')) :
    c' = c.bind var v := by
  obtain ⟨_, c₁, checked, changed⟩ := Eval.bind_ok_iff.1 ran
  obtain ⟨_, rfl⟩ := Eval.ofExcept_ok_iff.1 checked
  exact Eval.change_ok_iff.1 changed

theorem letIn_follows {var : Variable} {bound body : Expr} {location : Option Location}
    (apart : visible.Apart (letIn var bound body location).binders)
    (value : bound.Placed compiled visible) (valueAgrees : bound.Agrees numbers calls visible)
    (resultAgrees : body.Agrees numbers calls (visible.add var.id)) :
    (letIn var bound body location).Agrees numbers calls visible := by
  rintro env c s updates describes ⟨_, boundFits, bodyFits⟩ decided ⟨v, given, inner⟩
  have mine : var.id ∈ (letIn var bound body location).binders := List.mem_append_right _ List.mem_cons_self
  have theirs : body.binders ⊆ (letIn var bound body location).binders := fun id member =>
    List.mem_append_right _ (List.mem_cons_of_mem _ member)
  have own : bound.binders ⊆ (letIn var bound body location).binders := List.subset_append_left _ _
  have first := valueAgrees.operand own describes boundFits decided.1 given
  -- The body is evaluated where the variable has just been bound.
  have binds : (do bindVariable var location (← (bound.modes calls).value) : Eval Unit).Gives
      (letIn var bound body location).binders c [] fun _ => True := by
    refine first.value.andThen fun v c₁ _ _ _ u c₂ ran => ?_
    rw [bindVariable_ok ran]
    exact ⟨trivial, (Context.leads_bind c₁ var v).mono (List.cons_subset.2 ⟨mine, List.nil_subset _⟩)⟩
  have follows : ∀ u c', (do bindVariable var location (← (bound.modes calls).value) : Eval Unit) c =
      (.ok u, c') → (body.modes calls).Follows (visible.including (letIn var bound body location).binders)
        (letIn var bound body location).binders c' s updates := by
    intro u c' ran
    obtain ⟨w, c₁, valued, ran⟩ := Eval.bind_ok_iff.1 ran
    obtain ⟨same, led⟩ := first.value w c₁ valued
    rw [bindVariable_ok ran]
    have reached := decided.2 c w c₁ (Context.alike_refl _ _) valued
    have inside := (describes.alike (led.alike apart)).bind var same
    exact (resultAgrees _ _ s updates inside (bodyFits v (value.free given)).2 reached inner).mono
      (Visible.including_add mine theirs) theirs
  refine Modes.Follows.withValue (.ofStreamAndItem ?_ ?_) ?_
  · exact .after binds fun u c' ran _ _ => (follows u c' ran).stream
  · exact binds.andThen fun u c' ran _ _ => (follows u c' ran).item
  · exact binds.andThen fun u c' ran _ _ => (follows u c' ran).value

theorem forIn_follows {var : Variable} {source body : Expr} {type : StaticType} {location : Option Location}
    (apart : visible.Apart (forIn var source body type location).binders)
    (nodup : (forIn var source body type location).binders.Nodup) (input : source.Placed compiled visible)
    (inputAgrees : source.Agrees numbers calls visible)
    (resultAgrees : body.Agrees numbers calls (visible.add var.id)) :
    (forIn var source body type location).Agrees numbers calls visible := by
  rintro env c s updates describes ⟨_, sourceFits, bodyFits⟩ decided ⟨v, items, given, each, same⟩
  obtain ⟨_, _, disjoint⟩ := List.nodup_append.1 nodup
  have theirs : var.id :: body.binders ⊆ (forIn var source body type location).binders :=
    List.subset_append_right _ _
  have own : source.binders ⊆ (forIn var source body type location).binders := List.subset_append_left _ _
  have first := inputAgrees env c v [] describes sourceFits decided.1 given
  refine .ofStream fun stream c' ran => ?_
  obtain ⟨inner, c₁, started, ran⟩ := Eval.bind_ok_iff.1 ran
  obtain ⟨rfl, rfl⟩ := Eval.pure_ok_iff.1 ran
  obtain ⟨led, follows⟩ := first.stream.quiet started
  rw [same.items_eq]
  refine ⟨[], updates, rfl, led.mono own, fun n none => (by cases none), fun c₂ alike => ?_⟩
  have pulled := follows.pull c₂ (alike.fewer (Visible.including_mono own))
  -- The consumer may have bound variables of its own in between, but none that the source or the body sees.
  have before : c.Alike visible c₂ :=
    (led.alike (apart.fewer own)).trans (alike.fewer fun _ => .inl)
  refine pulled.forEach before (Visible.including_mono own) (fun _ => .inl) own theirs (apart.fewer own)
    (Visible.including_apart (apart.fewer theirs) fun id mine other => disjoint id mine id other rfl) ?_ each
  rintro item yields d stream d' near entered items updates ⟨s, inner, rfl⟩
  have member := pulled.mem_of_yields yields
  obtain ⟨_, d₁, checked, binding⟩ := Eval.bind_ok_iff.1 entered
  obtain ⟨-, rfl⟩ := Eval.checkStop_ok_iff.1 checked
  obtain ⟨u, d₂, bound, streaming⟩ := Eval.bind_ok_iff.1 binding
  obtain rfl := bindVariable_ok bound
  have inside := (describes.alike near).bind var (is_one item)
  have reached := decided.2 c _ _ c₂ item _ (Context.alike_refl _ _) started
    (alike.fewer (Visible.including_mono own)) yields near
  have goesOn := (resultAgrees _ _ s updates inside (bodyFits v (input.free given) item member).2 reached inner).mono
    (Visible.including_add (theirs List.mem_cons_self)
      fun id member => theirs (List.mem_cons_of_mem _ member)) (List.subset_cons_self var.id _)
  -- The stream of the body goes on from where the variable has been bound.
  obtain ⟨now, later, all, out, reads⟩ := goesOn.stream stream d' streaming
  refine ⟨now, later, all, ?_, reads⟩
  exact ((Context.leads_bind _ var _).mono
    (List.cons_subset.2 ⟨List.mem_cons_self, List.nil_subset _⟩)).quiet out

end Expr

end QueryKernel
