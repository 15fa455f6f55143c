import QueryKernel.Proofs.Compile.Reduced

/-!
# Compilation preserves outcomes

A whole tree becomes another one that may stand in its place, loops that are unrolled and simplified again
included.  So a query and its compiled form give the same wherever both succeed.

Neither of the two is followed step by step along the other one, as they do different things in a different
order and fail in different places.  Both follow an outcome of the compiled form, which is one of the query too.

Compilation takes declared types for granted, so that they have to allow as many items as are bound.  Where no
variable of a query has a declared type there is nothing to allow.

## Definitions

* `Compile.Iteration` says that a binding stands for the body of a loop with one item.
* `Compile.Preserves` is what is asked of a way to simplify expressions.
* `Context.outside` is what a query may refer to, `Expr.OwnsVariables` says that it refers to nothing else.
* `Expr.CountsNowhereElse` says that numbers are found only in predicates that are literals.
* `Env.ofContext` is the environment that a context describes.
-/

namespace QueryKernel

namespace Compile

open QueryKernel.Expr (Becomes AllBecome Serves outcomes outcomesAll)

variable {visible : Visible} {c c₁ : CompileContext} {e e₁ : Expr} {env : Env}

/-! ## Unrolled loops -/

/-- A binding of a copied variable that stands for the body of a loop with one item. -/
structure Iteration (visible : Visible) (var : Variable) (body : Expr) (item : Item) (binding : Expr) : Prop where
  placed : binding.Placed true visible
  fits : ∀ env, var.Allows 1 → body.Fits (env.set var.id (.one item)) → binding.Fits env
  within : ∀ env s updates, binding.outcomes .free env s updates →
    body.outcomes .free (env.set var.id (.one item)) s updates

/-- The variable and the body are copied for one item. -/
theorem iteration_copied {var : Variable} {body : Expr} {item : Item} {next : Nat} (location : Option Location)
    (meets : var.MeetsAny) (placed : body.Placed true (visible.add var.id))
    (distinct : body.Distinct (visible.add var.id)) (bounded : ∀ id, visible (.variable id) → id < next)
    (plain : item.IsPlain) :
    let copied := (body.copy ⟨next + 1, [(var.id, { var with id := next })], []⟩).1
    Iteration visible var body item (.letIn { var with id := next } (.literal (.one item)) copied location) ∧
      copied.binders = List.range' (next + 1) body.binders.length := by
  obtain ⟨copied, _⟩ := Expr.copy_duplicates ⟨next + 1, [(var.id, { var with id := next })], []⟩
    (renameAlso id var.id next) placed distinct (fun other _ => by
      by_cases same : other.id = var.id
      · simp [Renaming.apply, renameAlso, same]
      · have different : (other.id == var.id) = false := beq_eq_false_iff_ne.2 same
        simp [Renaming.apply, renameAlso, List.lookup_cons, different, same]) fun other seen => by
    unfold renameAlso
    split
    · exact Nat.lt_succ_self next
    · next different =>
        have before := (Visible.variable_of_add seen).resolve_left different
        exact Nat.lt_succ_of_lt (bounded other before)
  have simple : (ValueOf.one item : Value).Simple := ⟨trivial, List.forall_mem_singleton.2 plain⟩
  have sees : (visible.add var.id).Sees (renameAlso id var.id next) (visible.add next) := by
    refine ⟨fun seen => .inr (Visible.focus_of_add seen), fun seen => .inr (Visible.forest_of_add seen),
      fun other seen => ?_⟩
    unfold renameAlso
    split
    · exact .inl rfl
    · next different => exact .inr ((Visible.variable_of_add seen).resolve_left different)
  -- The item is bound as it is: a literal of one item has one outcome.
  have carries : ∀ env s, (Expr.literal (.one item)).outcomes .free env s [] →
      (env.set var.id (.one item)).Carries (visible.add var.id) (renameAlso id var.id next) (env.set next s) := by
    rintro env s ⟨same, _⟩
    refine (env.carries_self visible).setFrom (fun other seen _ equal => ?_) same
    exact absurd (bounded other seen) (Nat.not_lt.2 (Nat.le_of_eq equal.symm))
  refine ⟨⟨.letIn meets (.literal simple) (copied.placed _ sees) fun _ => rfl, fun env allowed fits => ?_, ?_⟩,
    copied.binders⟩
  · refine Expr.fits_letIn (Expr.fits_literal simple) fun s given => ⟨?_, copied.fits _ _ (carries env s given) fits⟩
    rw [given.1.items_eq]
    exact allowed
  · rintro env s updates ⟨v, given, inner⟩
    exact copied.within _ _ (carries env v given) s updates inner

theorem unrolledLoop_brings {var : Variable} {body : Expr} {location : Option Location} {items : List Item}
    (meets : var.MeetsAny) (placed : body.Placed true (visible.add var.id))
    (distinct : body.Distinct (visible.add var.id)) (stage : Stage visible c) (plain : AllPlain items) :
    (unrolledLoop var body location items).Brings (fun n bindings =>
      List.Forall₂ (Iteration visible var body) items bindings ∧
        Fresh [] c.context.nextVariable n (Expr.bindersAll bindings)) c := by
  induction items generalizing c with
  | nil => exact .pure ⟨.nil, .nil⟩
  | cons item rest rest_ih =>
      refine (copyVariable_brings stage var).bind fun result c₁ later made => ?_
      obtain ⟨number, rfl⟩ := made
      refine (copy_brings (stage.later later) body _).bind fun result c₂ latest copied => ?_
      obtain ⟨number', same⟩ := copied
      obtain ⟨iteration, binders⟩ := iteration_copied location meets placed distinct stage.bounded
        (plain item List.mem_cons_self)
      refine (rest_ih ((stage.later later).later latest) fun other member =>
        plain other (List.mem_cons_of_mem _ member)).bind fun bindings c₃ last others => ?_
      rw [same, number]
      refine .pure ⟨.cons iteration others.1, ?_⟩
      -- The copies take the numbers one after another, the variable first.
      have own : Fresh [] c.context.nextVariable c₂.context.nextVariable
          (Expr.letIn { var with id := c.context.nextVariable } (.literal (.one item)) (body.copy
            ⟨c.context.nextVariable + 1, [(var.id, { var with id := c.context.nextVariable })], []⟩).1
            location).binders := by
        rw [Expr.binders, binders]
        exact .range c.context.nextVariable (body.binders.length + 1) (Nat.le_refl _) (by omega)
      exact own.append others.2 List.nodup_nil (fun _ none => by cases none) (later.trans latest).next last.next

/-- The bindings for the items of a loop have the outcomes of the loop. -/
theorem forEach_of_iterations {var : Variable} {body : Expr} {items produced : List Item} {bindings : List Expr}
    {updates : List PendingUpdate} (iterations : List.Forall₂ (Iteration visible var body) items bindings)
    (given : outcomesAll .free bindings env produced updates) :
    Outcomes.forEach (fun item items updates => ∃ s, body.outcomes .free (env.set var.id (.one item)) s updates ∧
      s.items = items) items produced updates := by
  induction iterations generalizing produced updates with
  | nil => exact given
  | cons iteration _ rest_ih =>
      obtain ⟨s, firstUpdates, others, otherUpdates, first, later, same⟩ := given
      exact ⟨s.items, firstUpdates, others, otherUpdates, ⟨s, iteration.within env s firstUpdates first, rfl⟩,
        rest_ih later, same⟩

theorem serves_iterations {var : Variable} {body : Expr} {v : Value} {bindings : List Expr}
    {location : Option Location} (iterations : List.Forall₂ (Iteration visible var body) v.items bindings)
    (fits : (Expr.forOf var (.literal v) body location).Fits env) :
    (Expr.forOf var (.literal v) body location).Serves env (.listOf bindings none) := by
  obtain ⟨_, _, inside⟩ := fits
  refine ⟨Expr.fits_listOf fun binding member => ?_, ?_⟩
  · obtain ⟨item, among, paired⟩ := Expr.mem_zip_of_mem_right iterations.length_eq member
    have iteration : Iteration visible var body item binding := (List.forall₂_iff_zip.1 iterations).2 paired
    obtain ⟨allowed, body⟩ := inside _ (Expr.outcomes_literal v) item among
    exact iteration.fits env allowed body
  · rintro s updates ⟨items, given, same⟩
    exact ⟨v.sequence, items, Expr.outcomes_literal v, forEach_of_iterations iterations given, same⟩

/-- Whatever is compiled may be put in place of the expression. -/
def Preserves (again : Expr → Compile Expr) : Prop :=
  ∀ {visible : Visible} {c : CompileContext} {e : Expr}, e.Placed true visible → e.Compilable visible c →
    (again e).Brings (Becomes visible c e) c

theorem reduceFor_brings {again : Expr → Compile Expr} (simplifies : Preserves again) {var : Variable}
    {source body : Expr} {location : Option Location} (compilable : e.Compilable visible c) (later : c.Later c₁)
    (noPosition : e.position? = none)
    (whole : Becomes visible c e c₁.context.nextVariable (.forOf var source body location)) :
    (reduceFor again e.summary var source body location).Brings (Becomes visible c e) c₁ := by
  refine Brings.after options_still (Gives.any _) fun most c₂ latest same _ => ?_
  rw [← same] at whole
  have reached := later.trans latest
  dsimp only
  split
  · exact .pure whole
  · next v few =>
      obtain rfl := literal_of_literal? (Option.filter_eq_some_iff.1 few).1
      obtain ⟨meets, input, result⟩ : var.MeetsAny ∧ (Expr.literal v).Placed true visible ∧
          body.Placed true (visible.add var.id) := by
        cases whole.placed with
        | forIn meets input result => exact ⟨meets, input, result⟩
      have distinct := (whole.distinct compilable).body (List.sublist_append_right _ _)
      refine (unrolledLoop_brings meets result distinct (compilable.stage.later reached)
        input.simple.plain).bind fun bindings c₃ last unrolled => ?_
      obtain ⟨iterations, fresh⟩ := unrolled
      have onward := reached.trans last
      have unroll : Becomes visible c e c₃.context.nextVariable (.listOf bindings none) := by
        refine ⟨⟨.list fun binding member => ?_, fun env recorded fits => ?_, .inl noPosition⟩,
          fresh.mono (List.nil_subset _) reached.next (Nat.le_refl _)⟩
        · obtain ⟨item, _, paired⟩ := Expr.mem_zip_of_mem_right iterations.length_eq member
          exact ((List.forall₂_iff_zip.1 iterations).2 paired).placed
        · have serves := whole.serves env recorded fits
          exact serves.trans (serves_iterations iterations serves.fits)
      -- The list of bindings is an expression like any other, and simplified once more.
      refine (simplifies unroll.placed (unroll.compilable compilable onward)).bind fun e' c₄ final turned => ?_
      exact replace_brings ((unroll.trans compilable.stage onward turned final.next).narrow noPosition)

end Compile

/-! ## Trees -/

namespace Expr

open Compile

variable {visible : Visible} {again : Expr → Compile Expr} {e : Expr} {es : List Expr} {c : CompileContext}
  {compiled : Bool}

theorem optimizeAllWith_brings {type : StaticType} {location : Option Location}
    (parts : ∀ e ∈ es, ∀ {c}, e.Compilable visible c →
      (optimizeWith (callsWithin callDepth) again e).Brings (Becomes visible c e) c)
    (compilable : (list es type location).Compilable visible c) :
    (optimizeAllWith (callsWithin callDepth) again es).Brings (AllBecome visible c es) c := by
  induction es generalizing c with
  | nil => exact .pure allBecome_nil
  | cons e rest rest_ih =>
      refine (parts e List.mem_cons_self (compilable.part List.mem_cons_self)).bind fun e₁ c₁ later here => ?_
      have others : (list rest type location).Compilable visible c :=
        compilable.of_binders (List.sublist_append_right _ _)
      refine (rest_ih (fun other member => parts other (List.mem_cons_of_mem _ member)) (others.later later)).bind
        fun rest₁ c₂ latest there => ?_
      exact .pure (.cons compilable here later there latest.next)

/-- Two operands, one after the other. -/
theorem operands_bring {a b : Expr} {P : Nat → Expr → Prop} {f : Expr → Expr → Compile Expr}
    (left : ∀ {c}, a.Compilable visible c →
      (optimizeWith (callsWithin callDepth) again a).Brings (Becomes visible c a) c)
    (right : ∀ {c}, b.Compilable visible c →
      (optimizeWith (callsWithin callDepth) again b).Brings (Becomes visible c b) c)
    (compilable : e.Compilable visible c) (binds : e.binders = bindersAll [a, b])
    (next : ∀ c₁ a₁ b₁, c.Later c₁ → AllBecome visible c [a, b] c₁.context.nextVariable [a₁, b₁] →
      (f a₁ b₁).Brings P c₁) :
    (do f (← optimizeWith (callsWithin callDepth) again a) (← optimizeWith (callsWithin callDepth) again b) :
      Compile Expr).Brings P c := by
  have both : (list [a, b] (.ofSequenceType .empty) none).Compilable visible c :=
    compilable.of_binders (binds ▸ .refl _)
  have second : (list [b] (.ofSequenceType .empty) none).Compilable visible c :=
    both.of_binders (List.sublist_append_right _ _)
  refine (left (both.part List.mem_cons_self)).bind fun a₁ c₁ later here => ?_
  refine (right ((second.part List.mem_cons_self).later later)).bind fun b₁ c₂ latest there => ?_
  have alone : AllBecome visible c₁ [b] c₂.context.nextVariable [b₁] :=
    .cons (second.later later) there latest allBecome_nil (Nat.le_refl _)
  exact next c₂ a₁ b₁ (later.trans latest) (.cons both here later alone latest.next)

/-- A loop whose source has become the empty sequence gives nothing, whatever its body. -/
theorem becomes_forIn_empty {var : Variable} {source body : Expr} {type : StaticType} {location : Option Location}
    {n : Nat} (input : Becomes visible c source n emptySequence) :
    Becomes visible c (forIn var source body type location) n emptySequence := by
  refine ⟨⟨placed_empty, fun env recorded fits => serves_empty fun s none => ?_, .inl rfl⟩, .nil⟩
  have given := (input.serves env recorded fits.2.1).within .empty [] (outcomes_empty.2 ⟨rfl, rfl⟩)
  exact ⟨.empty, [], given, ⟨rfl, rfl⟩, Sequence.from_items none⟩

theorem optimizeWith_brings (simplifies : Preserves again) (placed : e.Placed compiled visible)
    (compilable : e.Compilable visible c) :
    (optimizeWith (callsWithin callDepth) again e).Brings (Becomes visible c e) c := by
  induction placed generalizing c with
  | literal simple => exact .pure (becomes_self compilable (.literal simple))
  | root seen around => exact .pure (becomes_self compilable (.root seen around))
  | documents => exact .pure (becomes_self compilable .documents)
  | deferred => exact .pure (becomes_self compilable (.deferred rfl))
  | contextValue seen => exact reduceContextValue_brings compilable seen
  | varRef seen => exact reduceReference_brings compilable seen
  | list _ parts_ih =>
      refine (optimizeAllWith_brings (fun e member => parts_ih e member) compilable).bind fun es₁ c₁ later become => ?_
      exact reduceList_brings become (later.runs compilable.stage.runs)
  | @call _ f arguments _ _ firstOrder takes _ _ parts_ih =>
      have operands : (list arguments (.ofSequenceType .empty) none).Compilable _ c := compilable.of_binders (.refl _)
      refine (optimizeAllWith_brings (fun e member => parts_ih e member) operands).bind fun es₁ c₁ later become => ?_
      exact reduceCall_brings compilable later become firstOrder takes
  | range _ _ _ low_ih high_ih =>
      refine operands_bring (fun {c} => low_ih (c := c)) (fun {c} => high_ih (c := c)) compilable
        (by simp [binders, bindersAll]) fun c₁ a₁ b₁ later become => ?_
      exact reduceRange_brings become (later.runs compilable.stage.runs)
  | arithmetic _ _ _ left_ih right_ih =>
      refine operands_bring (fun {c} => left_ih (c := c)) (fun {c} => right_ih (c := c)) compilable
        (by simp [binders, bindersAll]) fun c₁ a₁ b₁ later become => ?_
      exact reduceArithmetic_brings become (later.runs compilable.stage.runs)
  | comparison _ _ _ left_ih right_ih =>
      refine operands_bring (fun {c} => left_ih (c := c)) (fun {c} => right_ih (c := c)) compilable
        (by simp [binders, bindersAll]) fun c₁ a₁ b₁ later become => ?_
      exact reduceComparison_brings become (later.runs compilable.stage.runs)
  | @conditional _ test yes no _ _ _ _ _ _ condition_ih positive_ih negative_ih =>
      have three : (list [test, yes, no] (.ofSequenceType .empty) none).Compilable _ c :=
        compilable.of_binders (by simp [binders, bindersAll])
      have two : (list [yes, no] (.ofSequenceType .empty) none).Compilable _ c :=
        three.of_binders (List.sublist_append_right _ _)
      refine (condition_ih (three.part List.mem_cons_self)).bind fun test₁ c₁ later condition => ?_
      refine Brings.after (requireNoUpdates_still _ _) (requireNoUpdates_gives _ _) fun _ c₂ latest same quiet => ?_
      rw [← same] at condition
      have reached := later.trans latest
      refine operands_bring (fun {c} => positive_ih (c := c)) (fun {c} => negative_ih (c := c)) (two.later reached) rfl
        fun c₃ yes₁ no₁ last branches => ?_
      exact reduceConditional_brings (.cons three condition reached branches last.next) quiet
        ((reached.trans last).runs compilable.stage.runs)
  | @filter _ base predicates _ _ _ _ _ input_ih conditions_ih =>
      -- The predicates are compiled with the one item of the base in focus, if that is known.
      refine (input_ih (compilable.part List.mem_cons_self)).bind fun base₁ c₁ later input => ?_
      refine Brings.after (requireNoUpdates_still _ _) (requireNoUpdates_gives _ _) fun _ c₂ next same quiet => ?_
      refine Brings.after (contextItem?_still _) (Gives.any _) fun found c₃ latest equal _ => ?_
      rw [← same, ← equal] at input
      have reached := (later.trans next).trans latest
      have inside : (list predicates (.ofSequenceType .empty) none).Compilable _ (c₃.pushFocus (found.map .one)) :=
        ((compilable.of_binders (List.sublist_append_right _ _)).later reached).focused _
      refine (Brings.withFocus (optimizeAllWith_brings (fun e member => conditions_ih e member) inside)).bind
        fun predicates₁ c₄ last conditions => ?_
      refine reduceFilter_brings rfl (fun still => ?_) ((reached.trans last).runs compilable.stage.runs)
      exact becomes_filterOf compilable input reached conditions last.next ⟨quiet, still⟩
  | letIn meets _ _ _ value_ih result_ih =>
      refine (value_ih (compilable.part List.mem_cons_self)).bind fun bound₁ c₁ later value => ?_
      refine Brings.after (requireNoUpdates_still _ _) (requireNoUpdates_gives _ _) fun _ c₂ latest same quiet => ?_
      rw [← same] at value
      obtain ⟨known, constant, scope, valued, typed⟩ := scopeOfLet_eq meets bound₁
      have reached := later.trans latest
      rw [scope]
      have inner := (compilable.later reached).enter ⟨_, some known, constant⟩
        (List.sublist_append_right _ _) fun v found => ?_
      · refine (Brings.inScope (result_ih inner)).bind fun body₁ c₃ last result => ?_
        exact reduceLet_brings rfl
          (becomes_letIn compilable meets value reached valued typed result last.next quiet)
      · obtain rfl := literal_of_literal? (valued v found)
        exact value.placed.simple
  | @forIn visible var source body type location meets _ _ _ input_ih result_ih =>
      refine (input_ih (compilable.part List.mem_cons_self)).bind fun source₁ c₁ later input => ?_
      refine Brings.after (requireNoUpdates_still _ _) (requireNoUpdates_gives _ _) fun _ c₂ latest same quiet => ?_
      rw [← same] at input
      have reached := later.trans latest
      split
      · next empty =>
          -- Without items the body is never evaluated, and so never compiled.
          obtain rfl := eq_of_isEmptyLiteral empty
          exact replace_brings ((becomes_forIn_empty input).narrow rfl)
      · obtain ⟨known, scope, one⟩ := scopeOfFor_eq meets source₁
        rw [scope]
        have inner := (compilable.later reached).enter ⟨_, some known, none⟩
          (List.sublist_append_right _ _) fun v none => by cases none
        refine (Brings.inScope (result_ih inner)).bind fun body₁ c₃ last result => ?_
        exact reduceFor_brings simplifies compilable (reached.trans last) rfl
          (becomes_forOf compilable meets input reached one result last.next quiet)
  | delete _ _ input_ih =>
      refine (input_ih (compilable.part List.mem_cons_self)).bind fun target₁ c₁ later input => ?_
      refine Brings.after (requireNoUpdates_still _ _) (requireNoUpdates_gives _ _) fun _ c₂ latest same quiet => ?_
      exact .pure (same ▸ becomes_delete input quiet)

/-- Loops that have been unrolled may be simplified again to any depth. -/
theorem optimizeWithin_brings (depth : Nat) (placed : e.Placed compiled visible) (compilable : e.Compilable visible c) :
    (optimizeWithin (callsWithin callDepth) depth e).Brings (Becomes visible c e) c := by
  induction depth generalizing compiled visible e c with
  | zero =>
      have unchanged : Preserves pure := fun placed compilable => .pure (becomes_self compilable placed)
      exact optimizeWith_brings unchanged placed compilable
  | succ depth depth_ih => exact optimizeWith_brings depth_ih placed compilable

end Expr

/-! ## Queries -/

/-- What a query may refer to: the focus, the trees around nodes, and the variables in use that it does not
bind itself. -/
def Context.outside (c : Context) (e : Expr) : Visible
  | .variable id => id < c.nextVariable ∧ id ∉ e.binders
  | .focus => True
  | .forest => True

/-- Each binding of a query has its own variable in use, which is referred to only in the body. -/
structure Expr.OwnsVariables (c : Context) (e : Expr) : Prop where
  nodup : e.binders.Nodup
  used : ∀ id ∈ e.binders, id < c.nextVariable
  placed : e.Placed false (c.outside e)

/-- No predicate but a numeric literal gives a number wherever evaluation from the context gets to one. -/
def Expr.CountsNowhereElse (e : Expr) (visible : Visible) (c : Context) : Prop :=
  e.Decided .free (callsWithin callDepth) visible c

namespace Expr

variable {e : Expr} {c : Context}

/-- It is enough that no predicate but a numeric literal gives a number in any context. -/
theorem countsNowhereElse_of_never
    (never : e.Every fun s => ∀ p ∈ s.predicates, p.position? = none → ∀ c a c',
      (p.modes (callsWithin callDepth)).booleanItem c = (.ok (.atom a), c') → a.isNumeric = false)
    (visible : Visible) (c : Context) : e.CountsNowhereElse visible c := by
  have anywhere : e.DecidedAnywhere .free (callsWithin callDepth) :=
    never.mono fun s _ holds p member none c => decides_free_iff.2 (holds p member none c)
  exact anywhere.decided visible c

theorem OwnsVariables.distinct (own : e.OwnsVariables c) : e.Distinct (c.outside e) :=
  ⟨fun _ member seen => seen.2 member, own.nodup⟩

theorem OwnsVariables.compilable (own : e.OwnsVariables c) (runs : c.Runs) : e.Compilable (c.outside e) (.start c) :=
  ⟨own.distinct, own.used, ⟨runs, fun _ seen => seen.1, fun _ _ missing => (by cases missing)⟩⟩

end Expr

namespace Env

/-- A sequence of a size that is allowed. -/
def allowedBy (o : Occurrence) : Sequence := if o.allows 0 then .empty else .one standIn

theorem allowedBy_allows (o : Occurrence) : o.allows (allowedBy o).items.length = true := by
  cases o <;> decide

theorem allowedBy_plain (o : Occurrence) : AllPlain (allowedBy o).items := by
  unfold allowedBy
  split
  · exact allPlain_nil
  · exact allPlain_one trivial

/-- What a context has.  A variable without a value has one that its type allows. -/
def ofContext (declared : Declarations) (c : Context) : Env where
  focus := (c.focus.value.map (·.sequence)).getD .empty
  root := c.forest.root
  values id := ((c.bindings.lookup id).map (·.sequence)).getD
    (((declared id).map fun type => allowedBy type.occurrence).getD .empty)

variable {declared : Declarations} {c : Context}

theorem ofContext_describes (sound : c.Sound declared ItemOf.IsPlain) (visible : Visible) :
    (ofContext declared c).Describes visible c := by
  have same : ∀ {v : Value}, v.Good ItemOf.IsPlain → v.Is v.sequence := fun good => ⟨good.1.shaped, rfl, id⟩
  refine ⟨fun _ v found => ?_, fun _ => rfl, fun id _ v found => ?_⟩
  · simpa [ofContext, found] using same (sound.focus v found)
  · simpa [ofContext, found] using same (sound.value id v found)

theorem ofContext_conforms (sound : c.Sound declared ItemOf.IsPlain) : (ofContext declared c).Conforms declared := by
  refine ⟨?_, fun id => ?_, fun id type found => ?_⟩
  · dsimp only [ofContext]
    cases given : c.focus.value with
    | none => exact allPlain_nil
    | some v => exact (sound.focus v given).2
  · dsimp only [ofContext]
    cases given : c.bindings.lookup id with
    | some v => exact (sound.value id v given).2
    | none =>
        cases declared id with
        | none => exact allPlain_nil
        | some type => exact allowedBy_plain type.occurrence
  · dsimp only [ofContext]
    cases given : c.bindings.lookup id with
    | some v =>
        have fits := sound.fits id v given type found
        rw [(sound.value id v given).1.size_eq] at fits
        exact fits
    | none =>
        rw [found]
        exact allowedBy_allows type.occurrence

theorem recorded_start (env : Env) (visible : Visible) (c : Context) : env.Recorded visible (.start c) :=
  ⟨fun _ _ _ missing => (by cases missing), fun _ _ _ missing => (by cases missing),
    fun _ _ missing => (by cases missing)⟩

end Env

namespace Expr

variable {declared : Declarations} {e e' : Expr} {c c' start d d' : Context} {v w : Value}

theorem OwnsVariables.becomes (own : e.OwnsVariables c) (runs : c.Runs) (compiled : e.compile c = (.ok e', c')) :
    Becomes (c.outside e) (.start c) e c'.nextVariable e' := by
  have made : (e.compile c).1 = .ok e' := congrArg Prod.fst compiled
  have left : (e.compile c).2 = c' := congrArg Prod.snd compiled
  have optimized : e.optimize (.start c) = (.ok e', (e.optimize (.start c)).2) := Prod.ext made rfl
  exact left ▸ (optimizeWithin_brings e.loopDepth own.placed (own.compilable runs) e' _ optimized).2

/-- What a compiled query gives is an outcome of the query. -/
theorem compiled_outcome {env : Env} (own : e.OwnsVariables c) (runs : c.Runs)
    (describes : env.Describes (c.outside e) start) (fits : e.Fits env) (compiled : e.compile c = (.ok e', c'))
    (target : e'.evaluate start = (.ok w, d')) :
    ∃ s updates, e.outcomes .free env s updates ∧ w.items = s.items ∧
      d'.updates.toList = start.updates.toList ++ updates := by
  have becomes := own.becomes runs compiled
  have serves := becomes.serves _ (Env.recorded_start _ _ c) fits
  obtain ⟨s, updates, strict⟩ := becomes.placed.total Numbers.strict_total env
  obtain ⟨_, begun, clock, ran⟩ := Eval.bind_ok_iff.1 target
  cases clock
  have started : env.Describes (c.outside e) start.startClock :=
    describes.alike ⟨fun _ => rfl, fun _ => rfl, fun _ _ => rfl⟩
  have there := (becomes.placed.agrees (becomes.distinct (own.compilable runs)) _ start.startClock s updates started
    serves.fits (strict_decided _ _ _) strict).value w d' ran
  exact ⟨s, updates, serves.within s updates (becomes.placed.free strict), there.1.items_eq.symm, there.2.updates⟩

/-- A query with the outcomes of a compiled one among its own gives the same as that where it succeeds. -/
theorem agrees_of_outcomes {env : Env} (own : e.OwnsVariables c) (describes : env.Describes (c.outside e) start)
    (fits : e.Fits env) (counts : e.CountsNowhereElse (c.outside e) start) (source : e.run.value start = (.ok v, d))
    (target : ∃ s updates, e.outcomes .free env s updates ∧ w.items = s.items ∧
      d'.updates.toList = start.updates.toList ++ updates) : w.items = v.items ∧ d'.updates = d.updates := by
  obtain ⟨s, updates, outcome, items, recorded⟩ := target
  have here := (own.placed.agrees own.distinct _ start s updates describes fits counts outcome).value v d source
  exact ⟨items.trans here.1.items_eq, Array.toList_inj.1 (recorded.trans here.2.updates.symm)⟩

/-- Where a query and its compiled form both succeed they give the same, if declared types allow as many items as
are bound. -/
theorem compiled_agrees (built : e.Built declared ItemOf.IsPlain) (own : e.OwnsVariables c) (runs : c.Runs)
    (sound : start.Sound declared ItemOf.IsPlain) (allots : e.Allots (Env.ofContext declared start))
    (counts : e.CountsNowhereElse (c.outside e) start) (compiled : e.compile c = (.ok e', c'))
    (source : e.run.value start = (.ok v, d)) (target : e'.evaluate start = (.ok w, d')) :
    w.items = v.items ∧ d'.updates = d.updates := by
  have describes : (Env.ofContext declared start).Describes (c.outside e) start := Env.ofContext_describes sound _
  have fits := built.fits own.placed (Env.ofContext_conforms sound) allots
  exact agrees_of_outcomes own describes fits counts source (compiled_outcome own runs describes fits compiled target)

/-- Where a query without declared types and its compiled form both succeed they give the same items and record the
same updates, both in the same order.  A query whose variables could be read outside of the bodies of their bindings
would tell in which order these are evaluated, and loops that are unrolled bind other variables. -/
theorem compile_keeps_results (built : e.Built declared ItemOf.IsPlain) (own : e.OwnsVariables c)
    (undeclared : ∀ id ∈ e.binders, declared id = none) (runs : c.Runs)
    (sound : start.Sound declared ItemOf.IsPlain) (counts : e.CountsNowhereElse (c.outside e) start)
    (compiled : e.compile c = (.ok e', c')) (source : e.run.value start = (.ok v, d))
    (target : e'.evaluate start = (.ok w, d')) : w.items = v.items ∧ d'.updates = d.updates :=
  compiled_agrees built own runs sound (built.allots undeclared _) counts compiled source target

end Expr

/-- `for $x in (4, 5) return ($x, $x + $x)[2]` -/
def secondOfEach : Expr :=
  let x : Variable := ⟨0, "x", none⟩
  .forOf x (.listOf [.literal (.integer 4), .literal (.integer 5)] none)
    (.filterOf (.listOf [.varRefOf x none, .arithmeticOf .plus (.varRefOf x none) (.varRefOf x none) none] none)
      [.literal (.integer 2)] none) none

/-- The loop is unrolled, and gives the doubles of both numbers as before. -/
theorem secondOfEach_keeps_results : let c : Context := { Context.initial {} with nextVariable := 1 }
    ∃ e w, (secondOfEach.compile c).1 = .ok e ∧ (e.evaluate c).1 = .ok w ∧
      w.items = [.integer 8, .integer 10] := by
  intro c
  let declared : Declarations := fun _ => none
  have number : ∀ i, (ValueOf.integer i : Value).Good ItemOf.IsPlain := fun _ => ValueOf.good_one trivial
  have reference : (Expr.varRefOf ⟨0, "x", none⟩ none).Built declared ItemOf.IsPlain := .varRef rfl
  have built : secondOfEach.Built declared ItemOf.IsPlain := by
    refine .forIn rfl (.list ?_) (.filter (.list ?_) ?_)
    · exact List.forall_mem_cons.2 ⟨.literal (number 4), List.forall_mem_singleton.2 (.literal (number 5))⟩
    · exact List.forall_mem_cons.2 ⟨reference, List.forall_mem_singleton.2 (.arithmetic reference reference)⟩
    · exact List.forall_mem_singleton.2 (.literal (number 2))
  have own : secondOfEach.OwnsVariables c := by
    have never : ∀ {P : Prop}, false = true → P := fun impossible => absurd impossible Bool.false_ne_true
    have literal : ∀ {visible i}, (Expr.literal (.integer i)).Placed false visible :=
      fun {_ i} => .literal ⟨trivial, (number i).2⟩
    refine ⟨by decide, by decide, .forIn (Variable.meetsAny_of_undeclared rfl) (.list ?_)
      (.filter (.list ?_) ?_ never) never⟩
    · exact List.forall_mem_cons.2 ⟨literal, List.forall_mem_singleton.2 literal⟩
    · exact List.forall_mem_cons.2 ⟨.varRef (.inl rfl),
        List.forall_mem_singleton.2 (.arithmetic (.varRef (.inl rfl)) (.varRef (.inl rfl)) never)⟩
    · exact List.forall_mem_singleton.2 literal
  have counts : secondOfEach.CountsNowhereElse (c.outside secondOfEach) c := by
    refine ⟨⟨trivial, trivial, trivial⟩, fun _ _ _ _ _ _ _ _ _ _ _ => ⟨⟨trivial, ⟨trivial, trivial⟩, trivial⟩, ?_⟩⟩
    rintro _ v _ _ _
    exact ⟨fun _ _ _ _ _ _ => ⟨trivial, fun none => (by cases none)⟩, fun _ _ _ _ _ => trivial⟩
  have sound : c.Sound declared ItemOf.IsPlain := sound_of_unbound rfl rfl rfl
  have source : (secondOfEach.run.value c).1 = .ok (.ofItems [.integer 8, .integer 10]) := by with_unfolding_all rfl
  have succeeds : ((secondOfEach.compile c).1.bind fun e => (e.evaluate c).1).isOk = true := by decide +kernel
  obtain ⟨e, compiled, evaluated⟩ : ∃ e, (secondOfEach.compile c).1 = .ok e ∧ (e.evaluate c).1.isOk = true := by
    cases made : (secondOfEach.compile c).1 with
    | error failure =>
        rw [made] at succeeds
        cases succeeds
    | ok e =>
        rw [made] at succeeds
        exact ⟨e, rfl, succeeds⟩
  obtain ⟨w, target⟩ : ∃ w, (e.evaluate c).1 = .ok w := by
    cases given : (e.evaluate c).1 with
    | error failure =>
        rw [given] at evaluated
        cases evaluated
    | ok w => exact ⟨w, rfl⟩
  have same := Expr.compile_keeps_results built own (fun _ _ => rfl) rfl sound counts (Prod.ext compiled rfl)
    (Prod.ext source rfl) (Prod.ext target rfl)
  exact ⟨e, w, compiled, target, same.1⟩

/-- `for $j in (for $i in (1 to 2) return let $x := $i return $i)[true()] return $x` -/
def readOutside : Expr :=
  let x : Variable := ⟨0, "x", none⟩
  let i : Variable := ⟨1, "i", none⟩
  let j : Variable := ⟨2, "j", none⟩
  .forOf j
    (.filterOf
      (.forOf i (.rangeOf (.literal (.integer 1)) (.literal (.integer 2)) none)
        (.letIn x (.varRefOf i none) (.varRefOf i none) none) none)
      [.literal (.one (.atom (.boolean true)))] none)
    (.varRefOf x none) none

/-- Read outside of the body of its binding, a variable tells when the binding is evaluated.  The filter drains the
inner loop before it gives its first item; compilation drops the filter, and then the loops take turns. -/
theorem readOutside_differs : let c : Context := { Context.initial { unrollLimit := 0 } with nextVariable := 3 }
    let declared : Declarations := fun _ => none
    readOutside.Built declared ItemOf.IsPlain ∧ readOutside.binders.Nodup ∧
      (∀ id ∈ readOutside.binders, id < c.nextVariable) ∧ c.Runs ∧ c.Sound declared ItemOf.IsPlain ∧
      (∀ visible, readOutside.CountsNowhereElse visible c) ∧
      (readOutside.run.value c).1 = .ok (.ofItems [.integer 2, .integer 2]) ∧
      (readOutside.compile c).1.bind (fun e => (e.evaluate c).1) = .ok (.ofItems [.integer 1, .integer 2]) := by
  intro c declared
  let silent (s : Expr) : Prop := ∀ p ∈ s.predicates, p.position? = none → ∀ c a c',
    (p.modes (callsWithin callDepth)).booleanItem c = (.ok (.atom a), c') → a.isNumeric = false
  have other : ∀ {s : Expr}, s.predicates = [] → silent s := fun without p member =>
    absurd (without ▸ member) List.not_mem_nil
  have leaf : ∀ {s : Expr}, s.predicates = [] → s.parts = [] → s.Every silent := fun without parts =>
    .node (other without) fun p member => absurd (parts ▸ member) List.not_mem_nil
  have number : ∀ i, (ValueOf.integer i : Value).Good ItemOf.IsPlain := fun _ => ValueOf.good_one trivial
  refine ⟨?_, by decide, by decide, rfl, sound_of_unbound rfl rfl rfl, ?_, by with_unfolding_all rfl,
    by with_unfolding_all rfl⟩
  · exact .forIn rfl (.filter (.forIn rfl (.range (.literal (number 1)) (.literal (number 2)))
        (.letIn rfl (.varRef rfl) (.varRef rfl)))
      (List.forall_mem_singleton.2 (.literal (ValueOf.good_one trivial)))) (.varRef rfl)
  · intro visible
    refine Expr.countsNowhereElse_of_never ?_ visible c
    -- The only predicate is a boolean literal.
    refine .node (other rfl) (List.forall_mem_cons.2 ⟨.node ?_ ?_, List.forall_mem_singleton.2 (leaf rfl rfl)⟩)
    · refine List.forall_mem_singleton.2 fun _ c a c' given => ?_
      cases given
      rfl
    · refine List.forall_mem_cons.2 ⟨.node (other rfl) ?_, List.forall_mem_singleton.2 (leaf rfl rfl)⟩
      refine List.forall_mem_cons.2 ⟨.node (other rfl) ?_, List.forall_mem_singleton.2 (.node (other rfl) ?_)⟩ <;>
        exact List.forall_mem_cons.2 ⟨leaf rfl rfl, List.forall_mem_singleton.2 (leaf rfl rfl)⟩

end QueryKernel
