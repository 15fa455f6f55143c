import QueryKernel.Proofs.Compile.Known

/-!
# Types of nothing stay right

Compilation keeps it that nodes of a type of nothing give nothing, and that expressions which give nothing
are replaced by such.

A narrowed type comes from the expression that was replaced: a replacement may be called empty only because what
it replaces gives nothing, so that the two facts are proved together.

## Definitions

* `Expr.Ready` has the expressions that can be compiled in some surroundings.
* `Expr.Turned` is what compilation makes of an expression, `Expr.Turns` that it makes this of it in all surroundings.
-/

namespace QueryKernel

open QueryKernel.Expr (Bears Justified Null)

variable {calls : Calls} {R : Context → Prop} {F : Focus → Prop} {k : Kind} {focus : Focus} {updating nothing : Prop}
  {K K' : Surroundings} {n m : Nat}

/-- Values of the kind that have no size are the empty sequence, and calls take no variables back. -/
structure KnownRules (calls : Calls) (R : Context → Prop) (F : Focus → Prop) (k : Kind) : Prop
    extends CompileRules calls R F k where
  exact : ∀ v, k.value v → v.size = 0 → v = .empty
  onward : ∀ n callee focus, F focus → k.item callee →
    calls.PairAlways (At (fun c => R c ∧ n ≤ c.nextVariable) focus) k callee

theorem KnownRules.beyond (rules : KnownRules calls R F k) (n : Nat) :
    Rules (fun c => R c ∧ n ≤ c.nextVariable) F k :=
  { rules.toRules with setFocus := fun c focus inv => ⟨rules.setFocus c focus inv.1, inv.2⟩ }

namespace Expr

/-- An expression that can be compiled in some surroundings.  Its variables have been made. -/
structure Ready (k : Kind) (updating : Prop) (K : Surroundings) (n : Nat) (e : Expr) : Prop where
  bears : e.Every (Bears k updating)
  justified : e.Justified K
  made : ∀ id ∈ e.binders, id < n

/-- An expression that has been compiled and gives nothing under some condition. -/
structure Turned (k : Kind) (updating nothing : Prop) (K : Surroundings) (n : Nat) (e : Expr) : Prop
    extends Ready k updating K n e where
  null : nothing → e.Null K.empty

variable {e s : Expr}

theorem Ready.later (ready : e.Ready k updating K n) (le : n ≤ m) : e.Ready k updating K m :=
  ⟨ready.bears, ready.justified, fun id mine => Nat.lt_of_lt_of_le (ready.made id mine) le⟩

theorem Ready.mono (ready : e.Ready k updating K n) (knows : K.Knows K') : e.Ready k updating K' n :=
  ⟨ready.bears, ready.justified.mono knows, ready.made⟩

theorem Ready.part (ready : e.Ready k updating K n) (unbound : e.binder? = none) (member : s ∈ e.parts) :
    s.Ready k updating K n :=
  ⟨ready.bears.part member, ready.justified.part unbound member,
    fun id mine => ready.made id ((binders_part member).subset mine)⟩

/-- A node that binds nothing itself. -/
theorem Ready.node (bears : Bears k updating e) (unbound : e.binder? = none) (justified : e.Justified K)
    (parts : ∀ s ∈ e.parts, s.Ready k updating K n) : e.Ready k updating K n := by
  refine ⟨.node bears fun s member => (parts s member).bears, justified, fun id mine => ?_⟩
  rw [binders_of_parts unbound] at mine
  obtain ⟨s, part, inside⟩ := mem_bindersAll.1 mine
  exact (parts s part).made id inside

/-- A node without operands. -/
theorem Ready.leaf (leaf : e.parts = []) (bears : Bears k updating e) (nil : e.staticType.IsNil → e.Null K.empty) :
    e.Ready k updating K n := by
  refine .node bears (binder?_of_leaf leaf) (leaf_justified leaf nil) fun s member => ?_
  rw [leaf] at member
  cases member

theorem Ready.literal {v : Value} (rules : KnownRules calls R F k) (given : k.value v) :
    (literal v).Ready k updating K n := by
  refine .leaf rfl given fun nil => ?_
  rw [rules.exact v given (StaticType.isNil_sized.1 nil)]
  exact .literal

theorem Ready.letIn {var : Variable} {bound body : Expr} {location : Option Location} (undeclared : var.declared = none)
    (new : ¬K.bound var.id) (made : var.id < n) (value : bound.Ready k updating K n)
    (result : body.Ready k updating (K.add var.id (bound.Null K.empty)) n) :
    (letIn var bound body location).Ready k updating K n :=
  ⟨.node trivial (forall_pair value.bears result.bears), .letIn undeclared new value.justified result.justified,
    List.forall_mem_append.2 ⟨value.made, List.forall_mem_cons.2 ⟨made, result.made⟩⟩⟩

theorem Turned.later (turned : e.Turned k updating nothing K n) (le : n ≤ m) : e.Turned k updating nothing K m :=
  ⟨turned.toReady.later le, turned.null⟩

theorem Turned.when {other : Prop} (turned : e.Turned k updating nothing K n) (implies : other → nothing) :
    e.Turned k updating other K n := ⟨turned.toReady, fun given => turned.null (implies given)⟩

theorem Turned.narrow (rules : KnownRules calls R F k) (turned : e.Turned k updating nothing K n)
    {known : SequenceType} (zero : known.occurrence = .zero → e.Null K.empty) :
    (e.narrow known).Turned k updating nothing K n := by
  refine ⟨⟨bears_narrow rules.narrow turned.bears known, turned.justified.narrow zero, ?_⟩, fun given =>
    null_narrow (turned.null given) known⟩
  rw [binders_narrow]
  exact turned.made

theorem Turned.emptySequence (rules : KnownRules calls R F k) : emptySequence.Turned k updating nothing K n :=
  ⟨.literal rules rules.lawful.empty, fun _ => .literal⟩

theorem Ready.ofCopy {e' : Expr} (copied : Compile.Copied k updating K K' e m e') : e'.Ready k updating K' m :=
  ⟨copied.bears, copied.justified, copied.made⟩

/-- A literal gives nothing only if it is seen to be empty. -/
theorem isEmptyLiteral_of_null {empty : Nat → Prop} (literal : e.isLiteral = true) (null : e.Null empty) :
    e.isEmptyLiteral = true := by
  cases null with
  | literal => rfl
  | _ => cases literal

end Expr

namespace Compile

open QueryKernel.Expr (Ready Turned)

theorem reduceContextValue_known {type : StaticType} {location : Option Location}
    (whole : (Expr.contextValue type location).Ready k updating K n) :
    (reduceContextValue type location).Always (Known R k focus K n) (Refused updating)
      (Turned k updating False K n) := by
  refine Always.state.bind fun c known => ?_
  split
  · next v position size found =>
      refine .pure ⟨.leaf rfl trivial fun nil => ?_, False.elim⟩
      -- The focus is on an item, so that the type allows one.
      have some : v.size ≠ 0 := by
        unfold CompileContext.topFocus? at found
        split at found
        · cases found
        · next pushed =>
            have present := Option.some.inj found
            rcases known.focused with none | item
            · rw [none] at pushed
              exact absurd rfl pushed
            · refine item v ?_
              rw [← known.context.focus_eq, present]
      dsimp only [Expr.staticType] at nil
      split at nil
      · cases StaticType.isNil_ofSequenceType.1 nil
      · exact absurd (StaticType.isNil_sized.1 nil) some
  · exact .pure ⟨whole, False.elim⟩

section Steps

variable (rules : KnownRules calls R F k)

include rules

/-! ## Single steps -/

theorem replace_known {before : ExprSummary} {after : Expr} (turned : after.Turned k updating nothing K n)
    (zero : before.sequenceType.occurrence = .zero → after.Null K.empty) :
    (replace before after).Always (Known R k focus K n) (Refused updating) (Turned k updating nothing K n) :=
  ((noteReplacement_always rules.toCompileRules).known (noteReplacement_still _ _ _)).bind
    fun _ _ => .pure (turned.narrow rules zero)

theorem replaceWith_known {e after : Expr} (turned : after.Turned k updating nothing K n)
    (nil : e.staticType.IsNil → after.Null K.empty) :
    (replaceWith e after).Always (Known R k focus K n) (Refused updating) (Turned k updating nothing K n) :=
  replace_known rules turned fun zero => nil (.inl zero)

/-- What gives nothing when it is computed in advance is replaced by nothing. -/
theorem precompute_known (held : F focus) {e : Expr} (operation : e.IsOperation)
    (literals : ∀ s ∈ e.parts, s.isLiteral = true) (bears : e.Every (Bears k updating))
    (empty : nothing → (e.modes calls).value.Always (At (fun c => R c ∧ n ≤ c.nextVariable) focus) (· = .empty)) :
    (precompute calls e).Always (Known R k focus K n) (Refused updating) (Turned k updating nothing K n) := by
  have always := Expr.modes_always (rules.beyond n) (operation_observes (rules.onward n) operation literals bears) held
  have evaluates : (e.modes calls).value.Always (At (fun c => R c ∧ n ≤ c.nextVariable) focus) fun v =>
      k.value v ∧ (nothing → v = .empty) := by
    intro c inv
    obtain ⟨kept, given⟩ := always.value c inv
    exact ⟨kept, fun v ran => ⟨given v ran, fun null => (empty null c inv).2 v ran⟩⟩
  refine (attempt_known evaluates).bind fun result given => ?_
  have noted : ∀ verb before after, (noteReplacement verb before after).Always (Known R k focus K n)
      (Refused updating) fun _ => True :=
    fun verb before after => (noteReplacement_always rules.toCompileRules).known (noteReplacement_still _ _ _)
  cases result with
  | ok v =>
      obtain ⟨kind, empty⟩ := given v rfl
      refine (noted _ _ _).bind fun _ _ => .pure ⟨.literal rules (rules.narrow v _ kind), fun null => ?_⟩
      rw [empty null]
      exact .literal
  | error error =>
      exact (noted _ _ _).bind fun _ _ => .pure ⟨.leaf rfl trivial fun _ => .deferred, fun _ => .deferred⟩

/-- What selects items from nothing gives nothing. -/
theorem selected_nothing (held : F focus) {f : BuiltIn} (selects : f = .head ∨ f = .reverse ∨ f = .sortWith)
    {argument : Expr} {others : List Expr} {type : StaticType} {location : Option Location}
    (literals : ∀ s ∈ argument :: others, s.isLiteral = true)
    (bears : (Expr.call f (argument :: others) type location).Every (Bears k updating))
    (null : argument.Null K.empty) :
    ((Expr.call f (argument :: others) type location).modes calls).value.Always
      (At (fun c => R c ∧ n ≤ c.nextVariable) focus) (· = .empty) := by
  have observes := operation_observes (e := .call f (argument :: others) type location) (rules.onward n) trivial
    literals bears
  have parts := Expr.modesAll_always fun e member =>
    Expr.modes_always (rules.beyond n) (observes.part (s := e) member) held
  have first : (argument.modes calls).Always (At (fun c => R c ∧ n ≤ c.nextVariable) focus) .nothing := by
    have literal := literals argument List.mem_cons_self
    cases null with
    | literal => exact .ofLiteral Kind.nothing_lawful rfl
    | _ => cases literal
  exact (BuiltIn.modes_select Kind.nothing_lawful rules.lawful selects rfl first.value
    (firstItem_always first.stream) (argument_always rules.lawful parts 1)
    fun _ _ _ _ _ impossible => impossible.elim).value

/-! ## Nodes with simplified parts -/

theorem reduceList_known (held : F focus) {before : ExprSummary} {operands : List Expr}
    {location : Option Location} (done : ∀ e ∈ operands, e.Ready k updating K n)
    (zero : before.sequenceType.occurrence = .zero → (Expr.listOf operands location).Null K.empty) :
    (reduceList calls before operands location).Always (Known R k focus K n) (Refused updating)
      (Turned k updating ((Expr.listOf operands location).Null K.empty) K n) := by
  have kept : ∀ e ∈ operands.filter (!·.isEmptyLiteral), e.Ready k updating K n :=
    fun e member => done e (List.mem_filter.1 member).1
  -- Literals of nothing are left out; the others give nothing if all do.
  have nulls : (Expr.listOf operands location).Null K.empty →
      ∀ e ∈ operands.filter (!·.isEmptyLiteral), e.Null K.empty := by
    intro null e member
    cases null with
    | list all => exact all e (List.mem_filter.1 member).1
  refine (requireUniformUpdates_always fun e member => (kept e member).bears).bind fun _ _ => ?_
  split
  · exact replace_known rules (.emptySequence rules) fun _ => .literal
  · next operand alone =>
      have only : operand ∈ operands.filter (!·.isEmptyLiteral) := by
        rw [alone]
        exact List.mem_cons_self
      exact replace_known rules ⟨kept operand only, fun null => nulls null operand only⟩
        fun empty => nulls (zero empty) operand only
  · next several _ =>
      have whole : (Expr.listOf (operands.filter (!·.isEmptyLiteral)) location).Ready k updating K n :=
        .node trivial rfl (Expr.list_justified fun e member => (kept e member).justified) kept
      refine Always.options.bind fun most _ => ?_
      dsimp only
      split
      · next constant =>
          rw [Bool.and_eq_true] at constant
          have literals := List.all_eq_true.1 constant.1
          refine precompute_known (e := .listOf _ location) rules held trivial literals whole.bears fun null => ?_
          obtain ⟨e, member⟩ := List.exists_mem_of_ne_nil _ several
          have empty := Expr.isEmptyLiteral_of_null (literals e member) (nulls null e member)
          have occupied := (List.mem_filter.1 member).2
          rw [empty] at occupied
          cases occupied
      · exact .pure ⟨whole, fun null => .list (nulls null)⟩

theorem reduceRange_known (held : F focus) {first last : Expr} {type : StaticType}
    {location : Option Location} (whole : (Expr.range first last type location).Ready k updating K n) :
    (reduceRange calls first last type location).Always (Known R k focus K n) (Refused updating)
      (Turned k updating False K n) := by
  have low : first.Ready k updating K n := whole.part rfl List.mem_cons_self
  have high : last.Ready k updating K n := whole.part rfl (List.mem_cons_of_mem _ List.mem_cons_self)
  refine (requireNoUpdates_always low.bears).bind fun _ _ => ?_
  refine (requireNoUpdates_always high.bears).bind fun _ _ => ?_
  dsimp only
  split
  · next constant =>
      rw [Bool.and_eq_true] at constant
      exact precompute_known (e := .range first last type location) rules held trivial
        (Expr.forall_pair constant.1 constant.2) whole.bears False.elim
  · exact .pure ⟨whole, False.elim⟩

theorem reduceOperation_known (held : F focus) {e a b : Expr} (operation : e.IsOperation) (unbound : e.binder? = none)
    (parts : e.parts = [a, b]) (whole : e.Ready k updating K n) :
    (reduceOperation calls e a b).Always (Known R k focus K n) (Refused updating) (Turned k updating False K n) := by
  have left : a.Ready k updating K n := whole.part unbound (by simp [parts])
  have right : b.Ready k updating K n := whole.part unbound (by simp [parts])
  refine (requireNoUpdates_always left.bears).bind fun _ _ => ?_
  refine (requireNoUpdates_always right.bears).bind fun _ _ => ?_
  split
  · exact replaceWith_known rules (.emptySequence rules) fun _ => .literal
  · split
    · next constant =>
        rw [Bool.and_eq_true] at constant
        refine precompute_known rules held operation ?_ whole.bears False.elim
        rw [parts]
        exact Expr.forall_pair constant.1 constant.2
    · exact .pure ⟨whole, False.elim⟩

theorem reduceConditional_known {test yes no : Expr} {location : Option Location}
    (whole : (Expr.conditionalOf test yes no location).Ready k updating K n) :
    (reduceConditional test yes no location).Always (Known R k focus K n) (Refused updating)
      (Turned k updating ((Expr.conditionalOf test yes no location).Null K.empty) K n) := by
  have positive : yes.Ready k updating K n := whole.part rfl (by simp [Expr.conditionalOf, Expr.parts])
  have negative : no.Ready k updating K n := whole.part rfl (by simp [Expr.conditionalOf, Expr.parts])
  refine (requireUniformUpdates_always (Expr.forall_pair positive.bears negative.bears)).bind fun _ _ => ?_
  dsimp only
  split
  · exact .pure ⟨whole, id⟩
  · next v _ =>
      -- The boolean value of a literal touches no context.
      have decided : (attempt (Modes.ofLiteral v).boolean).Always (Known R k focus K n) (Refused updating)
          fun result => ∀ b, result = .ok b → True :=
        .attempt (R := fun c d => d = c.context)
          (fun _ _ => (Modes.Always.ofLiteral Kind.any_lawful trivial).boolean) (fun _ _ => rfl) ?_
      · refine decided.bind fun result _ => ?_
        cases result with
        | error e => exact .pure ⟨whole, id⟩
        | ok b =>
            have chosen : (Expr.conditionalOf test yes no location).Null K.empty →
                (if b then yes else no).Null K.empty := by
              intro null
              cases null with
              | conditional left right => cases b <;> first | exact left | exact right
            refine replaceWith_known rules ⟨?_, chosen⟩ fun nil => chosen (whole.justified.nil nil)
            cases b <;> first | exact positive | exact negative
      · rintro c _ known rfl
        exact known

theorem reduceFilter_known (held : F focus) {before : ExprSummary} {base : Expr} {predicates : List Expr}
    {location : Option Location} (input : base.Ready k updating K n)
    (conditions : ∀ e ∈ predicates, e.Ready k updating K n)
    (zero : before.sequenceType.occurrence = .zero → base.Null K.empty) :
    (reduceFilter calls before base predicates location).Always (Known R k focus K n) (Refused updating)
      (Turned k updating (base.Null K.empty) K n) := by
  refine (requireNoneUpdates_always fun e member => (conditions e member).bears).bind fun _ _ => ?_
  dsimp only
  have kept : ∀ e ∈ predicates.filter (verdict · = .open), e.Ready k updating K n :=
    fun e member => conditions e (List.mem_filter.1 member).1
  have whole : (Expr.filterOf base (predicates.filter (verdict · = .open)) location).Ready k updating K n :=
    .node trivial rfl (Expr.filter_justified input.justified fun e member => (kept e member).justified)
      (List.forall_mem_cons.2 ⟨input, kept⟩)
  split
  · exact replace_known rules (.emptySequence rules) fun _ => .literal
  · next open_ =>
      rw [Bool.or_eq_true, not_or] at open_
      split
      · exact replace_known rules ⟨input, id⟩ zero
      · refine Always.options.bind fun most _ => ?_
        split
        · next constant =>
            rw [Bool.and_eq_true] at constant
            have literal : base.isLiteral = true := by
              cases base with
              | literal v => rfl
              | _ => cases constant.1
            exact precompute_known (e := .filterOf base _ location) rules held trivial
              (List.forall_mem_cons.2 ⟨literal, List.all_eq_true.1 constant.2⟩) whole.bears
              fun null => (open_.2 (Expr.isEmptyLiteral_of_null literal null)).elim
        · exact .pure ⟨whole, .filter⟩

theorem reduceLet_known {before : ExprSummary} {var : Variable} {bound body : Expr} {location : Option Location}
    (whole : (Expr.letIn var bound body location).Ready k updating K n)
    (zero : before.sequenceType.occurrence = .zero → (Expr.letIn var bound body location).Null K.empty) :
    (reduceLet before var bound body location).Always (Known R k focus K n) (Refused updating)
      (Turned k updating ((Expr.letIn var bound body location).Null K.empty) K n) := by
  unfold reduceLet
  split
  · next constant =>
      -- Only a literal is taken out of the binding, so that the variable is not missed.
      cases body with
      | literal v =>
          have given : k.value v := (whole.bears.part (s := .literal v) (by simp [Expr.parts])).here
          have null : (Expr.letIn var bound (.literal v) location).Null K.empty → (Expr.literal v).Null K.empty := by
            intro null
            cases Expr.null_let.1 null
            exact .literal
          exact replace_known rules ⟨.literal rules given, null⟩ fun empty => null (zero empty)
      | _ => cases (Bool.and_eq_true _ _ ▸ constant : _ ∧ _).2
  · exact .pure ⟨whole, id⟩

theorem reduceReference_known {var : Variable} {type : StaticType} {location : Option Location}
    (nil : type.IsNil → K.empty var.id) :
    (reduceReference var type location).Always (Known R k focus K n) (Refused updating)
      (Turned k updating (K.empty var.id) K n) := by
  refine Always.state.bind fun c known => ?_
  -- What a scope says of a variable agrees with what surrounds the reference.
  have recorded : ∀ scope ∈ c.scopes, ∀ entry, scope.get? var.id = some entry →
      K.Records entry ∧ entry.var.id = var.id := by
    intro scope member entry latest
    unfold Scope.get? at latest
    exact ⟨known.records scope member entry (List.mem_of_find?_eq_some latest),
      by simpa using List.find?_some latest⟩
  split
  · next v found =>
      obtain ⟨scope, member, inside⟩ := List.exists_of_findSome?_eq_some found
      obtain ⟨entry, latest, value⟩ := Option.bind_eq_some_iff.1 inside
      obtain ⟨records, same⟩ := recorded scope member entry latest
      have null : K.empty var.id → (Expr.literal v).Null K.empty := by
        intro empty
        rw [records.value v value (same ▸ empty)]
        exact .literal
      exact replaceWith_known rules ⟨.literal rules (variableValue_of_kind known.toSteady found), null⟩
        fun empty => null (nil empty)
  · split
    · next known' found =>
        obtain ⟨entry, declared, typed⟩ := Option.bind_eq_some_iff.1 found
        obtain ⟨scope, member, latest⟩ := List.exists_of_findSome?_eq_some declared
        obtain ⟨records, same⟩ := recorded scope member entry latest
        refine .pure ⟨.leaf rfl trivial fun nil => .varRef ?_, .varRef⟩
        exact same ▸ records.type known' typed (StaticType.isNil_ofSequenceType.1 nil)
    · exact .pure ⟨.leaf rfl trivial fun empty => .varRef (nil empty), .varRef⟩

theorem reduceCount_known {argument : Expr} {type : StaticType} {location : Option Location}
    (whole : (Expr.call .count [argument] type location).Ready k updating K n) :
    (reduceCount (.call .count [argument] type location) argument).Always (Known R k focus K n)
      (Refused updating) (Turned k updating False K n) := by
  have never : ¬(Expr.call .count [argument] type location).Null K.empty :=
    fun null => absurd (Expr.null_call null) (by decide)
  unfold reduceCount
  dsimp only
  cases argument.size? with
  | none => exact .pure ⟨whole, False.elim⟩
  | some n =>
      dsimp only
      split
      · next item made _ =>
          have one : k.value (.one item) := rules.lawful.one (countItem_kind rules.toCompileRules made)
          exact replaceWith_known rules ⟨.literal rules one, False.elim⟩
            fun nil => (never (whole.justified.nil nil)).elim
      · exact .pure ⟨whole, False.elim⟩

/-! ## Computations that copy -/

/-- A copy that is put where the expression has been. -/
theorem copyHere_leads {e : Expr} (ready : e.Ready k updating K n) :
    (copy e []).Leads R k focus K n fun m copied => copied.1.Turned k updating (e.Null K.empty) K m := by
  intro c known
  have kept : ∀ var : Variable, K.empty var.id → K.empty (Renaming.apply [] var).id := fun _ => id
  exact ((copy_leads rules.toCompileRules ready.bears ready.justified known.bounded kept).mono
    fun m copied _ made => ⟨.ofCopy made, made.null⟩) c known

theorem reduceHead_leads {argument : Expr} {type : StaticType} {location : Option Location}
    (whole : (Expr.call .head [argument] type location).Ready k updating K n) :
    (reduceHead (.call .head [argument] type location) argument).Leads R k focus K n
      (Turned k updating (argument.Null K.empty) K) := by
  have ready : argument.Ready k updating K n := whole.part rfl List.mem_cons_self
  have taken : (Expr.call .head [argument] type location).Null K.empty → argument.Null K.empty := by
    intro null
    cases null with
    | call _ input => exact input
  have kept : (Expr.call .head [argument] type location).Turned k updating (argument.Null K.empty) K n :=
    ⟨whole, .call (.inl rfl)⟩
  unfold reduceHead
  split
  · exact .still (replaceWith_known rules ⟨ready, id⟩ fun nil => taken (whole.justified.nil nil))
  · split
    · next first rest listed =>
        split
        · have inside : first.Ready k updating K n ∧ (argument.Null K.empty → first.Null K.empty) := by
            cases argument with
            | list operands listType place =>
                cases listed
                refine ⟨ready.part rfl List.mem_cons_self, fun null => ?_⟩
                cases null with
                | list nulls => exact nulls first List.mem_cons_self
            | _ => cases listed
          refine (copyHere_leads rules inside.1).bind fun m copied _ made => ?_
          have first := made.when inside.2
          exact .still (replaceWith_known rules first fun nil => first.null (taken (whole.justified.nil nil)))
        · exact .pure kept
    · exact .pure kept

theorem unrolledLoop_leads {var : Variable} {body : Expr} {location : Option Location} {items : List Item}
    (undeclared : var.declared = none) (new : ¬K.bound var.id)
    (ready : body.Ready k updating (K.add var.id False) n) (all : ∀ item ∈ items, k.item item) :
    (unrolledLoop var body location items).Leads R k focus K n fun m bindings =>
      ∀ e ∈ bindings, e.Turned k updating (body.Null K.empty) K m := by
  induction items generalizing n with
  | nil => exact .pure fun _ none => by cases none
  | cons item rest rest_ih =>
      intro c known
      refine (copyVariable_leads rules.toCompileRules var).bind ?_ c known
      rintro m _ le ⟨fresh, old, made, rfl⟩
      have unused : ¬K.bound fresh := fun inside => Nat.not_lt.2 old (known.bounded fresh inside)
      have carried : ∀ other : Variable, (K.add var.id False).empty other.id → (K.add fresh False).empty
          (Renaming.apply [(var.id, { var with id := fresh })] other).id := by
        intro other empty
        rw [K.add_false] at empty ⊢
        -- The variable of the loop is not around it, and the others keep their names.
        have different : other.id ≠ var.id := fun same => new (same ▸ K.within _ empty)
        rw [Renaming.apply, List.lookup_cons, beq_eq_false_iff_ne.2 different]
        exact empty
      have around : ∀ id, (K.add fresh False).bound id → id < m := by
        rintro id (rfl | inside)
        · exact made
        · exact Nat.lt_of_lt_of_le (known.bounded id inside) le
      refine (copy_leads rules.toCompileRules ready.bears ready.justified around carried).bind
        fun l copied later body' => ?_
      refine (rest_ih (ready.later (Nat.le_trans le later))
        fun other member => all other (List.mem_cons_of_mem _ member)).bind fun l' others last turned => .pure ?_
      have literal : (Expr.literal (.one item)).Ready k updating K l' :=
        .literal rules (rules.lawful.one (all item List.mem_cons_self))
      have result := (Ready.ofCopy body').later last
      have binding : (Expr.letIn { var with id := fresh } (.literal (.one item)) copied.1 location).Ready k
          updating K l' :=
        .letIn undeclared unused (Nat.lt_of_lt_of_le made (Nat.le_trans later last)) literal
          (result.mono (K.knows_refl.add False.elim))
      refine List.forall_mem_cons.2 ⟨⟨binding, fun null => .letIn ?_⟩, turned⟩
      have copy := body'.null
      rw [K.add_false, K.add_false] at copy
      exact copy null

/-- What is asked of the way to compile what is unrolled. -/
def AgainLeads (R : Context → Prop) (F : Focus → Prop) (k : Kind) (updating : Prop)
    (again : Expr → Compile Expr) : Prop :=
  ∀ focus K n e, F focus → e.Ready k updating K n →
    (again e).Leads R k focus K n (Turned k updating (e.Null K.empty) K)

theorem reduceFor_leads (held : F focus) {again : Expr → Compile Expr}
    (simplifies : AgainLeads R F k updating again) {before : ExprSummary} {var : Variable}
    {source body : Expr} {location : Option Location} (some : source.isEmptyLiteral = false)
    (undeclared : var.declared = none) (new : ¬K.bound var.id) (made : var.id < n) (input : source.Ready k updating K n)
    (result : body.Ready k updating (K.add var.id False) n)
    (zero : before.sequenceType.occurrence = .zero → (Expr.forOf var source body location).Null K.empty) :
    (reduceFor again before var source body location).Leads R k focus K n
      (Turned k updating ((Expr.forOf var source body location).Null K.empty) K) := by
  have limits : options.Always (Known R k focus K n) (Refused updating) fun _ => True := Always.options
  refine .after limits fun most _ => ?_
  dsimp only
  split
  · have whole : (Expr.forOf var source body location).Ready k updating K n :=
      ⟨.node trivial (Expr.forall_pair input.bears result.bears),
        Expr.for_justified undeclared new input.justified result.justified,
        List.forall_mem_append.2 ⟨input.made, List.forall_mem_cons.2 ⟨made, result.made⟩⟩⟩
    exact .pure ⟨whole, id⟩
  · next v found =>
      have literal : source = .literal v := by
        obtain ⟨given, _⟩ := Option.filter_eq_some_iff.1 found
        cases source with
        | literal w =>
            cases given
            rfl
        | _ => cases given
      subst literal
      -- The loop has an item, so that only the body can make it empty.
      have nulls : (Expr.forOf var (.literal v) body location).Null K.empty → body.Null K.empty := by
        intro null
        refine (Expr.null_for.1 null).resolve_left fun none => ?_
        rw [Expr.isEmptyLiteral_of_null rfl none] at some
        cases some
      refine (unrolledLoop_leads rules undeclared new result
        (rules.lawful.items input.bears.here)).bind fun m bindings _ unrolled => ?_
      have ready : (Expr.listOf bindings none).Ready k updating K m :=
        .node trivial rfl (Expr.list_justified fun e member => (unrolled e member).justified)
          fun e member => (unrolled e member).toReady
      refine (simplifies focus K m _ held ready).bind fun l e _ turned => ?_
      have null : (Expr.forOf var (.literal v) body location).Null K.empty → e.Null K.empty :=
        fun given => turned.null (.list fun s member => (unrolled s member).null (nulls given))
      exact .still (replace_known rules ⟨turned.toReady, null⟩ fun empty => null (zero empty))

/-- Each call of a fold is over the calls before it and a copy of the function. -/
theorem unrolledFold_leads {callee : Expr} {items : List Item} {result : Expr} (function : callee.Ready k updating K n)
    (all : ∀ item ∈ items, k.item item) (ready : result.Ready k updating K n) :
    (unrolledFold callee result items).Leads R k focus K n fun m e => e.Ready k updating K m := by
  induction items generalizing n result with
  | nil => exact .pure ready
  | cons item rest rest_ih =>
      refine (copyHere_leads rules function).bind fun m copied le made => ?_
      have literal : (Expr.literal (.one item)).Ready k updating K m :=
        .literal rules (rules.lawful.one (all item List.mem_cons_self))
      have parts : ∀ s ∈ [copied.1, result, .literal (.one item)], s.Ready k updating K m :=
        List.forall_mem_cons.2 ⟨made.toReady, Expr.forall_pair (ready.later le) literal⟩
      exact rest_ih (function.later le) (fun other member => all other (List.mem_cons_of_mem _ member))
        (.node trivial rfl
          (Expr.justified_of_type rfl (by decide) rfl fun s member => (parts s member).justified) parts)

theorem reduceFold_leads (held : F focus) {again : Expr → Compile Expr}
    (simplifies : AgainLeads R F k updating again) {items callee : Expr} {location : Option Location}
    (input : items.Ready k updating K n) (function : callee.Ready k updating K n)
    (whole : (Expr.call .foldLeft1 [items, callee] (BuiltIn.foldLeft1.resultType [items, callee])
      location).Ready k updating K n) :
    (reduceFold again (.call .foldLeft1 [items, callee] (BuiltIn.foldLeft1.resultType [items, callee])
      location) items callee).Leads R k focus K n (Turned k updating False K) := by
  have limits : options.Always (Known R k focus K n) (Refused updating) fun _ => True := Always.options
  refine .after limits fun most _ => ?_
  dsimp only
  split
  · exact .pure ⟨whole, False.elim⟩
  · next v found =>
      have given : k.value v := by
        obtain ⟨literal, _⟩ := Option.filter_eq_some_iff.1 found
        cases items with
        | literal w =>
            cases literal
            exact input.bears.here
        | _ => cases literal
      split
      · exact .pure ⟨whole, False.elim⟩
      · next first rest listed =>
          have all : ∀ item ∈ first :: rest, k.item item := by
            rw [← listed]
            exact rules.lawful.items given
          refine (unrolledFold_leads rules function (fun item member => all item (List.mem_cons_of_mem _ member))
            (.literal rules (rules.lawful.one (all first List.mem_cons_self)))).bind fun m calls _ ready => ?_
          -- Nothing is known of the type of a fold, so that it is never found to be empty.
          have some : ¬(BuiltIn.foldLeft1.resultType [items, callee]).IsNil := fun nil => by
            cases StaticType.isNil_ofSequenceType.1 nil
          exact (simplifies focus K m _ held ready).bind fun l e _ turned =>
            .still (replaceWith_known rules ⟨turned.toReady, False.elim⟩ fun nil => (some nil).elim)

theorem reduceCall_leads (held : F focus) {again : Expr → Compile Expr}
    (simplifies : AgainLeads R F k updating again) {f : BuiltIn} {arguments : List Expr}
    {location : Option Location} (ready : ∀ e ∈ arguments, e.Ready k updating K n) :
    (reduceCall calls again f arguments location).Leads R k focus K n (Turned k updating
      ((Expr.call f arguments (f.resultType arguments) location).Null K.empty) K) := by
  have whole : (Expr.call f arguments (f.resultType arguments) location).Ready k updating K n :=
    .node trivial rfl (Expr.call_justified fun e member => (ready e member).justified) ready
  have counted : ∀ n, (if f = .error then none else literalItems? arguments) = some n →
      f ≠ .error ∧ ∀ e ∈ arguments, e.isLiteral = true := by
    intro n found
    split at found
    · cases found
    · next other =>
        obtain ⟨values, all, _⟩ := Option.map_eq_some_iff.1 found
        exact ⟨other, literal_of_mapM all⟩
  have quiet : (requireNoneUpdates (Expr.call f arguments (f.resultType arguments) location).description
      arguments).Always (Known R k focus K n) (Refused updating) fun _ => True :=
    requireNoneUpdates_always fun e member => (ready e member).bears
  have limits : options.Always (Known R k focus K n) (Refused updating) fun _ => True := Always.options
  refine .after quiet fun _ _ => .after limits fun most _ => ?_
  dsimp only
  generalize (if f = .error then none else literalItems? arguments) = count at counted ⊢
  split
  · intro c _ a c' impossible
    cases impossible
  · split
    · next few =>
        obtain ⟨n, found, _⟩ := (Option.any_eq_true _ _).1 few
        obtain ⟨other, literals⟩ := counted n found
        refine .still (precompute_known rules held trivial literals whole.bears fun null => ?_)
        cases null with
        | call selects input => exact selected_nothing rules held selects literals whole.bears input
        | error => exact absurd rfl other
    · -- What the functions below give is nothing only if their first argument is.
      split
      · refine (reduceHead_leads rules whole).mono fun m e _ turned => turned.when fun null => ?_
        cases null with
        | call _ input => exact input
      · exact .still ((reduceCount_known rules whole).mono fun e turned =>
          turned.when fun null => absurd (Expr.null_call null) (by decide))
      · exact (reduceFold_leads rules held simplifies (ready _ (by simp)) (ready _ (by simp)) whole).mono
          fun m e _ turned => turned.when fun null => absurd (Expr.null_call null) (by decide)
      · exact .pure ⟨whole, id⟩

end Steps

/-! ## Scopes -/

theorem scopeOfLet_records {var : Variable} {bound : Expr} (undeclared : var.declared = none) (new : ¬K.bound var.id)
    (justified : bound.Justified K) :
    ∀ entry ∈ scopeOfLet var bound, (K.add var.id (bound.Null K.empty)).Records entry := by
  intro entry member
  unfold scopeOfLet at member
  dsimp only at member
  split at member
  · next v found =>
      simp only [Scope.setValue, Scope.add, Scope.change, if_true, List.mem_singleton] at member
      subst member
      obtain ⟨literal, _⟩ := Option.filter_eq_some_iff.1 found
      -- Only a literal is recorded with its value.
      cases bound with
      | literal w =>
          cases literal
          refine ⟨fun type same zero => .inl ⟨rfl, justified.nil (StaticType.isNil_sized.2 ?_)⟩, fun _ _ => .inl rfl,
            fun u same empty => ?_⟩
          · have sized : v.sequenceType.occurrence = .ofSize v.size := by cases v <;> rfl
            cases same
            exact Occurrence.size_of_zero (sized ▸ zero)
          · cases same
            rcases empty with ⟨_, null⟩ | known
            · cases null
              rfl
            · exact absurd (K.within _ known) new
      | _ => cases literal
  · simp only [Scope.setType, Scope.add, Scope.change, if_true, List.mem_singleton] at member
    subst member
    refine ⟨fun type same zero => .inl ⟨rfl, justified.nil (.inl ?_)⟩, fun _ none => (by cases none),
      fun _ none => by cases none⟩
    cases same
    rwa [undeclared] at zero

theorem scopeOfFor_records {var : Variable} {source : Expr} (undeclared : var.declared = none) :
    ∀ entry ∈ scopeOfFor var source, K.Records entry := by
  intro entry member
  simp only [scopeOfFor, Scope.setType, Scope.add, Scope.change, if_true, List.mem_singleton] at member
  subst member
  refine ⟨fun type same zero => ?_, fun _ none => (by cases none), fun _ none => by cases none⟩
  cases same
  rw [undeclared] at zero
  cases zero

end Compile

/-! ## Trees -/

namespace Expr

open Compile

variable {again : Expr → Compile Expr} {e : Expr}

/-- What compilation makes of some expressions, in order. -/
structure TurnedAll (k : Kind) (updating : Prop) (K : Surroundings) (es : List Expr) (m : Nat) (es' : List Expr) :
    Prop where
  length : es.length = es'.length
  each : ∀ pair ∈ es.zip es', pair.2.Turned k updating (pair.1.Null K.empty) K m

theorem TurnedAll.ready {es es' : List Expr} (turned : TurnedAll k updating K es m es') :
    ∀ e' ∈ es', e'.Ready k updating K m := by
  intro e' member
  obtain ⟨e, _, paired⟩ := mem_zip_of_mem_right turned.length member
  exact (turned.each _ paired).toReady

theorem TurnedAll.null {es es' : List Expr} (turned : TurnedAll k updating K es m es')
    (nulls : ∀ e ∈ es, e.Null K.empty) : ∀ e' ∈ es', e'.Null K.empty := by
  intro e' member
  obtain ⟨e, original, paired⟩ := mem_zip_of_mem_right turned.length member
  exact (turned.each _ paired).null (nulls e original)

/-- A call gives nothing after its arguments have been compiled if it gave nothing before. -/
theorem TurnedAll.call_null {es es' : List Expr} {f : BuiltIn} {type type' : StaticType}
    {location : Option Location} (turned : TurnedAll k updating K es m es')
    (null : (call f es type location).Null K.empty) : (call f es' type' location).Null K.empty := by
  cases null with
  | @call _ _ argument others _ _ selects input =>
      cases es' with
      | nil => cases turned.length
      | cons argument' others' =>
          exact .call selects ((turned.each (argument, argument') List.mem_cons_self).null input)
  | error => exact .error

/-- Compilation turns the expression into one that gives nothing if it did, under any focus and in all
surroundings. -/
def Turns (calls : Calls) (R : Context → Prop) (F : Focus → Prop) (k : Kind) (updating : Prop)
    (again : Expr → Compile Expr) (e : Expr) : Prop :=
  ∀ ⦃focus : Focus⦄ ⦃K : Surroundings⦄ ⦃n : Nat⦄, F focus → e.Ready k updating K n →
    (optimizeWith calls again e).Leads R k focus K n (Turned k updating (e.Null K.empty) K)

theorem optimizeAllWith_leads {es : List Expr} (held : F focus) (parts : ∀ e ∈ es, e.Turns calls R F k updating again)
    (ready : ∀ e ∈ es, e.Ready k updating K n) :
    (optimizeAllWith calls again es).Leads R k focus K n (TurnedAll k updating K es) := by
  induction es generalizing n with
  | nil => exact .pure ⟨rfl, fun _ none => by cases none⟩
  | cons e rest rest_ih =>
      refine (parts e List.mem_cons_self held (ready e List.mem_cons_self)).bind fun m e' first turned => ?_
      refine (rest_ih (fun s member => parts s (List.mem_cons_of_mem _ member)) fun s member =>
        (ready s (List.mem_cons_of_mem _ member)).later first).bind fun l rest' second others => .pure ?_
      exact ⟨congrArg (· + 1) others.length, List.forall_mem_cons.2 ⟨turned.later second, others.each⟩⟩

/-- The first of two operands is compiled before the second one, and stays as it is. -/
theorem optimizeBoth_leads {B : Type} {S : Nat → B → Prop} {a b : Expr} {f : Expr → Expr → Compile B}
    (held : F focus) (first : a.Turns calls R F k updating again) (second : b.Turns calls R F k updating again)
    (left : a.Ready k updating K n) (right : b.Ready k updating K n)
    (rest : ∀ m a' b', n ≤ m → a'.Turned k updating (a.Null K.empty) K m →
      b'.Turned k updating (b.Null K.empty) K m → (f a' b').Leads R k focus K m S) :
    (do f (← optimizeWith calls again a) (← optimizeWith calls again b)).Leads R k focus K n S := by
  refine (first held left).bind fun m a' before left => ?_
  refine (second held (right.later before)).bind fun l b' after right => ?_
  exact rest l a' b' (Nat.le_trans before after) (left.later after) right

/-- What is known of a binding that can be compiled. -/
theorem Ready.ofLet {var : Variable} {bound body : Expr} {location : Option Location}
    (ready : (Expr.letIn var bound body location).Ready k updating K n) :
    (var.declared = none ∧ ¬K.bound var.id ∧ var.id < n) ∧ bound.Ready k updating K n ∧
      body.Ready k updating (K.add var.id (bound.Null K.empty)) n := by
  obtain ⟨bears, justified, made⟩ := ready
  obtain ⟨madeBound, others⟩ := List.forall_mem_append.1 made
  obtain ⟨mine, madeBody⟩ := List.forall_mem_cons.1 others
  cases justified with
  | node unbound => cases unbound
  | letIn undeclared new value result =>
      exact ⟨⟨undeclared, new, mine⟩, ⟨bears.part (by simp [parts]), value, madeBound⟩,
        bears.part (by simp [parts]), result, madeBody⟩

theorem Ready.ofFor {var : Variable} {source body : Expr} {type : StaticType} {location : Option Location}
    (ready : (Expr.forIn var source body type location).Ready k updating K n) :
    (var.declared = none ∧ ¬K.bound var.id ∧ var.id < n) ∧ source.Ready k updating K n ∧
      body.Ready k updating (K.add var.id False) n := by
  obtain ⟨bears, justified, made⟩ := ready
  obtain ⟨madeSource, others⟩ := List.forall_mem_append.1 made
  obtain ⟨mine, madeBody⟩ := List.forall_mem_cons.1 others
  cases justified with
  | node unbound => cases unbound
  | forIn _ undeclared new input result =>
      exact ⟨⟨undeclared, new, mine⟩, ⟨bears.part (by simp [parts]), input, madeSource⟩,
        bears.part (by simp [parts]), result, madeBody⟩

section Nodes

/-! ### One theorem for each kind of node -/

variable (rules : KnownRules calls R F k) {location : Option Location}

include rules

theorem list_turns {operands : List Expr} {type : StaticType}
    (parts : ∀ s ∈ operands, s.Turns calls R F k updating again) :
    (list operands type location).Turns calls R F k updating again := by
  intro focus K n held ready
  refine (optimizeAllWith_leads held parts fun s member => ready.part rfl member).bind fun m operands' _ turned => ?_
  have nulls : (list operands type location).Null K.empty → (listOf operands' location).Null K.empty := by
    intro null
    cases null with
    | list all => exact .list (turned.null all)
  exact .still ((reduceList_known rules held turned.ready fun zero =>
    nulls (ready.justified.nil (.inl zero))).mono fun e turned => turned.when nulls)

theorem range_turns {first last : Expr} {type : StaticType} (low : first.Turns calls R F k updating again)
    (high : last.Turns calls R F k updating again) :
    (range first last type location).Turns calls R F k updating again := by
  intro focus K n held ready
  have never : ∀ {e : Expr}, (range first last type location).Null K.empty → e.Null K.empty := by
    intro e null
    cases null
  refine optimizeBoth_leads held low high (ready.part rfl (by simp [parts])) (ready.part rfl (by simp [parts]))
    fun m first' last' _ low high => ?_
  have whole : (range first' last' type location).Ready k updating K m :=
    .node trivial rfl (.node rfl (fun nil => never (ready.justified.nil nil))
      (forall_pair low.justified high.justified)) (forall_pair low.toReady high.toReady)
  exact .still ((reduceRange_known rules held whole).mono fun e turned => ⟨turned.toReady, never⟩)

theorem arithmetic_turns {op : Operator} {a b : Expr} {type : StaticType} (left : a.Turns calls R F k updating again)
    (right : b.Turns calls R F k updating again) :
    (arithmetic op a b type location).Turns calls R F k updating again := by
  intro focus K n held ready
  refine optimizeBoth_leads held left right (ready.part rfl (by simp [parts])) (ready.part rfl (by simp [parts]))
    fun m a' b' _ left right => ?_
  have whole : (arithmeticOf op a' b' location).Ready k updating K m :=
    .node trivial rfl (arithmetic_justified left.justified right.justified) (forall_pair left.toReady right.toReady)
  refine .still ((reduceOperation_known (e := arithmeticOf op a' b' location) rules held trivial rfl rfl whole).mono
    fun e turned => turned.when fun null => ?_)
  cases null

theorem comparison_turns {op : Comparison} {a b : Expr} {type : StaticType} (left : a.Turns calls R F k updating again)
    (right : b.Turns calls R F k updating again) :
    (comparison op a b type location).Turns calls R F k updating again := by
  intro focus K n held ready
  refine optimizeBoth_leads held left right (ready.part rfl (by simp [parts])) (ready.part rfl (by simp [parts]))
    fun m a' b' _ left right => ?_
  have whole : (comparisonOf op a' b' location).Ready k updating K m :=
    .node trivial rfl (comparison_justified left.justified right.justified) (forall_pair left.toReady right.toReady)
  refine .still ((reduceOperation_known (e := comparisonOf op a' b' location) rules held trivial rfl rfl whole).mono
    fun e turned => turned.when fun null => ?_)
  cases null

theorem conditional_turns {test yes no : Expr} {type : StaticType} (condition : test.Turns calls R F k updating again)
    (positive : yes.Turns calls R F k updating again) (negative : no.Turns calls R F k updating again) :
    (conditional test yes no type location).Turns calls R F k updating again := by
  intro focus K n held ready
  refine (condition held (ready.part rfl (by simp [parts]))).bind fun m test' before condition => ?_
  refine .after (requireNoUpdates_always condition.bears) fun _ _ => ?_
  refine optimizeBoth_leads held positive negative ((ready.part rfl (by simp [parts])).later before)
    ((ready.part rfl (by simp [parts])).later before) fun l yes' no' after positive negative => ?_
  have whole : (conditionalOf test' yes' no' location).Ready k updating K l :=
    .node trivial rfl (conditional_justified condition.justified positive.justified negative.justified)
      (List.forall_mem_cons.2 ⟨condition.toReady.later after, forall_pair positive.toReady negative.toReady⟩)
  refine .still ((reduceConditional_known rules whole).mono fun e turned => turned.when fun null => ?_)
  cases null with
  | conditional left right => exact .conditional (positive.null left) (negative.null right)

theorem filter_turns {base : Expr} {predicates : List Expr} {type : StaticType}
    (input : base.Turns calls R F k updating again)
    (conditions : ∀ s ∈ predicates, s.Turns calls R F k updating again) :
    (filter base predicates type location).Turns calls R F k updating again := by
  intro focus K n held ready
  refine (input held (ready.part rfl List.mem_cons_self)).bind fun m base' before input => ?_
  refine .after (requireNoUpdates_always input.bears) fun _ _ => ?_
  refine .after ((contextItem?_always rules.toCompileRules held
    fun e same => by cases same; exact input.bears).known (contextItem?_still _)) fun found pushed => ?_
  have item : ∀ v, found.map ValueOf.one = some v → v.size ≠ 0 := by
    intro v same
    obtain ⟨item, _, rfl⟩ := Option.map_eq_some_iff.1 same
    exact Nat.one_ne_zero
  refine (Leads.withFocus rules.setFocus item (optimizeAllWith_leads pushed conditions fun s member =>
    (ready.part rfl (List.mem_cons_of_mem _ member)).later before)).bind fun l predicates' after conditions => ?_
  have nulls : (filter base predicates type location).Null K.empty → base'.Null K.empty := by
    intro null
    cases null with
    | filter none => exact input.null none
  exact .still ((reduceFilter_known rules held (input.toReady.later after) conditions.ready
    fun zero => nulls (ready.justified.nil (.inl zero))).mono fun e turned => turned.when nulls)

theorem letIn_turns {var : Variable} {bound body : Expr} (value : bound.Turns calls R F k updating again)
    (result : body.Turns calls R F k updating again) :
    (letIn var bound body location).Turns calls R F k updating again := by
  intro focus K n held ready
  obtain ⟨⟨undeclared, new, made⟩, outer, inner⟩ := ready.ofLet
  refine (value held outer).bind fun m bound' before value => ?_
  refine .after (requireNoUpdates_always value.bears) fun _ _ => ?_
  -- Now it is known whether the variable is empty.
  have knows : (K.add var.id (bound.Null K.empty)).Knows (K.add var.id (bound'.Null K.empty)) :=
    K.knows_refl.add value.null
  refine ((result held ((inner.later before).mono knows)).inScope new (Nat.lt_of_lt_of_le made before)
    (scopeOfLet_recorded value.bears) (scopeOfLet_records undeclared new value.justified)).bind
      fun l body' after result => ?_
  have whole : (letIn var bound' body' location).Ready k updating K l :=
    .letIn undeclared new (Nat.lt_of_lt_of_le made (Nat.le_trans before after)) (value.toReady.later after)
      result.toReady
  have nulls : (letIn var bound body location).Null K.empty → (letIn var bound' body' location).Null K.empty :=
    fun null => null_let.2 (result.null ((null_let.1 null).mono knows.empty))
  exact .still ((reduceLet_known rules whole fun zero => nulls (ready.justified.nil (.inl zero))).mono
    fun e turned => turned.when nulls)

omit rules in
theorem dynamicCall_turns {callee : Expr} {arguments : List Expr} {type : StaticType}
    (function : callee.Turns calls R F k updating again) (parts : ∀ s ∈ arguments, s.Turns calls R F k updating again) :
    (dynamicCall callee arguments type location).Turns calls R F k updating again := by
  intro focus K n held ready
  have never : ∀ {e : Expr}, (dynamicCall callee arguments type location).Null K.empty → e.Null K.empty := by
    intro e null
    cases null
  refine (function held (ready.part rfl List.mem_cons_self)).bind fun m callee' before function => ?_
  refine (optimizeAllWith_leads held parts fun s member =>
    (ready.part rfl (List.mem_cons_of_mem _ member)).later before).bind fun l arguments' after turned => ?_
  refine .after (requireNoUpdates_always function.bears) fun _ _ => ?_
  refine .after (requireNoneUpdates_always fun e member => (turned.ready e member).bears) fun _ _ => .pure ⟨?_, never⟩
  have all := List.forall_mem_cons.2 ⟨function.toReady.later after, turned.ready⟩
  exact .node trivial rfl (.node rfl (fun nil => never (ready.justified.nil nil)) fun s member =>
    (all s member).justified) all

omit rules in
theorem delete_turns {target : Expr} (input : target.Turns calls R F k updating again) :
    (delete target location).Turns calls R F k updating again := by
  intro focus K n held ready
  refine (input held (ready.part rfl (by simp [parts]))).bind fun m target' _ input => ?_
  refine .after (requireNoUpdates_always input.bears) fun _ _ => .pure ⟨?_, fun _ => .delete⟩
  exact .node ready.bears.here rfl (.node rfl (fun _ => .delete) (List.forall_mem_singleton.2 input.justified))
    (List.forall_mem_singleton.2 input.toReady)

variable (simplifies : AgainLeads R F k updating again)

include simplifies

theorem forIn_turns {var : Variable} {source body : Expr} {type : StaticType}
    (input : source.Turns calls R F k updating again) (result : body.Turns calls R F k updating again) :
    (forIn var source body type location).Turns calls R F k updating again := by
  intro focus K n held ready
  obtain ⟨⟨undeclared, new, made⟩, outer, inner⟩ := ready.ofFor
  refine (input held outer).bind fun m source' before input => ?_
  refine .after (requireNoUpdates_always input.bears) fun _ _ => ?_
  split
  · exact .still (replace_known rules (.emptySequence rules) fun _ => .literal)
  · next some =>
      -- The variable is one item at a time, so that it is never found to be empty.
      refine ((result held (inner.later before)).inScope new (Nat.lt_of_lt_of_le made before)
        scopeOfFor_recorded (scopeOfFor_records undeclared)).bind fun l body' after result => ?_
      have nulls : (forIn var source body type location).Null K.empty →
          (forOf var source' body' location).Null K.empty := by
        have result := result.null
        rw [K.add_false] at result
        exact fun null => null_for.2 ((null_for.1 null).imp input.null result)
      exact (reduceFor_leads rules held simplifies (Bool.eq_false_iff.2 some) undeclared new
        (Nat.lt_of_lt_of_le made (Nat.le_trans before after)) (input.toReady.later after) result.toReady
        fun zero => nulls (ready.justified.nil (.inl zero))).mono fun _ e later turned => turned.when nulls

theorem call_turns {f : BuiltIn} {arguments : List Expr} {type : StaticType}
    (parts : ∀ s ∈ arguments, s.Turns calls R F k updating again) :
    (call f arguments type location).Turns calls R F k updating again := by
  intro focus K n held ready
  refine (optimizeAllWith_leads held parts fun s member => ready.part rfl member).bind fun m arguments' _ turned => ?_
  exact (reduceCall_leads rules held simplifies turned.ready).mono fun _ e _ result =>
    result.when fun null => turned.call_null null

end Nodes

theorem optimizeWith_turns (rules : KnownRules calls R F k) (simplifies : AgainLeads R F k updating again) (e : Expr) :
    e.Turns calls R F k updating again := by
  induction e using byParts with
  | step e part =>
    intro focus K n held ready
    cases e with
    | literal v => exact .pure ⟨ready, id⟩
    | root | documents | deferred => exact .pure ⟨ready, id⟩
    | contextValue type location =>
        refine .still ((reduceContextValue_known ready).mono fun e turned => turned.when fun null => ?_)
        cases null
    | varRef var type location =>
        have nil : type.IsNil → K.empty var.id := fun nil => by
          cases ready.justified.nil nil with
          | varRef empty => exact empty
        refine .still ((reduceReference_known rules nil).mono fun e turned => turned.when fun null => ?_)
        cases null with
        | varRef empty => exact empty
    | list operands type location => exact list_turns rules part held ready
    | range first last type location =>
        exact range_turns rules (part first (by simp [parts])) (part last (by simp [parts])) held ready
    | arithmetic op a b type location =>
        exact arithmetic_turns rules (part a (by simp [parts])) (part b (by simp [parts])) held ready
    | comparison op a b type location =>
        exact comparison_turns rules (part a (by simp [parts])) (part b (by simp [parts])) held ready
    | conditional test yes no type location =>
        exact conditional_turns rules (part test (by simp [parts])) (part yes (by simp [parts]))
          (part no (by simp [parts])) held ready
    | filter base predicates type location =>
        exact filter_turns rules (part base List.mem_cons_self)
          (fun s member => part s (List.mem_cons_of_mem _ member)) held ready
    | letIn var bound body location =>
        exact letIn_turns rules (part bound (by simp [parts])) (part body (by simp [parts])) held ready
    | forIn var source body type location =>
        exact forIn_turns rules simplifies (part source (by simp [parts])) (part body (by simp [parts])) held ready
    | call f arguments type location => exact call_turns rules simplifies part held ready
    | dynamicCall callee arguments type location =>
        exact dynamicCall_turns (part callee List.mem_cons_self)
          (fun s member => part s (List.mem_cons_of_mem _ member)) held ready
    | delete target location => exact delete_turns (part target (by simp [parts])) held ready

variable (rules : KnownRules calls R F k)

include rules

theorem optimizeWithin_leads (depth : Nat) : AgainLeads R F k updating (optimizeWithin calls depth) := by
  induction depth with
  | zero =>
      have stays : AgainLeads R F k updating pure := fun focus K n e _ ready => .pure ⟨ready, id⟩
      exact fun focus K n e held ready => optimizeWith_turns rules stays e held ready
  | succ depth depth_ih => exact fun focus K n e held ready => optimizeWith_turns rules depth_ih e held ready

/-- In a compiled tree nodes of a type of nothing give nothing. -/
theorem optimize_leads (held : F focus) (ready : e.Ready k updating K n) :
    (e.optimizeBy calls).Leads R k focus K n (Turned k updating (e.Null K.empty) K) :=
  optimizeWithin_leads rules _ focus K n e held ready

end Expr

end QueryKernel
