import QueryKernel.Proofs.Compile.Always
import QueryKernel.Proofs.Compile.Literals
import QueryKernel.Proofs.Eval.Everywhere

/-!
# Compilation keeps conditions

A condition on the context that evaluation of constant parts keeps is kept by compilation, the focus is
put back, and the only errors are those about updates.

Constant parts are really evaluated, function items in literals included, and what comes out is a literal
of the compiled tree that may be called later on.  So the condition on the context and the kind of the literals
are carried together.

## Definitions

* `CompileRules` are what the condition, the focuses and the kind have to satisfy.
* `Steady` is the condition on the state of a compilation, `Refused` the errors there may be.
* `Expr.IsOperation` has the nodes that may be computed in advance.
-/

namespace QueryKernel

/-- What a condition on the context, one on the focus and a kind of literals have to satisfy so that
compilation keeps them. -/
structure CompileRules (calls : Calls) (R : Context → Prop) (F : Focus → Prop) (k : Kind) : Prop
    extends Rules R F k where
  nextVariable : ∀ c n, R c → R { c with nextVariable := n }
  nextIdentity : ∀ c n, R c → R { c with nextIdentity := n }
  forest : ∀ c forest, R c → R { c with forest }
  trace : ∀ c trace, R c → R { c with trace }
  emptyMap : ∀ identity type, k.item (.map identity [] type)
  emptyArray : ∀ identity type, k.item (.array identity [] type)
  narrow : ∀ v known, k.value v → k.value (v.narrow known)
  unfocused : F (.ofValue none)
  pushed : ∀ item, k.item item → F (.ofValue (some (.one item)))
  /-- The first item of a focus may be the focus of a predicate. -/
  refocused : ∀ focus v item, F focus → focus.value = some v → v.first? = some item →
    F (.ofValue (some (.one item)))
  pairs : ∀ callee focus, F focus → k.item callee →
    calls.PairAlways (At R focus) k callee

/-- The condition holds of the context, the focus is the given one, and the values recorded for variables
are of the kind. -/
structure Steady (R : Context → Prop) (k : Kind) (focus : Focus) (c : CompileContext) : Prop where
  context : At R focus c.context
  recorded : ∀ scope ∈ c.scopes, ∀ entry ∈ scope, ∀ v, entry.value = some v → k.value v

/-- The errors of compilation: an update where none is allowed, and only if there are updates. -/
def Refused (updating : Prop) (cause : Cause Expr) : Prop :=
  updating ∧ ∃ description, cause = .updateNotAllowed description ∨ cause = .mixedUpdates description

/-- The nodes that are computed in advance if their operands are literals. -/
def Expr.IsOperation : Expr → Prop
  | list .. | range .. | arithmetic .. | comparison .. | filter .. | call .. => True
  | _ => False

variable {calls : Calls} {R : Context → Prop} {F : Focus → Prop} {k : Kind} {updating : Prop} {focus : Focus}

namespace Compile

open QueryKernel.Expr (Bears)

/-! ## Single steps -/

theorem scope_recorded {scope : Scope} {id : Nat} {v : Value} (found : scope.value? id = some v) :
    ∃ entry ∈ scope, entry.value = some v := by
  obtain ⟨entry, latest, recorded⟩ := Option.bind_eq_some_iff.1 found
  exact ⟨entry, List.mem_of_find?_eq_some latest, recorded⟩

theorem variableValue_of_kind {c : CompileContext} (steady : Steady R k focus c) {id : Nat} {v : Value}
    (found : c.variableValue? id = some v) : k.value v := by
  obtain ⟨scope, member, inside⟩ := List.exists_of_findSome?_eq_some found
  obtain ⟨entry, here, recorded⟩ := scope_recorded inside
  exact steady.recorded scope member entry here v recorded

theorem literal_bears {v : Value} (given : k.value v) : (Expr.literal v).Every (Bears k updating) :=
  .node given fun _ member => by cases member

/-! ## Updates in their places -/

section Required

variable {Inv : CompileContext → Prop}

theorem requireNoUpdates_always {description : String} {e : Expr} (bears : e.Every (Bears k updating)) :
    (requireNoUpdates description e).Always Inv (Refused updating) fun _ => True := by
  unfold requireNoUpdates
  split
  · next updates =>
      exact .raise ⟨Expr.updating_of_hasUpdates bears updates, description, .inl rfl⟩
  · exact .pure trivial

theorem requireNoneUpdates_always {description : String} {es : List Expr}
    (bears : ∀ e ∈ es, e.Every (Bears k updating)) :
    (requireNoneUpdates description es).Always Inv (Refused updating) fun _ => True := by
  induction es with
  | nil => exact .pure trivial
  | cons e rest rest_ih =>
      refine (requireNoUpdates_always (bears e List.mem_cons_self)).bind fun _ _ => ?_
      exact rest_ih fun other member => bears other (List.mem_cons_of_mem _ member)

theorem requireUniformUpdates_always {description : String} {operands : List Expr}
    (bears : ∀ e ∈ operands, e.Every (Bears k updating)) :
    (requireUniformUpdates description operands).Always Inv (Refused updating) fun _ => True := by
  unfold requireUniformUpdates
  split
  · exact .pure trivial
  · next first rest counted =>
      have inside : ∀ e ∈ first :: rest, e.Every (Bears k updating) := by
        intro e member
        rw [← counted] at member
        exact bears e (List.mem_filter.1 member).1
      split
      · next e found =>
          refine .raise ⟨?_, description, .inr rfl⟩
          -- The two disagree, so that one of them updates.
          have differ : e.hasUpdates ≠ first.hasUpdates := by
            simpa using List.find?_some found
          cases updates : e.hasUpdates with
          | true =>
              have member := List.mem_cons_of_mem first (List.mem_of_find?_eq_some found)
              exact Expr.updating_of_hasUpdates (inside e member) updates
          | false =>
              rw [updates] at differ
              have other : first.hasUpdates = true := by
                cases same : first.hasUpdates with
                | true => rfl
                | false => exact absurd same.symm differ
              exact Expr.updating_of_hasUpdates (inside first List.mem_cons_self) other
      · exact .pure trivial

end Required

theorem reduceContextValue_always {type : StaticType} {location : Option Location} :
    (reduceContextValue type location).Always (Steady R k focus) (Refused updating)
      fun e => e.Every (Bears k updating) := by
  refine Always.state.bind fun c _ => ?_
  split <;> exact .pure (.node trivial fun _ member => by cases member)

theorem literal_of_mapM {arguments : List Expr} {values : List Value}
    (found : arguments.mapM Expr.literal? = some values) : ∀ e ∈ arguments, e.isLiteral = true := by
  induction arguments generalizing values with
  | nil => exact fun _ member => by cases member
  | cons e rest rest_ih =>
      rw [List.mapM_cons] at found
      obtain ⟨v, here, others⟩ := Option.bind_eq_some_iff.1 found
      obtain ⟨rest', later, _⟩ := Option.bind_eq_some_iff.1 others
      intro other member
      rcases List.mem_cons.1 member with rfl | old
      · cases other with
        | literal w => rfl
        | _ => cases here
      · exact rest_ih later other old

/-- An operation on literals does what its calls do. -/
theorem operation_observes {e : Expr} (pairs : ∀ callee focus, F focus → k.item callee →
      calls.PairAlways (At R focus) k callee) (operation : e.IsOperation)
    (literals : ∀ s ∈ e.parts, s.isLiteral = true) (bears : e.Every (Bears k updating)) :
    e.Every (Expr.Observes R F k calls) := by
  refine .node ?_ fun s member => ?_
  · cases e with
    | call f arguments type location => exact fun _ callee focus held given => pairs callee focus held given
    | list | range | arithmetic | comparison | filter => trivial
    | _ => exact operation.elim
  · have constant := literals s member
    have here := (bears.part member).here
    cases s with
    | literal v => exact .node here fun _ inside => by cases inside
    | _ => cases constant

/-! ## Scopes -/

theorem inScope_always {A : Type} {P : A → Prop} {scope : Scope} {x : Compile A}
    (always : x.Always (Steady R k focus) (Refused updating) P)
    (recorded : ∀ entry ∈ scope, ∀ v, entry.value = some v → k.value v) :
    (inScope scope x).Always (Steady R k focus) (Refused updating) P := by
  refine .inScope always (fun c steady => ⟨steady.context, ?_⟩) fun c after steady kept => ?_
  · intro other member
    rcases List.mem_cons.1 member with rfl | outer
    · exact recorded
    · exact steady.recorded other outer
  · exact ⟨kept.context, steady.recorded⟩

theorem scopeOfLet_recorded {var : Variable} {bound : Expr} (bears : bound.Every (Bears k updating)) :
    ∀ entry ∈ scopeOfLet var bound, ∀ v, entry.value = some v → k.value v := by
  intro entry member v recorded
  unfold scopeOfLet at member
  dsimp only at member
  split at member
  · next w found =>
      simp only [Scope.setValue, Scope.add, Scope.change, if_true, List.mem_singleton] at member
      subst member
      cases recorded
      obtain ⟨literal, _⟩ := Option.filter_eq_some_iff.1 found
      cases bound with
      | literal w =>
          cases literal
          exact bears.here
      | _ => cases literal
  · simp only [Scope.setType, Scope.add, Scope.change, if_true, List.mem_singleton] at member
    subst member
    cases recorded

theorem scopeOfFor_recorded {var : Variable} {source : Expr} :
    ∀ entry ∈ scopeOfFor var source, ∀ v, entry.value = some v → k.value v := by
  intro entry member v recorded
  simp only [scopeOfFor, Scope.setType, Scope.add, Scope.change, if_true, List.mem_singleton] at member
  subst member
  cases recorded

section Steps

variable (rules : CompileRules calls R F k)

include rules

theorem note_always {message : String} {texts : List String} :
    (note message texts).Always (Steady R k focus) (Refused updating) fun _ => True :=
  .change fun c steady =>
    ⟨⟨steady.context.focus_eq, rules.trace c.context _ steady.context.rest⟩, steady.recorded⟩

theorem noteReplacement_always {verb : String} {before : ExprSummary} {after : Expr} :
    (noteReplacement verb before after).Always (Steady R k focus) (Refused updating) fun _ => True := by
  refine Always.options.bind fun most _ => ?_
  dsimp only
  split
  · exact .pure trivial
  · exact note_always rules

theorem replace_always {before : ExprSummary} {after : Expr} (bears : after.Every (Bears k updating)) :
    (replace before after).Always (Steady R k focus) (Refused updating)
      fun e => e.Every (Bears k updating) :=
  (noteReplacement_always rules).bind fun _ _ => .pure (Expr.bears_narrow rules.narrow bears _)

theorem replaceWith_always {e after : Expr} (bears : after.Every (Bears k updating)) :
    (replaceWith e after).Always (Steady R k focus) (Refused updating)
      fun e => e.Every (Bears k updating) := replace_always rules bears

theorem emptySequence_bears : Expr.emptySequence.Every (Bears k updating) :=
  literal_bears rules.lawful.empty

theorem copying_always {A : Type} {P : A → Prop} {renames : Renaming} {copy : Copying → A × Copying}
    (copies : ∀ s, P (copy s).1) :
    (copying renames copy).Always (Steady R k focus) (Refused updating) fun copied => P copied.1 := by
  refine .copying copies fun c n declared steady => ?_
  refine ⟨⟨steady.context.focus_eq, rules.nextVariable _ n steady.context.rest⟩, ?_⟩
  intro scope member entry inside v recorded
  rcases List.mem_cons.1 member with rfl | outer
  · rcases List.mem_append.1 inside with new | old
    · obtain ⟨var, _, rfl⟩ := List.mem_map.1 new
      cases recorded
    · exact steady.recorded _ List.mem_cons_self entry old v recorded
  · exact steady.recorded scope (List.mem_cons_of_mem _ outer) entry inside v recorded

theorem copy_always {e : Expr} {renames : Renaming} (bears : e.Every (Bears k updating)) :
    (copy e renames).Always (Steady R k focus) (Refused updating)
      fun copied => copied.1.Every (Bears k updating) :=
  copying_always rules fun s => Expr.copy_bears bears s

theorem copyVariable_always {var : Variable} {renames : Renaming} :
    (copyVariable var renames).Always (Steady R k focus) (Refused updating) fun _ => True :=
  copying_always (P := fun _ => True) rules fun _ => trivial

/-! ## Stand-ins for items -/

theorem newNode_always {build : Forest → Node × Forest} :
    (newNode build).Always (Steady R k focus) (Refused updating)
      fun found => ∀ item, found = some item → k.item item := by
  intro c steady
  refine ⟨⟨⟨steady.context.focus_eq, rules.forest _ _ steady.context.rest⟩, steady.recorded⟩,
    fun found same item some => ?_, fun _ impossible => by cases impossible⟩
  cases same
  cases some
  exact rules.node _

theorem newItem_always {item : Nat → Item} (holds : ∀ identity, k.item (item identity)) :
    (newItem item).Always (Steady R k focus) (Refused updating)
      fun found => ∀ item, found = some item → k.item item := by
  intro c steady
  refine ⟨⟨⟨steady.context.focus_eq, rules.nextIdentity _ _ steady.context.rest⟩, steady.recorded⟩,
    fun found same item some => ?_, fun _ impossible => by cases impossible⟩
  cases same
  cases some
  exact holds _

/-- A stand-in is of the kind, or the first of the known items. -/
theorem placeholder?_always {P : Item → Prop} (kind : ∀ item, k.item item → P item) {type : ItemType}
    {known : Option Value} (first : ∀ v item, known = some v → v.first? = some item → P item)
    {source : Option DataSource} :
    (placeholder? type known source).Always (Steady R k focus) (Refused updating)
      fun found => ∀ item, found = some item → P item := by
  have made : ∀ {x : Compile (Option Item)}, x.Always (Steady R k focus) (Refused updating)
      (fun found => ∀ item, found = some item → k.item item) →
      x.Always (Steady R k focus) (Refused updating) fun found => ∀ item, found = some item → P item :=
    fun always => always.mono fun found holds item same => kind item (holds item same)
  -- What is known comes first, then the stored document, and only then an item of the type.
  unfold placeholder?
  split
  · next item found =>
      refine .pure fun other same => ?_
      cases same
      obtain ⟨inside, _⟩ := Option.filter_eq_some_iff.1 found
      obtain ⟨v, given, isFirst⟩ := Option.bind_eq_some_iff.1 inside
      exact first v _ given isFirst
  · refine .pure fun other same => ?_
    cases same
    exact kind _ (rules.node _)
  · split
    · next atomic =>
        refine .pure fun other same => ?_
        obtain ⟨a, _, rfl⟩ := Option.map_eq_some_iff.1 same
        exact kind _ (rules.atom a)
    · exact made (newNode_always rules)
    · exact made (newNode_always rules)
    · exact made (newNode_always rules)
    · exact made (newItem_always rules fun _ => rules.emptyMap _ _)
    · exact made (newItem_always rules fun _ => rules.emptyArray _ _)
    · exact .pure fun _ none => by cases none

/-- The first item of the value that the focus would have for an expression may be a focus. -/
theorem contextValue?_always (held : F focus) {base : Option Expr}
    (bears : ∀ e, base = some e → e.Every (Bears k updating)) :
    (contextValue? base).Always (Steady R k focus) (Refused updating)
      fun found => ∀ v item, found = some v → v.first? = some item →
        F (.ofValue (some (.one item))) := by
  refine Always.state.bind fun c steady => ?_
  have present : ∀ v item, c.context.focus.value = some v → v.first? = some item →
      F (.ofValue (some (.one item))) := by
    rw [steady.context.focus_eq]
    exact fun v item => rules.refocused focus v item held
  have ofKind : ∀ v item, k.value v → v.first? = some item → F (.ofValue (some (.one item))) :=
    fun v item given isFirst => rules.pushed item (rules.lawful.get? given isFirst)
  dsimp only
  -- The value is the one around, the roots of its trees, a literal, or one item that stands in.
  split
  · exact .pure present
  · exact .pure present
  · refine .pure fun v item found isFirst => ?_
    obtain ⟨w, around, same⟩ := Option.map_eq_some_iff.1 found
    split at same
    · next roots _ =>
        subst same
        refine ofKind _ item (rules.lawful.ofItems fun item member => ?_) isFirst
        obtain ⟨n, _, rfl⟩ := List.mem_map.1 member
        exact rules.node n
    · subst same
      exact present _ item around isFirst
  · next w =>
      refine .pure fun v item found isFirst => ?_
      cases found
      exact ofKind _ item (bears _ rfl).here isFirst
  · refine (placeholder?_always rules (P := k.item) (fun _ holds => holds) (fun v item none => by cases none)).bind
      fun found holds => .pure fun v item same isFirst => ?_
    obtain ⟨other, known, rfl⟩ := Option.map_eq_some_iff.1 same
    have isItem : other = item := by simpa [ValueOf.first?, ValueOf.get?] using isFirst
    subst isItem
    exact rules.pushed _ (holds _ known)

theorem contextItem?_always (held : F focus) {base : Option Expr}
    (bears : ∀ e, base = some e → e.Every (Bears k updating)) :
    (contextItem? base).Always (Steady R k focus) (Refused updating)
      fun found => F (.ofValue (found.map .one)) := by
  refine (contextValue?_always rules held bears).bind fun found holds => ?_
  split
  · exact .pure rules.unfocused
  · exact .pure rules.unfocused
  · next item => exact .pure (holds _ item rfl rfl)
  · next v _ _ =>
      refine (placeholder?_always rules (P := fun item => F (.ofValue (some (.one item))))
        (fun item => rules.pushed item) ?_).mono fun found given => ?_
      · intro w item same isFirst
        cases same
        exact holds _ item rfl isFirst
      · cases found with
        | none => exact rules.unfocused
        | some item => exact given item rfl

/-! ## Constant parts -/

/-- Computing something in advance keeps the condition, and an error is put off. -/
theorem precompute_always (held : F focus) {e : Expr} (operation : e.IsOperation)
    (literals : ∀ s ∈ e.parts, s.isLiteral = true) (bears : e.Every (Bears k updating)) :
    (precompute calls e).Always (Steady R k focus) (Refused updating) fun e => e.Every (Bears k updating) := by
  have evaluates := (Expr.modes_always rules.toRules
    (operation_observes rules.pairs operation literals bears) held).value
  have attempted : (attempt (e.modes calls).value).Always (Steady R k focus) (Refused updating)
      fun result => ∀ v, result = .ok v → k.value v :=
    .attempt (R := fun _ => At R focus) (fun _ _ => evaluates) (fun _ steady => steady.context)
      fun _ _ steady kept => ⟨kept, steady.recorded⟩
  refine attempted.bind fun result given => ?_
  cases result with
  | ok v =>
      refine (noteReplacement_always rules).bind fun _ _ => .pure ?_
      exact Expr.bears_narrow rules.narrow (literal_bears (given v rfl)) _
  | error e =>
      refine (noteReplacement_always rules).bind fun _ _ => .pure ?_
      exact .node trivial fun _ member => by cases member

/-! ## Nodes with simplified parts -/

theorem reduceList_always (held : F focus) {before : ExprSummary} {operands : List Expr}
    {location : Option Location} (bears : ∀ e ∈ operands, e.Every (Bears k updating)) :
    (reduceList calls before operands location).Always (Steady R k focus) (Refused updating)
      fun e => e.Every (Bears k updating) := by
  have kept : ∀ e ∈ operands.filter (!·.isEmptyLiteral), e.Every (Bears k updating) :=
    fun e member => bears e (List.mem_filter.1 member).1
  refine (requireUniformUpdates_always kept).bind fun _ _ => ?_
  split
  · exact replace_always rules (emptySequence_bears rules)
  · next operand alone =>
      exact replace_always rules (kept operand (by rw [alone]; exact List.mem_cons_self))
  · have whole : (Expr.listOf (operands.filter (!·.isEmptyLiteral)) location).Every (Bears k updating) :=
      .node trivial kept
    refine Always.options.bind fun most _ => ?_
    dsimp only
    split
    · next constant =>
        rw [Bool.and_eq_true] at constant
        exact precompute_always rules held trivial (List.all_eq_true.1 constant.1) whole
    · exact .pure whole

theorem reduceRange_always (held : F focus) {first last : Expr} {type : StaticType}
    {location : Option Location} (low : first.Every (Bears k updating))
    (high : last.Every (Bears k updating)) :
    (reduceRange calls first last type location).Always (Steady R k focus) (Refused updating)
      fun e => e.Every (Bears k updating) := by
  have whole : (Expr.range first last type location).Every (Bears k updating) :=
    .node trivial fun s member => by
      rcases List.mem_cons.1 member with rfl | other
      · exact low
      · rw [List.mem_singleton.1 other]
        exact high
  refine (requireNoUpdates_always low).bind fun _ _ => (requireNoUpdates_always high).bind fun _ _ => ?_
  dsimp only
  split
  · next constant =>
      rw [Bool.and_eq_true] at constant
      refine precompute_always rules held trivial (fun s member => ?_) whole
      rcases List.mem_cons.1 member with rfl | other
      · exact constant.1
      · rw [List.mem_singleton.1 other]
        exact constant.2
  · exact .pure whole

theorem reduceOperation_always (held : F focus) {e a b : Expr} (operation : e.IsOperation)
    (parts : e.parts = [a, b]) (bears : e.Every (Bears k updating)) :
    (reduceOperation calls e a b).Always (Steady R k focus) (Refused updating)
      fun e => e.Every (Bears k updating) := by
  have left : a.Every (Bears k updating) := bears.part (by simp [parts])
  have right : b.Every (Bears k updating) := bears.part (by simp [parts])
  refine (requireNoUpdates_always left).bind fun _ _ => (requireNoUpdates_always right).bind fun _ _ => ?_
  split
  · exact replaceWith_always rules (emptySequence_bears rules)
  · split
    · next constant =>
        rw [Bool.and_eq_true] at constant
        refine precompute_always rules held operation (fun s member => ?_) bears
        rw [parts] at member
        rcases List.mem_cons.1 member with rfl | other
        · exact constant.1
        · rw [List.mem_singleton.1 other]
          exact constant.2
    · exact .pure bears

theorem reduceConditional_always {test yes no : Expr} {location : Option Location}
    (condition : test.Every (Bears k updating)) (positive : yes.Every (Bears k updating))
    (negative : no.Every (Bears k updating)) :
    (reduceConditional test yes no location).Always (Steady R k focus) (Refused updating)
      fun e => e.Every (Bears k updating) := by
  have branches : ∀ e ∈ [yes, no], e.Every (Bears k updating) := by
    intro e member
    rcases List.mem_cons.1 member with rfl | other
    · exact positive
    · rw [List.mem_singleton.1 other]
      exact negative
  have whole : (Expr.conditionalOf test yes no location).Every (Bears k updating) :=
    .node trivial fun s member => by
      rcases List.mem_cons.1 member with rfl | other
      · exact condition
      · exact branches s other
  refine (requireUniformUpdates_always branches).bind fun _ _ => ?_
  dsimp only
  split
  · exact .pure whole
  · next v _ =>
      -- The boolean value of a literal touches no context.
      have decided : (attempt (Modes.ofLiteral v).boolean).Always (Steady R k focus) (Refused updating)
          fun result => ∀ b, result = .ok b → True :=
        .attempt (R := fun _ => At R focus)
          (fun _ _ => (Modes.Always.ofLiteral Kind.any_lawful trivial).boolean)
          (fun _ steady => steady.context) fun _ _ steady kept => ⟨kept, steady.recorded⟩
      refine decided.bind fun result _ => ?_
      cases result with
      | ok b =>
          refine replaceWith_always rules ?_
          cases b with
          | true => exact positive
          | false => exact negative
      | error e => exact .pure whole

theorem reduceFilter_always (held : F focus) {before : ExprSummary} {base : Expr}
    {predicates : List Expr} {location : Option Location} (input : base.Every (Bears k updating))
    (conditions : ∀ e ∈ predicates, e.Every (Bears k updating)) :
    (reduceFilter calls before base predicates location).Always (Steady R k focus) (Refused updating)
      fun e => e.Every (Bears k updating) := by
  refine (requireNoneUpdates_always conditions).bind fun _ _ => ?_
  dsimp only
  have whole : (Expr.filterOf base (predicates.filter (verdict · = .open)) location).Every
      (Bears k updating) :=
    .node trivial fun s member => by
      rcases List.mem_cons.1 member with rfl | other
      · exact input
      · exact conditions s (List.mem_filter.1 other).1
  split
  · exact replace_always rules (emptySequence_bears rules)
  · split
    · exact replace_always rules input
    · refine Always.options.bind fun most _ => ?_
      split
      · next constant =>
          rw [Bool.and_eq_true] at constant
          refine precompute_always rules held trivial (fun s member => ?_) whole
          rcases List.mem_cons.1 member with rfl | other
          · obtain ⟨few, others⟩ := constant
            cases s with
            | literal v => rfl
            | _ => cases few
          · exact List.all_eq_true.1 constant.2 s other
      · exact .pure whole

theorem reduceLet_always {before : ExprSummary} {var : Variable} {bound body : Expr}
    {location : Option Location} (value : bound.Every (Bears k updating))
    (result : body.Every (Bears k updating)) :
    (reduceLet before var bound body location).Always (Steady R k focus) (Refused updating)
      fun e => e.Every (Bears k updating) := by
  unfold reduceLet
  split
  · exact replace_always rules result
  · refine .pure (.node trivial fun s member => ?_)
    rcases List.mem_cons.1 member with rfl | other
    · exact value
    · rw [List.mem_singleton.1 other]
      exact result

theorem unrolledLoop_always {var : Variable} {body : Expr} {location : Option Location}
    {items : List Item} (result : body.Every (Bears k updating)) (all : ∀ item ∈ items, k.item item) :
    (unrolledLoop var body location items).Always (Steady R k focus) (Refused updating)
      fun bindings => ∀ e ∈ bindings, e.Every (Bears k updating) := by
  induction items with
  | nil => exact .pure fun _ member => by cases member
  | cons item rest rest_ih =>
      refine (copyVariable_always rules).bind fun copied _ => ?_
      refine (copy_always rules result).bind fun body' given => ?_
      refine (rest_ih fun other member => all other (List.mem_cons_of_mem _ member)).bind
        fun others holds => .pure fun e member => ?_
      rcases List.mem_cons.1 member with rfl | later
      · refine .node trivial fun s part => ?_
        rcases List.mem_cons.1 part with rfl | last
        · exact literal_bears (rules.lawful.one (all item List.mem_cons_self))
        · rw [List.mem_singleton.1 last]
          exact given
      · exact holds e later

/-- What is asked of the way to simplify what is unrolled. -/
def AgainAlways (R : Context → Prop) (F : Focus → Prop) (k : Kind) (updating : Prop)
    (again : Expr → Compile Expr) : Prop :=
  ∀ focus e, F focus → e.Every (Bears k updating) →
    (again e).Always (Steady R k focus) (Refused updating) fun e => e.Every (Bears k updating)

theorem reduceFor_always (held : F focus) {again : Expr → Compile Expr}
    (simplifies : AgainAlways R F k updating again) {before : ExprSummary} {var : Variable}
    {source body : Expr} {location : Option Location} (input : source.Every (Bears k updating))
    (result : body.Every (Bears k updating)) :
    (reduceFor again before var source body location).Always (Steady R k focus) (Refused updating)
      fun e => e.Every (Bears k updating) := by
  have whole : (Expr.forOf var source body location).Every (Bears k updating) :=
    .node trivial fun s member => by
      rcases List.mem_cons.1 member with rfl | other
      · exact input
      · rw [List.mem_singleton.1 other]
        exact result
  refine Always.options.bind fun most _ => ?_
  dsimp only
  split
  · exact .pure whole
  · next v found =>
      -- Only a literal is unrolled.
      have literal : source = .literal v := by
        obtain ⟨given, _⟩ := Option.filter_eq_some_iff.1 found
        cases source with
        | literal w =>
            cases given
            rfl
        | _ => cases given
      subst literal
      refine (unrolledLoop_always rules result (rules.lawful.items input.here)).bind
        fun bindings all => ?_
      have listed : (Expr.listOf bindings none).Every (Bears k updating) := .node trivial all
      exact (simplifies focus _ held listed).bind fun e given => replace_always rules given

theorem reduceReference_always {var : Variable} {type : StaticType} {location : Option Location} :
    (reduceReference var type location).Always (Steady R k focus) (Refused updating)
      fun e => e.Every (Bears k updating) := by
  refine Always.state.bind fun c steady => ?_
  split
  · next v found => exact replaceWith_always rules (literal_bears (variableValue_of_kind steady found))
  · split <;> exact .pure (.node trivial fun _ member => by cases member)

theorem reduceHead_always {e argument : Expr} (whole : e.Every (Bears k updating))
    (bears : argument.Every (Bears k updating)) :
    (reduceHead e argument).Always (Steady R k focus) (Refused updating)
      fun e => e.Every (Bears k updating) := by
  unfold reduceHead
  split
  · exact replaceWith_always rules bears
  · split
    · next first rest listed =>
        split
        · have inside : first ∈ argument.parts := by
            cases argument with
            | list operands type location =>
                cases listed
                exact List.mem_cons_self
            | _ => cases listed
          refine (copy_always rules (bears.part inside)).bind fun copied given => ?_
          exact replaceWith_always rules given
        · exact .pure whole
    · exact .pure whole

theorem countItem_kind {n : Nat} {item : Item} (made : countItem n = .ok item) : k.item item := by
  obtain ⟨a, rfl⟩ := countItem_atom made
  exact rules.atom a

theorem reduceCount_always {e argument : Expr} (whole : e.Every (Bears k updating)) :
    (reduceCount e argument).Always (Steady R k focus) (Refused updating)
      fun e => e.Every (Bears k updating) := by
  unfold reduceCount
  dsimp only
  cases argument.size? with
  | none => exact .pure whole
  | some n =>
      dsimp only
      split
      · next item made _ =>
          exact replaceWith_always rules (literal_bears (rules.lawful.one (countItem_kind rules made)))
      · exact .pure whole

theorem unrolledFold_always {callee : Expr} (function : callee.Every (Bears k updating))
    {items : List Item} (all : ∀ item ∈ items, k.item item) {result : Expr}
    (bears : result.Every (Bears k updating)) :
    (unrolledFold callee result items).Always (Steady R k focus) (Refused updating)
      fun e => e.Every (Bears k updating) := by
  induction items generalizing result with
  | nil => exact .pure bears
  | cons item rest rest_ih =>
      refine (copy_always rules function).bind fun copied given => ?_
      refine rest_ih (fun other member => all other (List.mem_cons_of_mem _ member)) ?_
      refine .node trivial fun s member => ?_
      rcases List.mem_cons.1 member with rfl | arguments
      · exact given
      · rcases List.mem_cons.1 arguments with rfl | last
        · exact bears
        · rw [List.mem_singleton.1 last]
          exact literal_bears (rules.lawful.one (all item List.mem_cons_self))

theorem reduceFold_always (held : F focus) {again : Expr → Compile Expr}
    (simplifies : AgainAlways R F k updating again) {e items callee : Expr}
    (whole : e.Every (Bears k updating)) (input : items.Every (Bears k updating))
    (function : callee.Every (Bears k updating)) :
    (reduceFold again e items callee).Always (Steady R k focus) (Refused updating)
      fun e => e.Every (Bears k updating) := by
  refine Always.options.bind fun most _ => ?_
  dsimp only
  split
  · exact .pure whole
  · next v found =>
      -- Only a literal is unrolled.
      have given : k.value v := by
        obtain ⟨literal, _⟩ := Option.filter_eq_some_iff.1 found
        cases items with
        | literal w =>
            cases literal
            exact input.here
        | _ => cases literal
      split
      · exact .pure whole
      · next first rest listed =>
          have all : ∀ item ∈ first :: rest, k.item item := by
            rw [← listed]
            exact rules.lawful.items given
          have start : (Expr.literal (.one first)).Every (Bears k updating) :=
            literal_bears (rules.lawful.one (all first List.mem_cons_self))
          refine (unrolledFold_always rules function
            (fun item member => all item (List.mem_cons_of_mem _ member)) start).bind fun calls bears => ?_
          refine (simplifies focus _ held bears).bind fun e simplified => ?_
          exact replaceWith_always rules simplified

theorem reduceCall_always (held : F focus) {again : Expr → Compile Expr}
    (simplifies : AgainAlways R F k updating again) {f : BuiltIn} {arguments : List Expr}
    {location : Option Location} (bears : ∀ e ∈ arguments, e.Every (Bears k updating)) :
    (reduceCall calls again f arguments location).Always (Steady R k focus) (Refused updating)
      fun e => e.Every (Bears k updating) := by
  have whole : (Expr.call f arguments (f.resultType arguments) location).Every (Bears k updating) :=
    .node trivial bears
  -- Items are counted only where all arguments are literals.
  have counted : ∀ n, (if f = .error then none else literalItems? arguments) = some n →
      ∀ e ∈ arguments, e.isLiteral = true := by
    intro n found
    split at found
    · cases found
    · obtain ⟨values, all, _⟩ := Option.map_eq_some_iff.1 found
      exact literal_of_mapM all
  refine (requireNoneUpdates_always bears).bind fun _ _ => Always.options.bind fun most _ => ?_
  dsimp only
  generalize (if f = .error then none else literalItems? arguments) = count at counted ⊢
  split
  · exact .broken
  · split
    · next few =>
        obtain ⟨n, found, _⟩ := (Option.any_eq_true _ _).1 few
        exact precompute_always rules held trivial (counted n found) whole
    · split
      · exact reduceHead_always rules whole (bears _ List.mem_cons_self)
      · exact reduceCount_always rules whole
      · exact reduceFold_always rules held simplifies whole (bears _ List.mem_cons_self)
          (bears _ (List.mem_cons_of_mem _ List.mem_cons_self))
      · exact .pure whole

/-! ## Focuses -/

theorem withFocus_always {A : Type} {P : A → Prop} {value : Option Value} {x : Compile A}
    (always : x.Always (Steady R k (.ofValue value)) (Refused updating) P) :
    (withFocus value x).Always (Steady R k focus) (Refused updating) P := by
  refine .withFocus always (fun c steady => ⟨⟨rfl, ?_⟩, steady.recorded⟩) fun c after steady kept => ?_
  · exact rules.setFocus c.context _ steady.context.rest
  · exact ⟨⟨steady.context.focus_eq, rules.setFocus after.context _ kept.context.rest⟩, kept.recorded⟩

end Steps

end Compile

namespace Expr

open Compile

variable {again : Expr → Compile Expr}

theorem optimizeAllWith_always {es : List Expr}
    (parts : ∀ e ∈ es, (optimizeWith calls again e).Always (Steady R k focus) (Refused updating)
      fun e => e.Every (Bears k updating)) :
    (optimizeAllWith calls again es).Always (Steady R k focus) (Refused updating)
      fun es => ∀ e ∈ es, e.Every (Bears k updating) := by
  induction es with
  | nil => exact .pure fun _ member => by cases member
  | cons e rest rest_ih =>
      refine (parts e List.mem_cons_self).bind fun e' here => ?_
      refine (rest_ih fun other member => parts other (List.mem_cons_of_mem _ member)).bind
        fun others holds => .pure fun other member => ?_
      rcases List.mem_cons.1 member with rfl | later
      · exact here
      · exact holds other later

section Trees

variable (rules : CompileRules calls R F k) (simplifies : AgainAlways R F k updating again)

include rules simplifies

theorem optimizeWith_always {e : Expr} (bears : e.Every (Bears k updating)) (held : F focus) :
    (optimizeWith calls again e).Always (Steady R k focus) (Refused updating)
      fun e => e.Every (Bears k updating) := by
  induction e using byParts generalizing focus with
  | step e parts_ih =>
    -- Predicates are simplified with another focus, so that it has to be general.
    have part : ∀ s ∈ e.parts, ∀ {focus : Focus}, F focus →
        (optimizeWith calls again s).Always (Steady R k focus) (Refused updating)
          fun e => e.Every (Bears k updating) :=
      fun s member _ held => parts_ih s member (bears.part member) held
    cases e with
    | literal v => exact .pure bears
    | root location => exact .pure bears
    | documents source location => exact .pure bears
    | deferred error type location => exact .pure bears
    | contextValue type location => exact reduceContextValue_always
    | varRef var type location => exact reduceReference_always rules
    | list operands type location =>
        refine (optimizeAllWith_always fun e member => part e member held).bind ?_
        exact fun operands' bears' => reduceList_always rules held bears'
    | range first last type location =>
        refine (part first (by simp [parts]) held).bind fun first' low => ?_
        refine (part last (by simp [parts]) held).bind fun last' high => ?_
        exact reduceRange_always rules held low high
    | arithmetic op a b type location =>
        refine (part a (by simp [parts]) held).bind fun a' left => ?_
        refine (part b (by simp [parts]) held).bind fun b' right => ?_
        exact reduceOperation_always rules held trivial rfl (.node trivial (by simp [parts, arithmeticOf, left, right]))
    | comparison op a b type location =>
        refine (part a (by simp [parts]) held).bind fun a' left => ?_
        refine (part b (by simp [parts]) held).bind fun b' right => ?_
        exact reduceOperation_always rules held trivial rfl (.node trivial (by simp [parts, comparisonOf, left, right]))
    | conditional test yes no type location =>
        refine (part test (by simp [parts]) held).bind fun test' condition => ?_
        refine (requireNoUpdates_always condition).bind fun _ _ => ?_
        refine (part yes (by simp [parts]) held).bind fun yes' positive => ?_
        refine (part no (by simp [parts]) held).bind fun no' negative => ?_
        exact reduceConditional_always rules condition positive negative
    | filter base predicates type location =>
        refine (part base (by simp [parts]) held).bind fun base' input => ?_
        refine (requireNoUpdates_always input).bind fun _ _ => ?_
        refine (contextItem?_always rules held fun e same => by cases same; exact input).bind
          fun found pushed => ?_
        refine (withFocus_always rules (optimizeAllWith_always
          fun e member => part e (by simp [parts, member]) pushed)).bind fun predicates' conditions => ?_
        exact reduceFilter_always rules held input conditions
    | letIn var bound body location =>
        refine (part bound (by simp [parts]) held).bind fun bound' value => ?_
        refine (requireNoUpdates_always value).bind fun _ _ => ?_
        refine (inScope_always (part body (by simp [parts]) held)
          (scopeOfLet_recorded value)).bind fun body' result => ?_
        exact reduceLet_always rules value result
    | forIn var source body type location =>
        refine (part source (by simp [parts]) held).bind fun source' input => ?_
        refine (requireNoUpdates_always input).bind fun _ _ => ?_
        split
        · exact replace_always rules (emptySequence_bears rules)
        · refine (inScope_always (part body (by simp [parts]) held)
            scopeOfFor_recorded).bind fun body' result => ?_
          exact reduceFor_always rules held simplifies input result
    | call f arguments type location =>
        refine (optimizeAllWith_always fun e member => part e member held).bind ?_
        exact fun arguments' bears' => reduceCall_always rules held simplifies bears'
    | dynamicCall callee arguments type location =>
        refine (part callee (by simp [parts]) held).bind fun callee' function => ?_
        refine (optimizeAllWith_always
          fun e member => part e (by simp [parts, member]) held).bind fun arguments' bears' => ?_
        refine (requireNoUpdates_always function).bind fun _ _ => ?_
        refine (requireNoneUpdates_always bears').bind fun _ _ => .pure ?_
        refine .node trivial fun s member => ?_
        rcases List.mem_cons.1 member with rfl | other
        · exact function
        · exact bears' s other
    | delete target location =>
        refine (part target (by simp [parts]) held).bind fun target' input => ?_
        refine (requireNoUpdates_always input).bind fun _ _ => .pure ?_
        refine .node bears.here fun s member => ?_
        rw [List.mem_singleton.1 member]
        exact input

end Trees

variable (rules : CompileRules calls R F k)

include rules

theorem optimizeWithin_always (depth : Nat) : Compile.AgainAlways R F k updating (optimizeWithin calls depth) := by
  induction depth with
  | zero => exact fun focus e held bears =>
      optimizeWith_always rules (fun _ _ _ given => .pure given) bears held
  | succ depth depth_ih => exact fun focus e held bears => optimizeWith_always rules depth_ih bears held

/-- Compilation keeps the condition, puts the focus back, and is only ever refused over updates. -/
theorem optimize_always {e : Expr} (bears : e.Every (Bears k updating)) (held : F focus) :
    (e.optimizeBy calls).Always (Steady R k focus) (Refused updating) fun e => e.Every (Bears k updating) :=
  optimizeWithin_always rules _ focus e held bears

end Expr

end QueryKernel
