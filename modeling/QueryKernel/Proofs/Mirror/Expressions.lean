import QueryKernel.Proofs.Compile.Alike
import QueryKernel.Proofs.Eval.Everywhere
import QueryKernel.Proofs.Mirror.Operations

/-!
# Expressions in two contexts

An expression gives the same in two contexts that agree on what it refers to, and so does another one that
has other variables in their places.

Variables are never unbound: a variable that is bound inside the expression may hold anything before, even in
one of the contexts only.  It counts as visible from its binding on, and no two variables may stand for one.
-/

namespace QueryKernel

namespace Expr

mutual

/-- The expression refers only to what is visible. -/
def Scoped : Expr → Visible → Prop
  | literal _, _ => True
  | list operands _ _, visible => ScopedAll operands visible
  | range a b _ _, visible => a.Scoped visible ∧ b.Scoped visible
  | arithmetic _ a b _ _, visible => a.Scoped visible ∧ b.Scoped visible
  | comparison _ a b _ _, visible => a.Scoped visible ∧ b.Scoped visible
  | conditional test yes no _ _, visible => test.Scoped visible ∧ yes.Scoped visible ∧ no.Scoped visible
  | contextValue .., visible => visible .focus
  | root _, visible => visible .focus ∧ visible .forest
  | documents .., _ => True
  | filter base predicates _ _, visible => base.Scoped visible ∧ ScopedAll predicates visible.focused
  | letIn var bound body _, visible => bound.Scoped visible ∧ body.Scoped (visible.add var.id)
  | forIn var source body _ _, visible => source.Scoped visible ∧ body.Scoped (visible.add var.id)
  | varRef var _ _, visible => visible (.variable var.id)
  | call _ arguments _ _, visible => ScopedAll arguments visible
  | deferred .., _ => True
  | dynamicCall callee arguments _ _, visible => callee.Scoped visible ∧ ScopedAll arguments visible
  | delete target _, visible => target.Scoped visible

/-- Some expressions refer only to what is visible. -/
def ScopedAll : List Expr → Visible → Prop
  | [], _ => True
  | e :: rest, visible => e.Scoped visible ∧ ScopedAll rest visible

end

end Expr

variable {link : Link} {visible : Visible} {calls : Calls}

theorem Expr.scopedAll_iff {es : List Expr} : ScopedAll es visible ↔ ∀ e ∈ es, e.Scoped visible := by
  induction es with
  | nil => simp [ScopedAll]
  | cons e rest rest_ih => simp [ScopedAll, rest_ih]

theorem Calls.Mirror.grow {wider : Visible} (mirror : calls.Mirror link visible)
    (within : visible.Within wider) : calls.Mirror link wider :=
  fun f arguments arity => (mirror f arguments arity).grow within

open Eval (Mirrors)

/-! ## Calls of built-in functions -/

theorem BuiltIn.modes_mirrors (mirror : calls.Mirror link visible) (f : BuiltIn)
    {location : Option Location} {atMostOne : Bool} {size? : Option Nat} {ms ns : List Modes}
    (parts : MirrorAll link visible ms ns) :
    (f.modes calls location atMostOne size? ms).Mirrors link visible
      (f.modes calls location atMostOne size? ns) := by
  have first : (ms.headD (.ofLiteral .empty)).Mirrors link visible (ns.headD (.ofLiteral .empty)) := by
    cases parts with
    | nil => exact Modes.ofLiteral_mirrors _
    | cons head _ => exact head
  -- Functions give an item or a value, from which the other one is derived.
  have ofItem : ∀ {i j : Eval (Option Item)}, i.Mirrors link visible Equal j →
      (Modes.ofValueAndItem location atMostOne (do return valueOfOption (← i)) i).Mirrors link visible
        (.ofValueAndItem location atMostOne (do return valueOfOption (← j)) j) :=
    fun item => Modes.ofValueAndItem_mirrors location atMostOne (item.followed fun _ => .same _) item
  have ofValue : ∀ {x y : Eval Value}, x.Mirrors link visible Equal y →
      (Modes.ofValueAndItem location atMostOne x (do singleOfValue location (← x))).Mirrors link visible
        (.ofValueAndItem location atMostOne y (do singleOfValue location (← y))) :=
    fun value => Modes.ofValueAndItem_mirrors location atMostOne value
      (value.followed fun _ => Modes.singleOfValue_mirrors _ _)
  cases f with
  | head =>
      refine ofItem (first.stream.bind fun _ _ s t related => ?_)
      exact related.ask (.same none) fun _ _ item _ _ _ => .same (some item)
  | count => exact ofItem ((countOf_mirrors size? first.stream).map _)
  | sum =>
      refine ofItem (sumOf_mirrors first.value ?_)
      have related := argument_mirrors parts 1
      generalize ms[1]? = left at related ⊢
      generalize ns[1]? = right at related ⊢
      cases related with
      | none => exact .none
      | some related => exact .some related.item
  | avg => exact ofItem (averageOf_mirrors first.value)
  | error => exact ofItem ((raisedError_mirrors parts).followed fun _ => .fail (.same _))
  | reverse => exact ofValue (first.value.followed fun _ => .same _)
  | foldLeft1 =>
      refine ofValue (first.value.followed fun v => (parts.getD 1).toCallee.followed fun item => ?_)
      exact foldLeft1_mirrors mirror item location v
  | sortWith =>
      refine ofValue (first.value.followed fun v => (parts.getD 1).toCallee.followed fun item => ?_)
      exact sortWith_mirrors mirror item location v

theorem dynamicValue_mirrors (mirror : calls.Mirror link visible) {m n : Modes}
    (callee : m.Mirrors link visible n) (location : Option Location) {ms ns : List Modes}
    (parts : MirrorAll link visible ms ns) :
    (dynamicValue calls m ms location).Mirrors link visible Equal (dynamicValue calls n ns location) := by
  refine callee.toCallee.followed fun item => ?_
  have given : (Eval.foldList (fun (values : List Value) (m : Modes) => do
      return (← m.value) :: values) [] ms).Mirrors link visible Equal
      (Eval.foldList (fun (values : List Value) (m : Modes) => do return (← m.value) :: values) [] ns) :=
    .foldList parts (fun values m n mirrors => mirrors.value.followed fun v => .same (v :: values)) []
  have called : ∀ values : List Value, ((invoke calls item values.reverse).locate location).Mirrors link visible
      Equal ((invoke calls item values.reverse).locate location) :=
    fun values => (invoke_mirrors mirror item _).locate
  exact given.followed called

/-! ## All expressions -/

namespace Expr

theorem alike_position? {e e' : Expr} {ref bind : Nat → Nat → Prop} (alike : Alike ref bind e e') :
    e'.position? = e.position? := by
  cases alike <;> rfl

theorem alike_isAtMostOne {e e' : Expr} {ref bind : Nat → Nat → Prop} (alike : Alike ref bind e e') :
    e'.isAtMostOne = e.isAtMostOne := by
  unfold isAtMostOne sequenceType
  rw [alike_staticType alike]

theorem alike_firstSize {es es' : List Expr} {ref bind : Nat → Nat → Prop}
    (length : es.length = es'.length) (parts : ∀ pair ∈ es.zip es', Alike ref bind pair.1 pair.2) :
    es'.head?.bind (·.size?) = es.head?.bind (·.size?) := by
  cases es with
  | nil =>
      cases es' with
      | nil => rfl
      | cons e' rest' => cases length
  | cons e rest =>
      cases es' with
      | nil => cases length
      | cons e' rest' =>
          have first := alike_staticType (parts (e, e') List.mem_cons_self)
          exact congrArg StaticType.size? first

/-- Expressions that are alike go the same way, as long as contexts agree on what the first refers to. -/
theorem modes_mirrors (mirror : calls.Mirror link visible) {e e' : Expr}
    (alike : Alike link link.Only e e') (reads : e.Scoped visible) :
    (e.modes calls).Mirrors link visible (e'.modes calls) := by
  have each : ∀ {es es' : List Expr} {visible : Visible}, es.length = es'.length →
      (∀ pair ∈ es.zip es', pair.1.Scoped visible →
        (pair.1.modes calls).Mirrors link visible (pair.2.modes calls)) →
      ScopedAll es visible →
      MirrorAll link visible (modesAll calls es) (modesAll calls es') := by
    intro es es' visible length parts reads
    unfold MirrorAll
    rw [modesAll_eq_map, modesAll_eq_map, List.forall₂_map_left_iff, List.forall₂_map_right_iff,
      List.forall₂_iff_zip]
    refine ⟨length, fun {a b} member => parts (a, b) member ?_⟩
    exact scopedAll_iff.1 reads a (List.of_mem_zip member).1
  induction alike generalizing visible with
  | literal => exact Modes.ofLiteral_mirrors _
  | list length _ parts_ih =>
      have parts := each length (fun pair member reads => parts_ih pair member mirror reads) reads
      exact { Modes.ofStream_mirrors _ _ parts.pullAll with value := listValue_mirrors parts }
  | range _ _ low_ih high_ih =>
      exact Modes.ofValue_mirrors _ _ (rangeValue_mirrors (low_ih mirror reads.1) (high_ih mirror reads.2))
  | arithmetic _ _ left_ih right_ih =>
      exact Modes.ofItem_mirrors _ _ (onAtoms_mirrors (left_ih mirror reads.1) (right_ih mirror reads.2))
  | comparison _ _ left_ih right_ih =>
      exact Modes.ofItem_mirrors _ _ (onAtoms_mirrors (left_ih mirror reads.1) (right_ih mirror reads.2))
  | conditional _ _ _ condition_ih positive_ih negative_ih =>
      have condition := condition_ih mirror reads.1
      have positive := positive_ih mirror reads.2.1
      have negative := negative_ih mirror reads.2.2
      exact ⟨rfl, choose_mirrors condition positive.stream negative.stream,
        choose_mirrors condition positive.item negative.item,
        choose_mirrors condition positive.value negative.value,
        choose_mirrors condition positive.booleanItem negative.booleanItem⟩
  | contextValue => exact Modes.ofValue_mirrors _ _ (contextValue_mirrors _ reads)
  | root => exact Modes.ofValue_mirrors _ _ (rootValue_mirrors reads.1 reads.2)
  | documents => exact Modes.ofValue_mirrors _ _ (Mirrors.checkStop.followed fun _ => .same _)
  | @filter base base' predicates predicates' _ _ input length conditions input_ih conditions_ih =>
      have inside := each length (fun pair member reads =>
        conditions_ih pair member (mirror.grow (Visible.within_focused visible)) reads) reads.2
      have positions : predicates'.map (·.position?) = predicates.map (·.position?) := by
        rw [← List.forall₂_eq_eq_eq, List.forall₂_map_left_iff, List.forall₂_map_right_iff]
        refine List.Forall₂.flip (List.forall₂_iff_zip.2 ⟨length, fun {a b} member => ?_⟩)
        exact alike_position? (conditions (a, b) member)
      simp only [modes]
      rw [positions]
      exact Modes.ofValue_mirrors _ _ (filterValue_mirrors (input_ih mirror reads.1) inside)
  | @letIn var var' bound body bound' body' location same binds _ result value_ih result_ih =>
      have value := (value_ih mirror reads.1).value
      -- The body sees the variable as well, so that both evaluations have to agree on it from here on.
      have inside := result_ih (mirror.grow (Visible.within_add visible var.id)) reads.2
      have enter : (bindTo var location (bound.modes calls)).Mirrors link visible
          (fun wider _ _ => wider (.variable var.id)) (bindTo var' location (bound'.modes calls)) :=
        value.followed fun v => bindVariable_mirrors same binds v
      have stream := enter.bind fun wider within _ _ seen => inside.stream.grow (within.add seen)
      have item := enter.bind fun wider within _ _ seen => inside.item.grow (within.add seen)
      have whole := enter.bind fun wider within _ _ seen => inside.value.grow (within.add seen)
      simp only [modes]
      rw [alike_isAtMostOne result]
      exact { Modes.ofStreamAndItem_mirrors _ _ stream item with value := whole }
  | @forIn var var' source body source' body' type location same binds _ _ input_ih result_ih =>
      have input := (input_ih mirror reads.1).stream
      have inside := result_ih (mirror.grow (Visible.within_add visible var.id)) reads.2
      refine Modes.ofStream_mirrors _ _ (input.bind fun wider within s t related => ?_)
      refine .pure fun more further => ⟨rfl, fun last reached c d agree => ?_⟩
      -- The source is read on after the body has bound variables, whatever the two of them are called.
      refine Stream.forEach_mirrors (related.pull last (further.trans reached) c d agree) fun item => ?_
      exact (enterLoop_mirrors same binds inside item).grow
        (within.trans (further.trans reached))
  | varRef refers => exact Modes.ofValue_mirrors _ _ (variableValue_mirrors refers reads)
  | @call f arguments arguments' type location length alike parts_ih =>
      have parts := each length (fun pair member reads => parts_ih pair member mirror reads) reads
      simp only [modes]
      rw [alike_firstSize length alike]
      exact f.modes_mirrors mirror parts
  | deferred => exact Modes.ofValueAndItem_mirrors _ _ (.fail (.same _)) (.fail (.same _))
  | @dynamicCall callee callee' arguments arguments' type location function length _ function_ih parts_ih =>
      have parts := each length (fun pair member reads => parts_ih pair member mirror reads) reads.2
      have value := dynamicValue_mirrors mirror (function_ih mirror reads.1) location parts
      exact Modes.ofValueAndItem_mirrors _ _ value
        (value.followed fun _ => Modes.singleOfValue_mirrors _ _)
  | delete _ input_ih => exact Modes.ofValue_mirrors _ _ (deleteAll_mirrors (input_ih mirror reads))

theorem alike_refl (e : Expr) : Alike Eq (Link.Only Eq) e e :=
  alike_self (fun _ _ => rfl) fun id _ => ⟨rfl, Link.only_eq id⟩

/-- An expression is scoped if focus, trees and what it refers to are visible. -/
theorem scoped_of_free {e : Expr} {visible : Visible} (focus : visible .focus) (forest : visible .forest)
    (seen : ∀ id ∈ e.free, visible (.variable id)) : e.Scoped visible := by
  have each : ∀ {es : List Expr} {visible : Visible},
      (∀ s ∈ es, (∀ id ∈ s.free, visible (.variable id)) → s.Scoped visible) →
      (∀ id ∈ freeAll es, visible (.variable id)) → ScopedAll es visible := by
    intro es visible parts seen
    induction es with
    | nil => trivial
    | cons e rest rest_ih =>
        obtain ⟨here, later⟩ := List.forall_mem_append.1 seen
        exact ⟨parts e List.mem_cons_self here, rest_ih (fun s inside => parts s (List.mem_cons_of_mem _ inside)) later⟩
  -- Free in the body is what is free in the binding, and the variable.
  have below : ∀ {body : Expr} {visible : Visible} {x : Nat},
      (∀ id ∈ body.free.filter (· ≠ x), visible (.variable id)) →
      ∀ id ∈ body.free, visible.add x (.variable id) := by
    intro body visible x others id member
    by_cases same : id = x
    · exact .inl (congrArg _ same)
    · exact .inr (others id (List.mem_filter.2 ⟨member, decide_eq_true same⟩))
  induction e using byParts generalizing visible with
  | step e parts_ih =>
      have part : ∀ s ∈ e.parts, (∀ id ∈ s.free, visible (.variable id)) → s.Scoped visible :=
        fun s member => parts_ih s member focus forest
      cases e with
      | literal | documents | deferred => trivial
      | contextValue => exact focus
      | root => exact ⟨focus, forest⟩
      | varRef var => exact seen var.id List.mem_cons_self
      | list operands => exact each part seen
      | call f arguments => exact each part seen
      | range a b | arithmetic op a b | comparison op a b =>
          obtain ⟨left, right⟩ := List.forall_mem_append.1 seen
          exact ⟨part a List.mem_cons_self left, part b (List.mem_cons_of_mem _ List.mem_cons_self) right⟩
      | conditional test yes no =>
          obtain ⟨condition, both⟩ := List.forall_mem_append.1 seen
          obtain ⟨positive, negative⟩ := List.forall_mem_append.1 both
          exact ⟨part test List.mem_cons_self condition, part yes (by simp [Expr.parts]) positive,
            part no (by simp [Expr.parts]) negative⟩
      | filter base predicates =>
          obtain ⟨input, conditions⟩ := List.forall_mem_append.1 seen
          have inside : ∀ s ∈ predicates, (∀ id ∈ s.free, visible.focused (.variable id)) →
              s.Scoped visible.focused :=
            fun s member => parts_ih s (List.mem_cons_of_mem _ member) (.inl rfl) (.inr forest)
          exact ⟨part base List.mem_cons_self input, each inside fun id member => .inr (conditions id member)⟩
      | letIn var bound body =>
          obtain ⟨value, result⟩ := List.forall_mem_append.1 seen
          exact ⟨part bound List.mem_cons_self value,
            parts_ih body (List.mem_cons_of_mem _ List.mem_cons_self) (.inr focus) (.inr forest) (below result)⟩
      | forIn var source body =>
          obtain ⟨input, result⟩ := List.forall_mem_append.1 seen
          exact ⟨part source List.mem_cons_self input,
            parts_ih body (List.mem_cons_of_mem _ List.mem_cons_self) (.inr focus) (.inr forest) (below result)⟩
      | dynamicCall callee arguments =>
          obtain ⟨function, others⟩ := List.forall_mem_append.1 seen
          exact ⟨part callee List.mem_cons_self function,
            each (fun s member => part s (List.mem_cons_of_mem _ member)) others⟩
      | delete target => exact part target List.mem_cons_self seen

end Expr

/-! ## Function items -/

/-- The parameters of a function in addition to what is visible. -/
def Visible.inside (visible : Visible) (f : FunctionItem Expr) : Visible :=
  fun reference => (∃ p ∈ f.parameters, reference = .variable p.id) ∨ visible reference

/-- Parameters are bound in both contexts. -/
theorem bindParameters_mirrors (bound : List (Variable × Value))
    (only : ∀ pair ∈ bound, link.Only pair.1.id pair.1.id) {c d : Context} (mirrors : c.Mirrors link visible d) :
    ∃ wider, visible.Within wider ∧ (∀ pair ∈ bound, wider (.variable pair.1.id)) ∧
      (bound.foldl (fun c (var, value) => c.bind var value) c).Mirrors link wider
        (bound.foldl (fun c (var, value) => c.bind var value) d) := by
  induction bound generalizing visible c d with
  | nil => exact ⟨visible, Visible.within_refl visible, fun _ member => (by cases member), mirrors⟩
  | cons pair rest rest_ih =>
      obtain ⟨var, value⟩ := pair
      obtain ⟨first, later⟩ := List.forall_mem_cons.1 only
      obtain ⟨wider, within, others, agree⟩ := rest_ih later (mirrors.bind first value)
      refine ⟨wider, (Visible.within_add visible var.id).trans within, fun other member => ?_, agree⟩
      rcases List.mem_cons.1 member with rfl | after
      · exact within _ (.inl rfl)
      · exact others other after

/-- A function is called in the same way if its body goes the same way once the parameters are visible. -/
theorem callBody_mirrors {f : FunctionItem Expr} (only : ∀ p ∈ f.parameters, link.Only p.id p.id)
    (body : (f.body.modes calls).Mirrors link (visible.inside f) (f.body.modes calls)) {arguments : List Value}
    (arity : arguments.length = f.parameters.length) :
    (callBody calls f arguments).Mirrors link visible Equal (callBody calls f arguments) := by
  have bind : (Eval.change fun c =>
      (f.parameters.zip arguments).foldl (fun c (var, value) => c.bind var value) c).Mirrors link visible
      (fun wider _ _ => (visible.inside f).Within wider)
      (Eval.change fun c =>
        (f.parameters.zip arguments).foldl (fun c (var, value) => c.bind var value) c) := by
    intro wider more c d agree
    have apart : ∀ pair ∈ f.parameters.zip arguments, link.Only pair.1.id pair.1.id :=
      fun pair member => only pair.1 (List.of_mem_zip member).1
    obtain ⟨final, within, bound, agree'⟩ := bindParameters_mirrors (f.parameters.zip arguments) apart agree
    refine .done within ?_ agree'
    rintro _ (⟨p, member, rfl⟩ | seen)
    · -- There are as many arguments as parameters, so that each parameter is bound.
      rw [← List.map_fst_zip (Nat.le_of_eq arity.symm)] at member
      obtain ⟨pair, inside, rfl⟩ := List.mem_map.1 member
      exact bound pair inside
    · exact within _ (more _ seen)
  exact bind.bind fun wider _ _ _ within => body.value.grow within

end QueryKernel
