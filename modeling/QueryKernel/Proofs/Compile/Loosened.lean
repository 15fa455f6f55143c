import QueryKernel.Proofs.Compile.Preserved
import QueryKernel.Proofs.Eval.Undeclared

/-!
# Compiled queries with fewer declared types

A query is built again without some declared types, and both are compiled.  Static types differ all over the two
trees, and so does what compilation makes of them; the possible outcomes are the same.  So the two compiled queries
agree, as each of them gives an outcome of the query that it is made from.

This takes declared types that allow as many items as are bound, since compilation takes them for granted: it drops
the binding of a literal with the check of its declared type.
-/

namespace QueryKernel

/-- The declared types of the other variables. -/
def Declarations.without (declared : Declarations) (dropped : Nat → Bool) : Declarations :=
  fun id => if dropped id then none else declared id

namespace Variable

variable {dropped : Nat → Bool} {var : Variable}

theorem undeclare_id : (var.undeclare dropped).id = var.id := by
  unfold undeclare
  split <;> rfl

theorem declared_undeclare :
    (var.undeclare dropped).declared = if dropped var.id then none else var.declared := by
  unfold undeclare
  split <;> rfl

theorem Agrees.undeclare {declared : Declarations} (agrees : var.Agrees declared) :
    (var.undeclare dropped).Agrees (declared.without dropped) := by
  have same : var.declared = declared var.id := agrees
  rw [Agrees, declared_undeclare, undeclare_id, same]
  rfl

theorem Allows.undeclare {n : Nat} (allows : var.Allows n) : (var.undeclare dropped).Allows n := by
  unfold Variable.undeclare
  split
  · exact allows_of_undeclared rfl
  · exact allows

theorem MeetsAny.undeclare (meets : var.MeetsAny) : (var.undeclare dropped).MeetsAny := by
  unfold Variable.undeclare
  split
  · exact meetsAny_of_undeclared rfl
  · exact meets

end Variable

namespace Expr

mutual

/-- The expression built again without the declared types of some variables. -/
def loosen (dropped : Nat → Bool) : Expr → Expr
  | literal v => literal v
  | list operands _ l => listOf (loosenAll dropped operands) l
  | range a b _ l => rangeOf (a.loosen dropped) (b.loosen dropped) l
  | arithmetic op a b _ l => arithmeticOf op (a.loosen dropped) (b.loosen dropped) l
  | comparison op a b _ l => comparisonOf op (a.loosen dropped) (b.loosen dropped) l
  | conditional test yes no _ l => conditionalOf (test.loosen dropped) (yes.loosen dropped) (no.loosen dropped) l
  | contextValue type l => contextValue type l
  | root l => root l
  | documents source l => documents source l
  | filter base predicates _ l => filterOf (base.loosen dropped) (loosenAll dropped predicates) l
  | letIn var bound body l => letIn (var.undeclare dropped) (bound.loosen dropped) (body.loosen dropped) l
  | forIn var source body _ l => forOf (var.undeclare dropped) (source.loosen dropped) (body.loosen dropped) l
  | varRef var _ l => varRefOf (var.undeclare dropped) l
  | call f arguments _ l => call f (loosenAll dropped arguments) (f.resultType (loosenAll dropped arguments)) l
  | deferred error type l => deferred error type l
  | dynamicCall callee arguments _ l => dynamicCallOf (callee.loosen dropped) (loosenAll dropped arguments) l
  | delete target l => delete (target.loosen dropped) l

/-- Some expressions built again without the declared types of some variables. -/
def loosenAll (dropped : Nat → Bool) : List Expr → List Expr
  | [] => []
  | e :: rest => e.loosen dropped :: loosenAll dropped rest

end

variable {dropped : Nat → Bool} {e : Expr} {es : List Expr}

theorem loosenAll_eq (es : List Expr) : loosenAll dropped es = es.map (loosen dropped) := by
  induction es with
  | nil => rfl
  | cons e rest rest_ih => rw [loosenAll, rest_ih, List.map_cons]

theorem forall_mem_loosenAll {P : Expr → Prop} :
    (∀ s ∈ loosenAll dropped es, P s) ↔ ∀ s ∈ es, P (s.loosen dropped) := by
  rw [loosenAll_eq, List.forall_mem_map]

theorem length_loosenAll : (loosenAll dropped es).length = es.length := by rw [loosenAll_eq, List.length_map]

theorem position?_loosen (e : Expr) : (e.loosen dropped).position? = e.position? := by
  cases e <;> rfl

mutual

theorem binders_loosen : ∀ e : Expr, (e.loosen dropped).binders = e.binders
  | literal _ | contextValue .. | root _ | documents .. | varRef .. | deferred .. => rfl
  | list operands _ _ => bindersAll_loosen operands
  | range a b _ _ | arithmetic _ a b _ _ | comparison _ a b _ _ => by
      exact congrArg₂ (· ++ ·) (binders_loosen a) (binders_loosen b)
  | conditional test yes no _ _ => by
      exact congrArg₂ (· ++ ·) (binders_loosen test) (congrArg₂ (· ++ ·) (binders_loosen yes) (binders_loosen no))
  | filter base predicates _ _ => congrArg₂ (· ++ ·) (binders_loosen base) (bindersAll_loosen predicates)
  | letIn var bound body _ => by
      rw [loosen, binders, binders, binders_loosen bound, binders_loosen body, Variable.undeclare_id]
  | forIn var source body _ _ => by
      rw [loosen, forOf, binders, binders, binders_loosen source, binders_loosen body, Variable.undeclare_id]
  | call _ arguments _ _ => bindersAll_loosen arguments
  | dynamicCall callee arguments _ _ => congrArg₂ (· ++ ·) (binders_loosen callee) (bindersAll_loosen arguments)
  | delete target _ => binders_loosen target

theorem bindersAll_loosen : ∀ es : List Expr, bindersAll (loosenAll dropped es) = bindersAll es
  | [] => rfl
  | e :: rest => congrArg₂ (· ++ ·) (binders_loosen e) (bindersAll_loosen rest)

end

/-! ## Outcomes -/

variable {numbers : Numbers} {env : Env}

mutual

/-- No outcome depends on static types or on declared ones. -/
theorem outcomes_loosen : ∀ e : Expr, (e.loosen dropped).outcomes numbers = e.outcomes numbers
  | literal _ | contextValue .. | root _ | documents .. | deferred .. => rfl
  | varRef var _ _ => by
      funext env s updates
      simp only [loosen, varRefOf, outcomes, Variable.undeclare_id]
  | list operands _ _ => by
      funext env s updates
      simp only [loosen, listOf, outcomes, outcomesAll_loosen operands]
  | range a b _ _ => by
      funext env s updates
      simp only [loosen, rangeOf, outcomes, outcomes_loosen a, outcomes_loosen b]
  | arithmetic _ a b _ _ => by
      funext env s updates
      simp only [loosen, arithmeticOf, outcomes, outcomes_loosen a, outcomes_loosen b]
  | comparison _ a b _ _ => by
      funext env s updates
      simp only [loosen, comparisonOf, outcomes, outcomes_loosen a, outcomes_loosen b]
  | conditional test yes no _ _ => by
      funext env s updates
      simp only [loosen, conditionalOf, outcomes, outcomes_loosen test, outcomes_loosen yes, outcomes_loosen no]
  | filter base predicates _ _ => by
      funext env s updates
      have none : (loosenAll dropped predicates).isEmpty = predicates.isEmpty := by cases predicates <;> rfl
      simp only [loosen, filterOf, outcomes, outcomes_loosen base, passes_loosen predicates, none]
  | letIn var bound body _ => by
      funext env s updates
      simp only [loosen, outcomes, outcomes_loosen bound, outcomes_loosen body, Variable.undeclare_id]
  | forIn var source body _ _ => by
      funext env s updates
      simp only [loosen, forOf, outcomes, outcomes_loosen source, outcomes_loosen body, Variable.undeclare_id]
  | call f arguments _ _ => by
      funext env s updates
      simp only [loosen, outcomes, outcomesEach_loosen arguments]
  | dynamicCall .. => by
      funext env s updates
      simp only [loosen, dynamicCallOf, outcomes]
  | delete target _ => by
      funext env s updates
      simp only [loosen, outcomes, outcomes_loosen target]

theorem outcomesAll_loosen : ∀ es : List Expr,
    outcomesAll numbers (loosenAll dropped es) = outcomesAll numbers es
  | [] => rfl
  | e :: rest => by
      funext env items updates
      simp only [loosenAll, outcomesAll, outcomes_loosen e, outcomesAll_loosen rest]

theorem outcomesEach_loosen : ∀ es : List Expr,
    outcomesEach numbers (loosenAll dropped es) = outcomesEach numbers es
  | [] => rfl
  | e :: rest => by
      funext env given
      simp only [loosenAll, outcomesEach, outcomes_loosen e, outcomesEach_loosen rest]

theorem passes_loosen : ∀ es : List Expr, passes numbers (loosenAll dropped es) = passes numbers es
  | [] => rfl
  | e :: rest => by
      funext env items chosen
      simp only [loosenAll, passes, outcomes_loosen e, passes_loosen rest, position?_loosen]

end

mutual

/-- Without some declared types there is less to allow. -/
theorem allots_loosen : ∀ (e : Expr) {env : Env}, e.Allots env → (e.loosen dropped).Allots env
  | literal _, _, _ | contextValue .., _, _ | root _, _, _ | documents .., _, _ | varRef .., _, _
  | deferred .., _, _ => trivial
  | list operands _ _, _, allots | call _ operands _ _, _, allots => allotsAll_loosen operands allots
  | range a b _ _, _, allots | arithmetic _ a b _ _, _, allots | comparison _ a b _ _, _, allots =>
      ⟨allots_loosen a allots.1, allots_loosen b allots.2⟩
  | conditional test yes no _ _, _, allots =>
      ⟨allots_loosen test allots.1, allots_loosen yes allots.2.1, allots_loosen no allots.2.2⟩
  | filter base predicates _ _, _, allots => by
      refine ⟨allots_loosen base allots.1, fun s given item member => ?_⟩
      rw [outcomes_loosen] at given
      exact allotsAll_loosen predicates (allots.2 s given item member)
  | letIn var bound body _, _, allots => by
      refine ⟨allots_loosen bound allots.1, fun s given => ?_⟩
      rw [outcomes_loosen] at given
      obtain ⟨allowed, inner⟩ := allots.2 s given
      exact ⟨allowed.undeclare, Variable.undeclare_id.symm ▸ allots_loosen body inner⟩
  | forIn var source body _ _, _, allots => by
      refine ⟨allots_loosen source allots.1, fun s given item member => ?_⟩
      rw [outcomes_loosen] at given
      obtain ⟨allowed, inner⟩ := allots.2 s given item member
      exact ⟨allowed.undeclare, Variable.undeclare_id.symm ▸ allots_loosen body inner⟩
  | dynamicCall callee arguments _ _, _, allots =>
      ⟨allots_loosen callee allots.1, allotsAll_loosen arguments allots.2⟩
  | delete target _, _, allots => allots_loosen target allots

theorem allotsAll_loosen : ∀ (es : List Expr) {env : Env}, AllotsAll es env → AllotsAll (loosenAll dropped es) env
  | [], _, _ => trivial
  | e :: rest, _, allots => ⟨allots_loosen e allots.1, allotsAll_loosen rest allots.2⟩

end

/-! ## Trees -/

theorem Built.loosen {declared : Declarations} {good : Item → Prop} (built : e.Built declared good) :
    (e.loosen dropped).Built (declared.without dropped) good := by
  induction built with
  | literal value => exact .literal value
  | list _ parts_ih => exact .list (forall_mem_loosenAll.2 parts_ih)
  | range _ _ low_ih high_ih => exact .range low_ih high_ih
  | arithmetic _ _ left_ih right_ih => exact .arithmetic left_ih right_ih
  | comparison _ _ left_ih right_ih => exact .comparison left_ih right_ih
  | conditional _ _ _ condition_ih positive_ih negative_ih => exact .conditional condition_ih positive_ih negative_ih
  | contextValue => exact .contextValue
  | root => exact .root
  | documents => exact .documents
  | filter _ _ input_ih conditions_ih => exact .filter input_ih (forall_mem_loosenAll.2 conditions_ih)
  | letIn agrees _ _ value_ih result_ih => exact .letIn agrees.undeclare value_ih result_ih
  | forIn agrees _ _ input_ih result_ih => exact .forIn agrees.undeclare input_ih result_ih
  | varRef agrees => exact .varRef agrees.undeclare
  | call takes _ parts_ih => exact .call (by rwa [length_loosenAll]) (forall_mem_loosenAll.2 parts_ih)
  | deferred => exact .deferred
  | dynamicCall _ _ function_ih parts_ih => exact .dynamicCall function_ih (forall_mem_loosenAll.2 parts_ih)
  | delete _ input_ih => exact .delete input_ih

theorem Placed.loosen {visible : Visible} (placed : e.Placed false visible) :
    (e.loosen dropped).Placed false visible := by
  have never : ∀ {P : Prop}, false = true → P := fun impossible => absurd impossible Bool.false_ne_true
  induction placed with
  | literal simple => exact .literal simple
  | list _ parts_ih => exact .list (forall_mem_loosenAll.2 parts_ih)
  | range _ _ _ low_ih high_ih => exact .range low_ih high_ih never
  | arithmetic _ _ _ left_ih right_ih => exact .arithmetic left_ih right_ih never
  | comparison _ _ _ left_ih right_ih => exact .comparison left_ih right_ih never
  | conditional _ _ _ _ condition_ih positive_ih negative_ih =>
      exact .conditional condition_ih positive_ih negative_ih never
  | contextValue seen => exact .contextValue seen
  | root seen around => exact .root seen around
  | documents => exact .documents
  | filter _ _ _ input_ih conditions_ih => exact .filter input_ih (forall_mem_loosenAll.2 conditions_ih) never
  | letIn meets _ _ _ value_ih result_ih =>
      exact .letIn meets.undeclare value_ih (Variable.undeclare_id.symm ▸ result_ih) never
  | forIn meets _ _ _ input_ih result_ih =>
      exact .forIn meets.undeclare input_ih (Variable.undeclare_id.symm ▸ result_ih) never
  | varRef seen => exact .varRef (Variable.undeclare_id.symm ▸ seen)
  | call firstOrder takes _ _ parts_ih =>
      exact .call firstOrder (by rwa [length_loosenAll]) (forall_mem_loosenAll.2 parts_ih) never
  | deferred later => exact .deferred later
  | delete _ _ input_ih => exact .delete input_ih never

theorem outside_loosen (c : Context) : c.outside (e.loosen dropped) = c.outside e := by
  funext reference
  match reference with
  | .variable id => simp only [Context.outside, binders_loosen]
  | .focus | .forest => rfl

theorem OwnsVariables.loosen {c : Context} (own : e.OwnsVariables c) : (e.loosen dropped).OwnsVariables c where
  nodup := (binders_loosen e).symm ▸ own.nodup
  used := (binders_loosen e).symm ▸ own.used
  placed := (outside_loosen c).symm ▸ own.placed.loosen

end Expr

theorem Env.Conforms.without {declared : Declarations} {env : Env} (conforms : env.Conforms declared)
    (dropped : Nat → Bool) : env.Conforms (declared.without dropped) := by
  refine ⟨conforms.focus, conforms.plain, fun id type found => conforms.fits id type ?_⟩
  unfold Declarations.without at found
  split at found
  · cases found
  · exact found

/-! ## Compiled queries -/

namespace Expr

variable {declared : Declarations} {dropped : Nat → Bool} {e e' e'' : Expr} {c c' c'' start d d' d'' : Context}
  {v w w' : Value}

/-- A query and the same query without some declared types, both compiled, give the same items and record the same
updates where both succeed and the query without them succeeds uncompiled.  The declared types have to allow as many
items as are bound; a value that one of them refuses is bound in spite of it or ends the evaluation. -/
theorem compiled_declarations_only_restrict (built : e.Built declared ItemOf.IsPlain) (own : e.OwnsVariables c)
    (runs : c.Runs) (sound : start.Sound declared ItemOf.IsPlain) (allots : e.Allots (Env.ofContext declared start))
    (counts : (e.loosen dropped).CountsNowhereElse (c.outside e) start) (compiled : e.compile c = (.ok e', c'))
    (loosened : (e.loosen dropped).compile c = (.ok e'', c''))
    (source : (e.loosen dropped).run.value start = (.ok v, d)) (typed : e'.evaluate start = (.ok w, d'))
    (untyped : e''.evaluate start = (.ok w', d'')) : w.items = w'.items ∧ d'.updates = d''.updates := by
  -- Both are seen in one environment, in which the variables have what the declared types allow.
  have describes : (Env.ofContext declared start).Describes (c.outside e) start := Env.ofContext_describes sound _
  have conforms := Env.ofContext_conforms sound
  have fits := built.fits own.placed conforms allots
  have fits' := built.loosen.fits own.loosen.placed (conforms.without dropped) (allots_loosen e allots)
  have outside : c.outside (e.loosen dropped) = c.outside e := outside_loosen c
  rw [← outside] at describes counts
  have first := agrees_of_outcomes own.loosen describes fits' counts source
    (outcomes_loosen e ▸ compiled_outcome own runs (outside ▸ describes) fits compiled typed)
  have second := agrees_of_outcomes own.loosen describes fits' counts source
    (compiled_outcome own.loosen runs describes fits' loosened untyped)
  exact ⟨first.1.trans second.1.symm, first.2.trans second.2.symm⟩

end Expr

/-- The value of a query that is compiled first. -/
def Expr.answer (e : Expr) (c : Context) : Except Failure Value :=
  match e.compile c with
  | (.ok compiled, c) => (compiled.evaluate c).1
  | (.error failure, _) => .error failure

/-- `let $x := (1, 2) return count($x)`, with or without a declared type. -/
def countPair (declared : Option SequenceType) : Expr :=
  let x : Variable := ⟨0, "x", declared⟩
  .letIn x (.literal (.ofItems [.integer 1, .integer 2]))
    (.call .count [.varRefOf x none] (BuiltIn.count.resultType [.varRefOf x none]) none) none

/-- A declared type for at least one integer changes nothing. -/
theorem countPair_same : let c : Context := { Context.initial {} with nextVariable := 1 }
    ∃ e e' v v', ((countPair (some ⟨.integer, .oneOrMore⟩)).compile c).1 = .ok e ∧
      ((countPair none).compile c).1 = .ok e' ∧ (e.evaluate c).1 = .ok v ∧ (e'.evaluate c).1 = .ok v' ∧
      v.items = v'.items ∧ v'.items = [.integer 2] := by
  intro c
  let declared : Declarations := fun _ => some ⟨.integer, .oneOrMore⟩
  have never : ∀ {P : Prop}, false = true → P := fun impossible => absurd impossible Bool.false_ne_true
  have pair : (ValueOf.ofItems [.integer 1, .integer 2] : Value).Good ItemOf.IsPlain :=
    (ValueOf.ofItems_holds _).allGood fun item member => by
      rcases List.mem_pair.1 member with rfl | rfl <;> trivial
  have built : (countPair (some ⟨.integer, .oneOrMore⟩)).Built declared ItemOf.IsPlain :=
    .letIn rfl (.literal pair) (.call rfl (List.forall_mem_singleton.2 (.varRef rfl)))
  have own : (countPair (some ⟨.integer, .oneOrMore⟩)).OwnsVariables c := by
    refine ⟨by decide, by decide, .letIn ?_ (.literal ⟨pair.1.shaped, pair.2⟩) (.call rfl rfl ?_ never) never⟩
    · rintro _ ⟨⟩ none
      cases none
    · exact List.forall_mem_singleton.2 (.varRef (.inl rfl))
  have sound : c.Sound declared ItemOf.IsPlain := sound_of_unbound rfl rfl rfl
  have allots : (countPair (some ⟨.integer, .oneOrMore⟩)).Allots (Env.ofContext declared c) := by
    refine ⟨trivial, fun s given => ⟨?_, trivial, trivial⟩⟩
    rintro _ ⟨⟩
    rw [given.1.items_eq]
    rfl
  have counts : (countPair none).CountsNowhereElse (c.outside (countPair (some ⟨.integer, .oneOrMore⟩))) c :=
    ⟨trivial, fun _ _ _ _ _ => ⟨trivial, trivial⟩⟩
  have source : ((countPair none).run.value c).1 = .ok (.one (.integer 2)) := by with_unfolding_all rfl
  have compiled : ((countPair (some ⟨.integer, .oneOrMore⟩)).compile c).1 = .ok (.literal (.one (.integer 2))) := by
    with_unfolding_all rfl
  have loosened : ((countPair none).compile c).1 = .ok (.literal (.one (.integer 2))) := by with_unfolding_all rfl
  have target : ((Expr.literal (.one (.integer 2))).evaluate c).1 = .ok (.one (.integer 2)) := by
    with_unfolding_all rfl
  have without : (countPair (some ⟨.integer, .oneOrMore⟩)).loosen (fun _ => true) = countPair none := rfl
  rw [← without] at counts source loosened ⊢
  have same := Expr.compiled_declarations_only_restrict built own rfl sound allots counts (Prod.ext compiled rfl)
    (Prod.ext loosened rfl) (Prod.ext source rfl) (Prod.ext target rfl) (Prod.ext target rfl)
  exact ⟨_, _, _, _, compiled, loosened, target, target, same.1, rfl⟩

/-- Compilation trusts a declared type that it does not check: the literal is never bound, and counting uses
the size that the type promises. -/
theorem countPair_differs :
    (countPair (some (.one .integer))).answer (.initial {}) = .ok (.one (.integer 1)) ∧
      (countPair none).answer (.initial {}) = .ok (.one (.integer 2)) := by
  constructor <;> with_unfolding_all rfl

end QueryKernel
