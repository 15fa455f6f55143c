import QueryKernel.Proofs.Eval.Preserve
import QueryKernel.Proofs.Meaning.Fits

/-!
# The constructors give fitting types

An expression made by a constructor from parts that fit their types fits its type.  So a tree made with
the constructors fits its types wherever the variables hold what their declarations allow.

Errors have a stand-in: where a type promises one item, an error counts as one item, and where it promises none,
as none.
-/

namespace QueryKernel

/-! ## Plain results -/

theorem allPlain_nil : AllPlain [] := fun _ member => by cases member

theorem allPlain_one {item : Item} (plain : item.IsPlain) : AllPlain [item] := by
  intro other member
  rw [List.mem_singleton.1 member]
  exact plain

theorem AllPlain.append {items others : List Item} (first : AllPlain items) (second : AllPlain others) :
    AllPlain (items ++ others) := by
  intro item member
  rcases List.mem_append.1 member with inFirst | inSecond
  · exact first item inFirst
  · exact second item inSecond

theorem allPlain_nodes (nodes : List Node) : AllPlain (nodes.map .node) := by
  intro item member
  obtain ⟨n, _, rfl⟩ := List.mem_map.1 member
  trivial

theorem length_selectAt_le (items : List Item) (position : BinaryFloat) :
    (selectAt items position).length ≤ 1 := by
  unfold selectAt
  split
  · cases items[positionIndex position]? <;> simp
  · exact Nat.zero_le _

namespace Expr

/-- One position among the predicates leaves at most one item. -/
theorem passes_positional {numbers : Numbers} {es : List Expr} {env : Env} {items chosen : List Item}
    (passed : passes numbers es env items chosen)
    (positional : es.any (·.position?.isSome) = true) : chosen.length ≤ 1 := by
  induction es generalizing items with
  | nil => cases positional
  | cons e rest rest_ih =>
      obtain ⟨passing, now, later⟩ := passed
      cases found : e.position? with
      | some p =>
          rw [found] at now
          have few := length_selectAt_le items p
          rw [← show passing = selectAt items p from now] at few
          exact Nat.le_trans (passes_sublist later).length_le few
      | none =>
          rw [List.any_cons, found] at positional
          exact rest_ih later positional

end Expr

/-! ## Operations -/

theorem operate_length_le (operation : Atom → Atom → Except AtomError Item) (x y : List Item) :
    (operate operation x y).length ≤ 1 := by
  unfold operate
  split <;> simp

theorem operate_length_eq (operation : Atom → Atom → Except AtomError Item) {x y : List Item}
    (left : x.length = 1) (right : y.length = 1) : (operate operation x y).length = 1 := by
  obtain ⟨a, rfl⟩ := List.length_eq_one_iff.1 left
  obtain ⟨b, rfl⟩ := List.length_eq_one_iff.1 right
  rfl

theorem operate_plain {operation : Atom → Atom → Except AtomError Item}
    (plain : ∀ a b item, operation a b = .ok item → item.IsPlain) (x y : List Item) :
    AllPlain (operate operation x y) := by
  unfold operate
  split
  · next a b =>
      refine allPlain_one ?_
      cases made : operateAtoms operation a b with
      | none => trivial
      | some item =>
          simp only [operateAtoms, bind, Option.bind_eq_some_iff] at made
          obtain ⟨x, _, y, _, made⟩ := made
          cases result : operation x y with
          | ok found =>
              rw [result] at made
              cases made
              exact plain x y item result
          | error e =>
              rw [result] at made
              cases made
  · exact allPlain_nil

theorem rangeItems_plain (x y : List Item) : AllPlain (rangeItems x y) := by
  unfold rangeItems boundedRange
  split
  · split
    · dsimp only
      split
      · intro item member
        obtain ⟨i, _, rfl⟩ := List.mem_map.1 member
        trivial
      · exact allPlain_nil
    · exact allPlain_nil
  · exact allPlain_nil

/-- What holds of a sum and of the results in its place. -/
theorem sumItems_spec {P : List Item → Prop} (s : Sequence) {nothing failed : List Item}
    (sum : ∀ a, P [.atom a]) (ifNothing : P nothing) (ifFailed : P failed) :
    P (sumItems s nothing failed) := by
  unfold sumItems
  split
  · exact sum _
  · exact ifNothing
  · exact ifFailed

theorem atMostOne_fits {items : List Item} (plain : AllPlain items) :
    (atMostOne items).length ≤ 1 ∧ AllPlain (atMostOne items) := by
  unfold atMostOne
  split
  · next few => exact ⟨few, plain⟩
  · exact ⟨Nat.zero_le 1, allPlain_nil⟩

theorem averageItems_fits (s : Sequence) : (averageItems s).length ≤ 1 ∧ AllPlain (averageItems s) := by
  unfold averageItems
  split
  · split
    · generalize Except.toOption _ = found
      cases found with
      | none => exact ⟨Nat.zero_le 1, allPlain_nil⟩
      | some mean => exact ⟨Nat.le_refl 1, allPlain_one trivial⟩
    · exact ⟨Nat.zero_le 1, allPlain_nil⟩
  · exact ⟨Nat.zero_le 1, allPlain_nil⟩

theorem ErrorOf.result_plain (error : Error) (type : StaticType) : AllPlain (error.result type) := by
  unfold ErrorOf.result
  split
  · exact allPlain_one trivial
  · split
    · exact allPlain_nil
    · exact allPlain_one trivial

namespace Expr

variable {env : Env}

/-! ## Constructors -/

theorem fits_literal {v : Value} (simple : v.Simple) : (literal v).Fits env := by
  rintro s updates ⟨given, _⟩
  rw [given.items_eq]
  refine ⟨?_, simple.plain⟩
  rw [← simple.shaped.size_eq]
  exact .sized _ _

theorem outcomesAll_typed {es : List Expr} (typed : ∀ e ∈ es, e.Typed env) {items : List Item}
    {updates : List PendingUpdate} (given : outcomesAll .free es env items updates) :
    Sizes es items.length ∧ AllPlain items := by
  induction es generalizing items updates with
  | nil =>
      rw [given.1]
      exact ⟨.nil, allPlain_nil⟩
  | cons e rest rest_ih =>
      obtain ⟨s, firstUpdates, others, otherUpdates, first, later, rfl, _⟩ := given
      obtain ⟨allows, plain⟩ := typed e List.mem_cons_self s firstUpdates first
      obtain ⟨sizes, otherPlain⟩ :=
        rest_ih (fun other member => typed other (List.mem_cons_of_mem _ member)) later
      rw [List.length_append]
      exact ⟨.cons allows sizes, plain.append otherPlain⟩

theorem fits_listOf {operands : List Expr} {location : Option Location}
    (parts : ∀ e ∈ operands, e.Fits env) : (listOf operands location).Fits env := by
  refine ⟨?_, fitsAll_iff.2 parts⟩
  rintro s updates ⟨items, given, same⟩
  obtain ⟨sizes, plain⟩ := outcomesAll_typed (fun e member => (parts e member).typed) given
  rw [same.items_eq]
  exact ⟨concatType_allows sizes, plain⟩

theorem fits_rangeOf {first last : Expr} {location : Option Location} (low : first.Fits env)
    (high : last.Fits env) : (rangeOf first last location).Fits env := by
  refine ⟨?_, low, high⟩
  rintro s updates ⟨a, b, _, _, same, _⟩
  rw [same.items_eq]
  exact ⟨.many _ _, rangeItems_plain _ _⟩

theorem fits_arithmeticOf {op : Operator} {a b : Expr} {location : Option Location} (left : a.Fits env)
    (right : b.Fits env) : (arithmeticOf op a b location).Fits env := by
  refine ⟨?_, left, right⟩
  rintro s updates ⟨x, y, first, second, same, _⟩
  rw [same.items_eq]
  refine ⟨arithmeticType_allows op (left.typed x [] first).1 (right.typed y [] second).1
    (operate_length_le _ _ _) (operate_length_eq _), operate_plain (fun x y item made => ?_) _ _⟩
  obtain ⟨z, rfl⟩ := mapped_atom made
  trivial

theorem fits_comparisonOf {op : Comparison} {a b : Expr} {location : Option Location} (left : a.Fits env)
    (right : b.Fits env) : (comparisonOf op a b location).Fits env := by
  refine ⟨?_, left, right⟩
  rintro s updates ⟨x, y, first, second, same, _⟩
  rw [same.items_eq]
  refine ⟨comparisonType_allows (left.typed x [] first).1 (right.typed y [] second).1
    (operate_length_le _ _ _) (operate_length_eq _), operate_plain (fun x y item made => ?_) _ _⟩
  obtain ⟨z, rfl⟩ := mapped_atom (f := fun order => .boolean (op.holds order)) made
  trivial

theorem fits_conditionalOf {test yes no : Expr} {location : Option Location} (condition : test.Fits env)
    (positive : yes.Fits env) (negative : no.Fits env) : (conditionalOf test yes no location).Fits env := by
  refine ⟨?_, condition, positive, negative⟩
  rintro s updates ⟨t, _, ⟨_, given⟩ | ⟨_, given⟩⟩
  · obtain ⟨allows, plain⟩ := positive.typed s updates given
    exact ⟨branchType_allows (.inl allows), plain⟩
  · obtain ⟨allows, plain⟩ := negative.typed s updates given
    exact ⟨branchType_allows (.inr allows), plain⟩

theorem fits_contextValue {type : StaticType} {location : Option Location}
    (allows : type.Allows env.focus.items.length) (plain : AllPlain env.focus.items) :
    (contextValue type location).Fits env := by
  rintro s updates ⟨same, _⟩
  rw [same.items_eq]
  exact ⟨allows, plain⟩

theorem fits_root {location : Option Location} : (root location).Fits env := by
  rintro s updates ⟨same, _⟩
  rw [same.items_eq]
  exact ⟨.many _ _, allPlain_nodes _⟩

theorem fits_documents {source : DataSource} {location : Option Location} :
    (documents source location).Fits env := by
  rintro s updates ⟨same, _⟩
  rw [same.items_eq]
  exact ⟨.many _ _, allPlain_nodes _⟩

theorem fits_filterOf {base : Expr} {predicates : List Expr} {location : Option Location}
    (input : base.Fits env)
    (conditions : ∀ s, base.outcomes .free env s [] → ∀ item ∈ s.items,
      ∀ e ∈ predicates, e.Fits (env.focusOn item)) :
    (filterOf base predicates location).Fits env := by
  refine ⟨?_, input, fun s given item member =>
    fitsAll_iff.2 (conditions s given item member)⟩
  rintro s updates ⟨b, items, given, passed, same, _⟩
  obtain ⟨allows, plain⟩ := input.typed b [] given
  have fewer := passes_sublist passed
  rw [same.items_eq]
  refine ⟨filterType_allows allows fewer.length_le (passes_positional passed), fun item member => ?_⟩
  exact plain item (fewer.subset member)

theorem fits_letIn {var : Variable} {bound body : Expr} {location : Option Location}
    (value : bound.Fits env)
    (result : ∀ s, bound.outcomes .free env s [] → var.Allows s.items.length ∧ body.Fits (env.set var.id s)) :
    (letIn var bound body location).Fits env := by
  refine ⟨?_, value, result⟩
  rintro s updates ⟨v, given, inner⟩
  exact (result v given).2.typed s updates inner

/-- The sizes of the results of a loop, one for each item. -/
theorem forEach_typed {outcome : Item → List Item → List PendingUpdate → Prop} {body : Expr}
    {source items : List Item} {updates : List PendingUpdate}
    (each : Outcomes.forEach outcome source items updates)
    (typed : ∀ item ∈ source, ∀ items updates, outcome item items updates →
      body.staticType.Allows items.length ∧ AllPlain items) :
    (∀ k, body.size? = some k → items.length = source.length * k) ∧
      body.sequenceType.occurrence.least * source.length ≤ items.length ∧
      (body.sequenceType.occurrence.most < 2 →
        items.length ≤ body.sequenceType.occurrence.most * source.length) ∧ AllPlain items := by
  induction source generalizing items updates with
  | nil =>
      rw [each.1]
      exact ⟨fun k _ => (Nat.zero_mul k).symm, by simp, by simp, allPlain_nil⟩
  | cons item rest rest_ih =>
      obtain ⟨first, firstUpdates, others, otherUpdates, now, later, rfl, _⟩ := each
      obtain ⟨allows, plain⟩ := typed item List.mem_cons_self first firstUpdates now
      obtain ⟨exact, lower, upper, otherPlain⟩ :=
        rest_ih later fun other member => typed other (List.mem_cons_of_mem _ member)
      -- Each item adds as many as the type of the body says, for all three kinds of bounds.
      have bounds : body.sequenceType.occurrence.least ≤ first.length ∧
          (body.sequenceType.occurrence.most < 2 →
            first.length ≤ body.sequenceType.occurrence.most) := Occurrence.allows_iff.1 allows.occurrence
      simp only [List.length_append, List.length_cons, Nat.mul_add, Nat.mul_one, Nat.add_mul, Nat.one_mul]
      refine ⟨fun k known => ?_, by omega, fun few => ?_, plain.append otherPlain⟩
      · rw [exact k known, allows.exact k known, Nat.add_comm]
      · have one := bounds.2 few
        have more := upper few
        omega

theorem fits_forOf {var : Variable} {source body : Expr} {location : Option Location}
    (input : source.Fits env)
    (result : ∀ s, source.outcomes .free env s [] → ∀ item ∈ s.items,
      var.Allows 1 ∧ body.Fits (env.set var.id (.one item))) :
    (forOf var source body location).Fits env := by
  refine ⟨?_, input, result⟩
  rintro s updates ⟨v, items, given, each, same⟩
  have allows := (input.typed v [] given).1
  have typed : ∀ item ∈ v.items, ∀ items updates,
      (∃ s, body.outcomes .free (env.set var.id (.one item)) s updates ∧ s.items = items) →
      body.staticType.Allows items.length ∧ AllPlain items := by
    rintro item member items updates ⟨s, inner, rfl⟩
    exact (result v given item member).2.typed s updates inner
  obtain ⟨exact, lower, upper, plain⟩ := forEach_typed each typed
  rw [same.items_eq]
  refine ⟨loopType_allows allows (fun none => ?_) exact lower upper, plain⟩
  rw [List.length_eq_zero_iff.1 none] at each
  rw [each.1]
  rfl

theorem fits_varRef {var : Variable} {type : StaticType} {location : Option Location}
    (allows : type.Allows (env.values var.id).items.length) (plain : AllPlain (env.values var.id).items) :
    (varRef var type location).Fits env := by
  rintro s updates ⟨same, _⟩
  rw [same.items_eq]
  exact ⟨allows, plain⟩

theorem fits_deferred {error : Error} {type : StaticType} {location : Option Location}
    (allows : type.Allows (error.result type).length) : (deferred error type location).Fits env := by
  rintro s updates ⟨same, _⟩
  rw [same.items_eq]
  exact ⟨allows, error.result_plain type⟩

theorem fits_delete {target : Expr} {location : Option Location} (input : target.Fits env) :
    (delete target location).Fits env := by
  refine ⟨?_, input⟩
  rintro s updates ⟨t, _, same, _⟩
  rw [same.items_eq]
  exact ⟨.empty, allPlain_nil⟩

/-! ## Calls -/

theorem takes_iff {f : BuiltIn} {n : Nat} :
    f.takes n = true ↔ f.leastArguments ≤ n ∧ n ≤ f.mostArguments := by
  simp [BuiltIn.takes]

theorem oneArgument {f : BuiltIn} {arguments : List Expr} (takes : f.takes arguments.length = true)
    (least : f.leastArguments = 1) (most : f.mostArguments = 1) : ∃ a, arguments = [a] := by
  have bounds := takes_iff.1 takes
  exact List.length_eq_one_iff.1 (by omega)

theorem outcomesEach_one {numbers : Numbers} {a : Expr} {given : List Sequence} :
    outcomesEach numbers [a] env given ↔ ∃ s, a.outcomes numbers env s [] ∧ given = [s] := by
  constructor
  · rintro ⟨s, _, first, rfl, rfl⟩
    exact ⟨s, first, rfl⟩
  · rintro ⟨s, first, rfl⟩
    exact ⟨s, [], first, rfl, rfl⟩

theorem outcomesEach_two {numbers : Numbers} {a b : Expr} {given : List Sequence} :
    outcomesEach numbers [a, b] env given ↔
      ∃ s t, a.outcomes numbers env s [] ∧ b.outcomes numbers env t [] ∧ given = [s, t] := by
  constructor
  · rintro ⟨s, others, first, rest, rfl⟩
    obtain ⟨t, second, rfl⟩ := outcomesEach_one.1 rest
    exact ⟨s, t, first, second, rfl⟩
  · rintro ⟨s, t, first, second, rfl⟩
    exact ⟨s, [t], first, outcomesEach_one.2 ⟨t, second, rfl⟩, rfl⟩

/-- The first item, of the type that the call has. -/
theorem head_allows {a : Expr} {s : Sequence} (allows : a.staticType.Allows s.items.length) :
    (BuiltIn.head.resultType [a]).Allows (s.items.take 1).length := by
  have bounds : a.sequenceType.occurrence.least ≤ s.items.length ∧ _ :=
    Occurrence.allows_iff.1 allows.occurrence
  rw [List.length_take]
  by_cases empty : a.sequenceType.isEmpty = true
  · have type : BuiltIn.head.resultType [a] = .ofSequenceType .empty := by
      simp [BuiltIn.resultType, empty]
    rw [type, allows.eq_zero empty]
    exact .empty
  · by_cases some : 0 < a.sequenceType.occurrence.least
    · have type : BuiltIn.head.resultType [a] = .ofSequenceType (.one a.sequenceType.type) := by
        simp [BuiltIn.resultType, empty, some]
      rw [type, Nat.min_eq_left (by omega)]
      exact .one _
    · have type : BuiltIn.head.resultType [a] = .ofSequenceType (.optional a.sequenceType.type) := by
        simp [BuiltIn.resultType, empty, some]
      rw [type]
      exact .optional _ (by omega)

theorem result_typed {f : BuiltIn} {arguments : List Expr} (firstOrder : f.isHigherOrder = false)
    (takes : f.takes arguments.length = true) (typed : ∀ e ∈ arguments, e.Typed env)
    {given : List Sequence} (results : outcomesEach .free arguments env given) :
    (f.resultType arguments).Allows (f.result given).length ∧ AllPlain (f.result given) := by
  have first : ∀ {a : Expr} {rest : List Expr}, arguments = a :: rest → a.Typed env := by
    rintro a rest rfl
    exact typed a List.mem_cons_self
  cases f with
  | head =>
      obtain ⟨a, rfl⟩ := oneArgument takes rfl rfl
      obtain ⟨s, given, rfl⟩ := outcomesEach_one.1 results
      obtain ⟨allows, plain⟩ := first rfl s [] given
      exact ⟨head_allows allows, fun item member => plain item (List.mem_of_mem_take member)⟩
  | count =>
      obtain ⟨a, rfl⟩ := oneArgument takes rfl rfl
      obtain ⟨s, given, rfl⟩ := outcomesEach_one.1 results
      exact ⟨.one _, allPlain_one trivial⟩
  | sum =>
      have bounds := takes_iff.1 takes
      match arguments with
      | [] => simp [BuiltIn.leastArguments] at bounds
      | [a] =>
          obtain ⟨s, given, rfl⟩ := outcomesEach_one.1 results
          exact sumItems_spec (P := fun items => (BuiltIn.sum.resultType [a]).Allows items.length ∧
            AllPlain items) s (fun _ => ⟨.one _, allPlain_one trivial⟩) ⟨.one _, allPlain_one trivial⟩
            ⟨.one _, allPlain_one trivial⟩
      | [a, b] =>
          obtain ⟨s, t, _, other, rfl⟩ := outcomesEach_two.1 results
          obtain ⟨few, plain⟩ := atMostOne_fits (typed b (by simp) t [] other).2
          exact sumItems_spec (P := fun items => (BuiltIn.sum.resultType [a, b]).Allows items.length ∧
            AllPlain items) s (fun _ => ⟨.optional _ (Nat.le_refl 1), allPlain_one trivial⟩)
            ⟨.optional _ few, plain⟩ ⟨.optional _ (Nat.zero_le 1), allPlain_nil⟩
      | _ :: _ :: _ :: rest => simp [BuiltIn.mostArguments] at bounds
  | avg =>
      obtain ⟨a, rfl⟩ := oneArgument takes rfl rfl
      obtain ⟨s, given, rfl⟩ := outcomesEach_one.1 results
      obtain ⟨few, plain⟩ := averageItems_fits s
      exact ⟨.optional _ few, plain⟩
  | reverse =>
      obtain ⟨a, rfl⟩ := oneArgument takes rfl rfl
      obtain ⟨s, given, rfl⟩ := outcomesEach_one.1 results
      obtain ⟨allows, plain⟩ := first rfl s [] given
      refine ⟨?_, fun item member => plain item (List.mem_reverse.1 member)⟩
      rw [BuiltIn.result, List.length_reverse]
      exact allows
  | error => exact ⟨.anything _, allPlain_nil⟩
  | foldLeft1 => cases firstOrder
  | sortWith => cases firstOrder

theorem fits_call {f : BuiltIn} {arguments : List Expr} {location : Option Location}
    (firstOrder : f.isHigherOrder = false) (takes : f.takes arguments.length = true)
    (parts : ∀ e ∈ arguments, e.Fits env) :
    (call f arguments (f.resultType arguments) location).Fits env := by
  refine ⟨?_, fitsAll_iff.2 parts⟩
  rintro s updates ⟨given, results, same, _⟩
  rw [same.items_eq]
  exact result_typed firstOrder takes (fun e member => (parts e member).typed) results

end Expr

/-! ## Trees made with the constructors -/

/-- Plain items everywhere, and as many as the declared types of variables allow. -/
structure Env.Conforms (declared : Declarations) (env : Env) : Prop where
  focus : AllPlain env.focus.items
  plain : ∀ id, AllPlain (env.values id).items
  fits : ∀ id type, declared id = some type → type.occurrence.allows (env.values id).items.length = true

theorem Env.Conforms.set {declared : Declarations} {env : Env} (conforms : env.Conforms declared)
    {var : Variable} (agrees : var.Agrees declared) {s : Sequence} (allowed : var.Allows s.items.length)
    (plain : AllPlain s.items) : (env.set var.id s).Conforms declared := by
  refine ⟨conforms.focus, fun other => ?_, fun other type found => ?_⟩
  · by_cases same : other = var.id
    · rw [same, Env.set_same]
      exact plain
    · rw [Env.set_other _ _ same]
      exact conforms.plain other
  · by_cases same : other = var.id
    · rw [same, Env.set_same]
      exact allowed type (agrees.trans (same ▸ found))
    · rw [Env.set_other _ _ same]
      exact conforms.fits other type found

theorem Env.Conforms.focusOn {declared : Declarations} {env : Env} (conforms : env.Conforms declared)
    {item : Item} (plain : item.IsPlain) :
    (env.focusOn item).Conforms declared :=
  ⟨allPlain_one plain, conforms.plain, conforms.fits⟩

/-- Where no variable of a tree has a declared type there is nothing to allow. -/
theorem Expr.Built.allots {declared : Declarations} {good : Item → Prop} {e : Expr} (built : e.Built declared good)
    (undeclared : ∀ id ∈ e.binders, declared id = none) (env : Env) : e.Allots env := by
  refine allots_of_undeclared (built.every.mono fun s inside made var binds => ?_) env
  have mine : var.id ∈ e.binders := (binders_inside inside).subset (binders_variable binds)
  cases made with
  | letIn agrees | forIn agrees =>
      cases binds
      exact agrees.trans (undeclared _ mine)
  | _ => cases binds

/-- A tree made with the constructors fits its types if declared types allow as many items as are bound. -/
theorem Expr.Built.fits {declared : Declarations} {good : Item → Prop} {e : Expr}
    (built : e.Built declared good) {visible : Visible} (placed : e.Placed false visible)
    {env : Env} (conforms : env.Conforms declared) (allots : e.Allots env) : e.Fits env := by
  induction built generalizing visible env with
  | literal =>
      cases placed with
      | literal simple => exact fits_literal simple
  | list _ parts_ih =>
      cases placed with
      | list parts =>
          exact fits_listOf fun e member =>
            parts_ih e member (parts e member) conforms (allotsAll_iff.1 allots e member)
  | range _ _ low_ih high_ih =>
      cases placed with
      | range low high => exact fits_rangeOf (low_ih low conforms allots.1) (high_ih high conforms allots.2)
  | arithmetic _ _ left_ih right_ih =>
      cases placed with
      | arithmetic left right =>
          exact fits_arithmeticOf (left_ih left conforms allots.1) (right_ih right conforms allots.2)
  | comparison _ _ left_ih right_ih =>
      cases placed with
      | comparison left right =>
          exact fits_comparisonOf (left_ih left conforms allots.1) (right_ih right conforms allots.2)
  | conditional _ _ _ condition_ih positive_ih negative_ih =>
      cases placed with
      | conditional condition positive negative =>
          exact fits_conditionalOf (condition_ih condition conforms allots.1)
            (positive_ih positive conforms allots.2.1) (negative_ih negative conforms allots.2.2)
  | contextValue => exact fits_contextValue (.anything _) conforms.focus
  | root => exact fits_root
  | documents => exact fits_documents
  | filter _ _ input_ih conditions_ih =>
      cases placed with
      | filter input conditions =>
          have base := input_ih input conforms allots.1
          refine fits_filterOf base fun s given item member e among => ?_
          exact conditions_ih e among (conditions e among)
            (conforms.focusOn ((base.typed s [] given).2 item member))
            (allotsAll_iff.1 (allots.2 s given item member) e among)
  | letIn agrees _ _ value_ih result_ih =>
      cases placed with
      | letIn _ value result =>
          have bound := value_ih value conforms allots.1
          refine fits_letIn bound fun s given => ?_
          obtain ⟨allowed, inner⟩ := allots.2 s given
          exact ⟨allowed, result_ih result (conforms.set agrees allowed (bound.typed s [] given).2) inner⟩
  | forIn agrees _ _ input_ih result_ih =>
      cases placed with
      | forIn _ input result =>
          have source := input_ih input conforms allots.1
          refine fits_forOf source fun s given item member => ?_
          obtain ⟨allowed, inner⟩ := allots.2 s given item member
          have plain := allPlain_one ((source.typed s [] given).2 item member)
          exact ⟨allowed, result_ih result (conforms.set agrees allowed plain) inner⟩
  | @varRef var _ agrees =>
      refine fits_varRef ?_ (conforms.plain _)
      cases found : var.declared with
      | none => exact .anything _
      | some type => exact .ofSequenceType (conforms.fits _ _ (agrees.symm.trans found))
  | call _ _ parts_ih =>
      cases placed with
      | call firstOrder takes parts =>
          exact fits_call firstOrder takes fun e member =>
            parts_ih e member (parts e member) conforms (allotsAll_iff.1 allots e member)
  -- Only compilation leaves errors for later, and no function items are called.
  | deferred =>
      cases placed with
      | deferred later => cases later
  | dynamicCall => cases placed
  | delete _ input_ih =>
      cases placed with
      | delete input => exact fits_delete (input_ih input conforms allots)

end QueryKernel
