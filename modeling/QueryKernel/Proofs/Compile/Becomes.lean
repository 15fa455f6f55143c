import QueryKernel.Proofs.Compile.Stages
import QueryKernel.Proofs.Meaning.Copied

/-!
# What expressions become

An expression that compilation puts in place of another one: it stands in its place wherever the variables
hold what is recorded of them, and it binds variables of the other one or new ones.  Here it is shown of every
kind of node that it becomes the same node with other parts if its parts become those.

The body of a binding has an environment of its own: a recorded value says how the variable is added up, whereas
the binding leaves that open, so that the body has to be moved from one environment to another.

## Definitions

* `Fresh` says that variables are old or new and all different.
* `Expr.Substitutes` and `Expr.Becomes` say that an expression is put in place of another one, `AllBecome` says
  so of lists of them.
* `Compilable` says that an expression may be compiled in a state.
-/

namespace QueryKernel

/-! ## Variables in use and new ones -/

/-- Different variables, each one of some old ones or a new one between two numbers. -/
structure Fresh (own : List Nat) (low high : Nat) (ids : List Nat) : Prop where
  nodup : ids.Nodup
  origin : ∀ id ∈ ids, id ∈ own ∨ low ≤ id ∧ id < high

namespace Fresh

variable {own others ids more : List Nat} {low mid high : Nat}

theorem nil : Fresh own low high [] := ⟨List.nodup_nil, fun _ none => by cases none⟩

theorem self (nodup : own.Nodup) : Fresh own low high own := ⟨nodup, fun _ => .inl⟩

theorem mono {low' high' : Nat} (fresh : Fresh own low high ids) (subset : own ⊆ others) (lower : low' ≤ low)
    (upper : high ≤ high') : Fresh others low' high' ids := by
  refine ⟨fresh.nodup, fun id member => (fresh.origin id member).imp (@subset id) fun new => ?_⟩
  exact ⟨Nat.le_trans lower new.1, Nat.lt_of_lt_of_le new.2 upper⟩

theorem sublist (fresh : Fresh own low high ids) (fewer : more.Sublist ids) : Fresh own low high more :=
  ⟨fresh.nodup.sublist fewer, fun id member => fresh.origin id (fewer.subset member)⟩

/-- A variable in use that the new expression binds as well. -/
theorem cons {id : Nat} (fresh : Fresh own low high ids) (nodup : (id :: own).Nodup) (used : id < low) :
    Fresh (id :: own) low high (id :: ids) := by
  refine ⟨List.nodup_cons.2 ⟨fun member => ?_, fresh.nodup⟩, fun other member => ?_⟩
  · rcases fresh.origin id member with mine | new
    · exact (List.nodup_cons.1 nodup).1 mine
    · omega
  · rcases List.mem_cons.1 member with rfl | later
    · exact .inl List.mem_cons_self
    · exact (fresh.origin other later).imp_left (List.mem_cons_of_mem _)

theorem append (first : Fresh own low mid ids) (second : Fresh others mid high more)
    (nodup : (own ++ others).Nodup) (used : ∀ id ∈ own ++ others, id < low) (lower : low ≤ mid)
    (upper : mid ≤ high) : Fresh (own ++ others) low high (ids ++ more) := by
  obtain ⟨_, _, disjoint⟩ := List.nodup_append.1 nodup
  refine ⟨List.nodup_append.2 ⟨first.nodup, second.nodup, ?_⟩, fun id member => ?_⟩
  · rintro id here other there rfl
    rcases first.origin id here with mine | new
    · rcases second.origin id there with theirs | newer
      · exact disjoint id mine id theirs rfl
      · have old := used id (List.mem_append_left _ mine)
        omega
    · rcases second.origin id there with theirs | newer
      · have old := used id (List.mem_append_right _ theirs)
        omega
      · omega
  · rcases List.mem_append.1 member with here | there
    · rcases first.origin id here with mine | new
      · exact .inl (List.mem_append_left _ mine)
      · exact .inr ⟨new.1, Nat.lt_of_lt_of_le new.2 upper⟩
    · rcases second.origin id there with theirs | new
      · exact .inl (List.mem_append_right _ theirs)
      · exact .inr ⟨Nat.le_trans lower new.1, new.2⟩

/-- What is new after the first step is new after both. -/
theorem trans (first : Fresh own low mid ids) (second : Fresh ids mid high more) (lower : low ≤ mid)
    (upper : mid ≤ high) : Fresh own low high more := by
  refine ⟨second.nodup, fun id member => ?_⟩
  rcases second.origin id member with before | new
  · exact (first.origin id before).imp_right fun new => ⟨new.1, Nat.lt_of_lt_of_le new.2 upper⟩
  · exact .inr ⟨Nat.le_trans lower new.1, new.2⟩

theorem range (first count : Nat) (lower : low ≤ first) (upper : first + count ≤ high) :
    Fresh own low high (List.range' first count) := by
  refine ⟨List.nodup_range', fun id member => .inr ?_⟩
  have bounds := List.mem_range'_1.1 member
  omega

end Fresh

namespace Expr

variable {visible : Visible} {c c₁ c₂ : CompileContext} {e e₁ e₂ : Expr} {es es₁ : List Expr} {n : Nat} {env : Env}

/-! ## Expressions that may be compiled -/

/-- Each variable is bound once, and is in use but not visible. -/
structure Compilable (visible : Visible) (c : CompileContext) (e : Expr) : Prop where
  distinct : e.Distinct visible
  used : ∀ id ∈ e.binders, id < c.context.nextVariable
  stage : Stage visible c

theorem Compilable.part {s : Expr} (compilable : e.Compilable visible c) (member : s ∈ e.parts) :
    s.Compilable visible c :=
  ⟨compilable.distinct.part member, fun id inside => compilable.used id ((binders_part member).subset inside),
    compilable.stage⟩

theorem Compilable.later (compilable : e.Compilable visible c) (later : c.Later c₁) : e.Compilable visible c₁ :=
  ⟨compilable.distinct, fun id member => Nat.lt_of_lt_of_le (compilable.used id member) later.next,
    compilable.stage.later later⟩

theorem Compilable.focused (compilable : e.Compilable visible c) (value : Option Value) :
    e.Compilable visible.focused (c.pushFocus value) :=
  ⟨compilable.distinct.focused, compilable.used, compilable.stage.focused value⟩

/-- The body of a binding is compiled in a scope with the variable. -/
theorem Compilable.enter {body : Expr} (compilable : e.Compilable visible c) (entry : ScopeEntry)
    (binds : (entry.var.id :: body.binders).Sublist e.binders) (simple : ∀ v, entry.value = some v → v.Simple) :
    body.Compilable (visible.add entry.var.id) (c.enter entry) :=
  ⟨compilable.distinct.body binds, fun id member => compilable.used id (binds.subset (List.mem_cons_of_mem _ member)),
    compilable.stage.enter (compilable.used _ (binds.subset List.mem_cons_self)) simple⟩

/-! ## Expressions in place of others -/

/-- The second expression may be put in place of the first one.  A position stays as it is. -/
structure Substitutes (visible : Visible) (c : CompileContext) (e e' : Expr) : Prop where
  placed : e'.Placed true visible
  serves : ∀ env, env.Recorded visible c → e.Fits env → e.Serves env e'
  position : e.position? = none ∨ e' = e

/-- The second expression is put in place of the first one by compilation, after which variables have the next
number. -/
structure Becomes (visible : Visible) (c : CompileContext) (e : Expr) (next : Nat) (e' : Expr) : Prop extends
    Substitutes visible c e e' where
  binders : Fresh e.binders c.context.nextVariable next e'.binders

/-- The same for lists of expressions. -/
structure AllBecome (visible : Visible) (c : CompileContext) (es : List Expr) (next : Nat) (es' : List Expr) :
    Prop where
  each : List.Forall₂ (Substitutes visible c) es es'
  binders : Fresh (bindersAll es) c.context.nextVariable next (bindersAll es')

theorem substitutes_self (placed : e.Placed true visible) : Substitutes visible c e e :=
  ⟨placed, fun _ _ => serves_self, .inr rfl⟩

theorem becomes_self (compilable : e.Compilable visible c) (placed : e.Placed true visible) : Becomes visible c e n e :=
  ⟨substitutes_self placed, .self compilable.distinct.nodup⟩

theorem Substitutes.earlier (substitutes : Substitutes visible c₁ e e₁) (stage : Stage visible c)
    (later : c.Later c₁) : Substitutes visible c e e₁ :=
  ⟨substitutes.placed, fun env recorded => substitutes.serves env (recorded.later stage later), substitutes.position⟩

theorem Becomes.trans (first : Becomes visible c e c₁.context.nextVariable e₁) (stage : Stage visible c)
    (later : c.Later c₁) (second : Becomes visible c₁ e₁ n e₂) (upper : c₁.context.nextVariable ≤ n) :
    Becomes visible c e n e₂ := by
  refine ⟨⟨second.placed, fun env recorded fits => ?_, ?_⟩, first.binders.trans second.binders later.next upper⟩
  · have serves := first.serves env recorded fits
    exact serves.trans (second.serves env (recorded.later stage later) serves.fits)
  · rcases first.position with none | rfl
    · exact .inl none
    · exact second.position

theorem Becomes.distinct (becomes : Becomes visible c e n e₁) (compilable : e.Compilable visible c) :
    e₁.Distinct visible := by
  refine ⟨fun id member seen => ?_, becomes.binders.nodup⟩
  rcases becomes.binders.origin id member with own | new
  · exact compilable.distinct.apart id own seen
  · exact absurd (compilable.stage.bounded id seen) (Nat.not_lt.2 new.1)

/-- What an expression becomes may be compiled again. -/
theorem Becomes.compilable (becomes : Becomes visible c e c₁.context.nextVariable e₁)
    (compilable : e.Compilable visible c) (later : c.Later c₁) : e₁.Compilable visible c₁ := by
  refine ⟨becomes.distinct compilable, fun id member => ?_, compilable.stage.later later⟩
  rcases becomes.binders.origin id member with own | new
  · exact Nat.lt_of_lt_of_le (compilable.used id own) later.next
  · exact new.2

/-- Something else is put in place of what an expression becomes. -/
theorem Becomes.replaced (becomes : Becomes visible c e n e₁) (noPosition : e.position? = none)
    (placed : e₂.Placed true visible)
    (serves : ∀ env, env.Recorded visible c → e₁.Fits env → e₁.Serves env e₂)
    (fewer : e₂.binders.Sublist e₁.binders) : Becomes visible c e n e₂ := by
  refine ⟨⟨placed, fun env recorded fits => ?_, .inl noPosition⟩, becomes.binders.sublist fewer⟩
  have first := becomes.serves env recorded fits
  exact first.trans (serves env recorded first.fits)

/-- What an expression becomes may be given its type. -/
theorem Becomes.narrow (becomes : Becomes visible c e n e₁) (noPosition : e.position? = none) :
    Becomes visible c e n (e₁.narrow e.sequenceType) :=
  ⟨⟨becomes.placed.narrow _, fun env recorded fits => (becomes.serves env recorded fits).narrow fits becomes.placed,
    .inl noPosition⟩, (binders_narrow e₁ e.sequenceType).symm ▸ becomes.binders⟩

theorem allBecome_nil : AllBecome visible c [] n [] := ⟨.nil, .nil⟩

/-- What may be compiled is told by the variables that are bound. -/
theorem Compilable.of_binders (compilable : e.Compilable visible c) (fewer : e₁.binders.Sublist e.binders) :
    e₁.Compilable visible c :=
  ⟨⟨compilable.distinct.apart.fewer fewer.subset, compilable.distinct.nodup.sublist fewer⟩,
    fun id member => compilable.used id (fewer.subset member), compilable.stage⟩

theorem AllBecome.cons {type : StaticType} {location : Option Location}
    (compilable : (list (e :: es) type location).Compilable visible c)
    (first : Becomes visible c e c₁.context.nextVariable e₁) (later : c.Later c₁)
    (others : AllBecome visible c₁ es n es₁) (upper : c₁.context.nextVariable ≤ n) :
    AllBecome visible c (e :: es) n (e₁ :: es₁) :=
  ⟨.cons first.toSubstitutes (others.each.imp fun _ _ substitutes => substitutes.earlier compilable.stage later),
    first.binders.append others.binders compilable.distinct.nodup compilable.used later.next upper⟩

/-! ## Parts -/

section Parts

variable (become : AllBecome visible c es n es₁)

include become

theorem AllBecome.origin (member : e₁ ∈ es₁) : ∃ e ∈ es, Substitutes visible c e e₁ := by
  obtain ⟨e, inside, paired⟩ := mem_zip_of_mem_right become.each.length_eq member
  exact ⟨e, inside, (List.forall₂_iff_zip.1 become.each).2 paired⟩

theorem AllBecome.placed : ∀ e ∈ es₁, e.Placed true visible := by
  intro e₁ member
  obtain ⟨e, _, substitutes⟩ := become.origin member
  exact substitutes.placed

theorem AllBecome.fits (recorded : env.Recorded visible c) (fits : ∀ e ∈ es, e.Fits env) :
    ∀ e ∈ es₁, e.Fits env := by
  intro e₁ member
  obtain ⟨e, inside, substitutes⟩ := become.origin member
  exact (substitutes.serves env recorded (fits e inside)).fits

theorem AllBecome.within (recorded : env.Recorded visible c) (fits : ∀ e ∈ es, e.Fits env) :
    List.Forall₂ (fun e e₁ => Within .free e₁ env .free e env) es es₁ := by
  refine List.forall₂_iff_zip.2 ⟨become.each.length_eq, fun {e e₁} paired => ?_⟩
  have substitutes : Substitutes visible c e e₁ := (List.forall₂_iff_zip.1 become.each).2 paired
  exact (substitutes.serves env recorded (fits e (List.of_mem_zip paired).1)).within

/-- An expression with other parts is put in place of the one with these. -/
theorem AllBecome.becomes (noPosition : e.position? = none) (own : e.binders = bindersAll es)
    (others : e₁.binders = bindersAll es₁) (placed : e₁.Placed true visible)
    (serves : ∀ env, env.Recorded visible c → e.Fits env → e.Serves env e₁) : Becomes visible c e n e₁ :=
  ⟨⟨placed, serves, .inl noPosition⟩, own ▸ others ▸ become.binders⟩

end Parts

theorem AllBecome.pair {a b a₁ b₁ : Expr} (become : AllBecome visible c [a, b] n [a₁, b₁]) :
    Substitutes visible c a a₁ ∧ Substitutes visible c b b₁ := by
  cases become.each with
  | cons left others =>
      cases others with
      | cons right _ => exact ⟨left, right⟩

/-! ## Nodes with other parts -/

section Nodes

variable {a b t a₁ b₁ t₁ : Expr} {type : StaticType} {location : Option Location}

theorem becomes_listOf (become : AllBecome visible c es n es₁) :
    Becomes visible c (list es type location) n (listOf es₁ location) := by
  refine become.becomes rfl rfl rfl (.list become.placed) fun env recorded fits => ?_
  have parts := fitsAll_iff.1 fits.2
  refine ⟨fits_listOf (become.fits recorded parts), ?_⟩
  rintro s updates ⟨items, given, same⟩
  exact ⟨items, outcomesAll_within (become.within recorded parts) given, same⟩

theorem becomes_range (become : AllBecome visible c [a, b] n [a₁, b₁])
    (quiet : a₁.hasUpdates = false ∧ b₁.hasUpdates = false) :
    Becomes visible c (range a b type location) n (range a₁ b₁ type location) := by
  obtain ⟨low, high⟩ := become.pair
  refine become.becomes rfl (by simp [binders, bindersAll]) (by simp [binders, bindersAll])
    (.range low.placed high.placed fun _ => quiet) fun env recorded fits => ?_
  obtain ⟨typed, first, last⟩ := fits
  have lower := low.serves env recorded first
  have upper := high.serves env recorded last
  have within : Within .free (range a₁ b₁ type location) env .free (range a b type location) env := by
    rintro s updates ⟨x, y, left, right, same⟩
    exact ⟨x, y, lower.within x [] left, upper.within y [] right, same⟩
  exact ⟨⟨typed.within within rfl, lower.fits, upper.fits⟩, within⟩

theorem becomes_arithmeticOf {op : Operator} (become : AllBecome visible c [a, b] n [a₁, b₁])
    (quiet : a₁.hasUpdates = false ∧ b₁.hasUpdates = false) :
    Becomes visible c (arithmetic op a b type location) n (arithmeticOf op a₁ b₁ location) := by
  obtain ⟨left, right⟩ := become.pair
  refine become.becomes rfl (by simp [binders, bindersAll]) (by simp [arithmeticOf, binders, bindersAll])
    (.arithmetic left.placed right.placed fun _ => quiet) fun env recorded fits => ?_
  obtain ⟨_, first, second⟩ := fits
  have before := left.serves env recorded first
  have after := right.serves env recorded second
  refine ⟨fits_arithmeticOf before.fits after.fits, ?_⟩
  rintro s updates ⟨x, y, one, other, same⟩
  exact ⟨x, y, before.within x [] one, after.within y [] other, same⟩

theorem becomes_comparisonOf {op : Comparison} (become : AllBecome visible c [a, b] n [a₁, b₁])
    (quiet : a₁.hasUpdates = false ∧ b₁.hasUpdates = false) :
    Becomes visible c (comparison op a b type location) n (comparisonOf op a₁ b₁ location) := by
  obtain ⟨left, right⟩ := become.pair
  refine become.becomes rfl (by simp [binders, bindersAll]) (by simp [comparisonOf, binders, bindersAll])
    (.comparison left.placed right.placed fun _ => quiet) fun env recorded fits => ?_
  obtain ⟨_, first, second⟩ := fits
  have before := left.serves env recorded first
  have after := right.serves env recorded second
  refine ⟨fits_comparisonOf before.fits after.fits, ?_⟩
  rintro s updates ⟨x, y, one, other, same⟩
  exact ⟨x, y, before.within x [] one, after.within y [] other, same⟩

theorem becomes_conditionalOf (become : AllBecome visible c [t, a, b] n [t₁, a₁, b₁])
    (quiet : t₁.hasUpdates = false) :
    Becomes visible c (conditional t a b type location) n (conditionalOf t₁ a₁ b₁ location) := by
  obtain ⟨condition, positive, negative⟩ : Substitutes visible c t t₁ ∧ Substitutes visible c a a₁ ∧
      Substitutes visible c b b₁ := by
    cases become.each with
    | cons condition others =>
        cases others with
        | cons positive others =>
            cases others with
            | cons negative _ => exact ⟨condition, positive, negative⟩
  refine become.becomes rfl (by simp [binders, bindersAll]) (by simp [conditionalOf, binders, bindersAll])
    (.conditional condition.placed positive.placed negative.placed fun _ => quiet) fun env recorded fits => ?_
  obtain ⟨_, test, yes, no⟩ := fits
  have tested := condition.serves env recorded test
  have first := positive.serves env recorded yes
  have second := negative.serves env recorded no
  refine ⟨fits_conditionalOf tested.fits first.fits second.fits, ?_⟩
  rintro s updates ⟨x, given, branch⟩
  exact ⟨x, tested.within x [] given, branch.imp (·.imp_right (first.within s updates))
    (·.imp_right (second.within s updates))⟩

theorem becomes_call {f : BuiltIn} (become : AllBecome visible c es n es₁) (firstOrder : f.isHigherOrder = false)
    (takes : f.takes es.length = true) (quiet : ∀ e ∈ es₁, e.hasUpdates = false) :
    Becomes visible c (call f es type location) n (call f es₁ (f.resultType es₁) location) := by
  have accepted : f.takes es₁.length = true := become.each.length_eq ▸ takes
  refine become.becomes rfl rfl rfl (.call firstOrder accepted become.placed fun _ => quiet) fun env recorded fits => ?_
  have parts := fitsAll_iff.1 fits.2
  refine ⟨fits_call firstOrder accepted (become.fits recorded parts), ?_⟩
  rintro s updates ⟨given, results, same⟩
  exact ⟨given, outcomesEach_within (become.within recorded parts) results, same⟩

theorem becomes_delete (becomes : Becomes visible c t n t₁) (quiet : t₁.hasUpdates = false) :
    Becomes visible c (delete t location) n (delete t₁ location) := by
  refine ⟨⟨.delete becomes.placed fun _ => quiet, fun env recorded fits => ?_, .inl rfl⟩, becomes.binders⟩
  have target := becomes.serves env recorded fits.2
  refine ⟨fits_delete target.fits, ?_⟩
  rintro s updates ⟨x, given, same⟩
  exact ⟨x, target.within x [] given, same⟩

/-! ## Filters -/

theorem position?_literal {p : BinaryFloat} (found : e.position? = some p) :
    ∃ x : Atom, e = literal (.one (.atom x)) ∧ x.isNumeric = true := by
  cases e with
  | literal v =>
      cases v with
      | one item =>
          cases item with
          | atom x =>
              refine ⟨x, rfl, ?_⟩
              simp only [position?] at found
              split at found
              · assumption
              · cases found
          | _ => cases found
      | _ => cases found
  | _ => cases found

/-- Where everything may be decided both ways, anything may be selected. -/
theorem selects_sublist {holds : Item → Nat → Bool → Prop} {items chosen : List Item} {position : Nat}
    (either : ∀ item ∈ items, ∀ position held, holds item position held) (fewer : chosen.Sublist items) :
    Selects holds items position chosen := by
  induction fewer generalizing position with
  | slnil => rfl
  | cons item _ rest_ih =>
      exact ⟨false, _, either item List.mem_cons_self position false,
        rest_ih fun other member => either other (List.mem_cons_of_mem _ member), rfl⟩
  | cons_cons item _ rest_ih =>
      exact ⟨true, _, either item List.mem_cons_self position true,
        rest_ih fun other member => either other (List.mem_cons_of_mem _ member), rfl⟩

/-- A predicate in place of another one passes nothing that the other may not pass.  It may be a number where
the other is not. -/
theorem Substitutes.passes {items passing : List Item} (substitutes : Substitutes visible.focused c e e₁)
    (recorded : ∀ item ∈ items, (env.focusOn item).Recorded visible.focused c)
    (fits : ∀ item ∈ items, e.Fits (env.focusOn item))
    (passed : Passes e₁.position? (fun item position held => ∃ s,
      e₁.outcomes .free (env.focusOn item) s [] ∧ MayHold .free s.items position held) items passing) :
    Passes e.position? (fun item position held => ∃ s,
      e.outcomes .free (env.focusOn item) s [] ∧ MayHold .free s.items position held) items passing := by
  have within : ∀ item ∈ items, Within .free e₁ (env.focusOn item) .free e (env.focusOn item) := fun item member =>
    (substitutes.serves _ (recorded item member) (fits item member)).within
  rcases substitutes.position with none | rfl
  · rw [none]
    cases found : e₁.position? with
    | none =>
        rw [found] at passed
        refine passed.mono fun item member position held => ?_
        rintro ⟨s, given, may⟩
        exact ⟨s, within item member s [] given, may⟩
    | some p =>
        -- The number selects by position what the predicate in its place may have held for, item by item.
        obtain ⟨x, rfl, number⟩ := position?_literal found
        rw [found] at passed
        obtain rfl : passing = selectAt items p := passed
        refine selects_sublist (fun item member position held => ?_) (selectAt_sublist items p)
        refine ⟨_, within item member _ [] (outcomes_literal (.one (.atom x))), ?_⟩
        change MayHold .free [.atom x] position held
        simp only [MayHold, deciding, number, if_true]
        trivial
  · exact passed

theorem passes_of_substitutes {items chosen : List Item}
    (each : List.Forall₂ (Substitutes visible.focused c) es es₁)
    (recorded : ∀ item ∈ items, (env.focusOn item).Recorded visible.focused c)
    (fits : ∀ item ∈ items, ∀ e ∈ es, e.Fits (env.focusOn item))
    (passed : passes .free es₁ env items chosen) : passes .free es env items chosen := by
  induction each generalizing items with
  | nil => exact passed
  | cons first _ rest_ih =>
      obtain ⟨passing, now, later⟩ := passed
      have inside : ∀ item ∈ passing, item ∈ items := fun item member => now.sublist.subset member
      refine ⟨passing, first.passes recorded (fun item member => fits item member _ List.mem_cons_self) now, ?_⟩
      exact rest_ih (fun item member => recorded item (inside item member))
        (fun item member e among => fits item (inside item member) e (List.mem_cons_of_mem _ among)) later

theorem becomes_filterOf {found : Option Item} (compilable : (filter a es type location).Compilable visible c)
    (input : Becomes visible c a c₁.context.nextVariable a₁) (later : c.Later c₁)
    (conditions : AllBecome visible.focused (c₁.pushFocus (found.map .one)) es n es₁)
    (upper : c₁.context.nextVariable ≤ n)
    (quiet : a₁.hasUpdates = false ∧ ∀ e ∈ es₁, e.hasUpdates = false) :
    Becomes visible c (filter a es type location) n (filterOf a₁ es₁ location) := by
  refine ⟨⟨.filter input.placed conditions.placed fun _ => quiet, fun env recorded fits => ?_, .inl rfl⟩, ?_⟩
  · obtain ⟨_, base, predicates⟩ := fits
    have serves := input.serves env recorded base
    have focused : ∀ item, (env.focusOn item).Recorded visible.focused (c₁.pushFocus (found.map .one)) :=
      fun item => (recorded.later compilable.stage later).focused found item
    have each : ∀ s, a₁.outcomes .free env s [] → ∀ item ∈ s.items, ∀ e ∈ es, e.Fits (env.focusOn item) :=
      fun s given item member => fitsAll_iff.1 (predicates s (serves.within s [] given) item member)
    refine ⟨fits_filterOf serves.fits fun s given item member =>
      conditions.fits (focused item) (each s given item member), ?_⟩
    rintro s updates ⟨b, items, given, passed, same, none⟩
    refine ⟨b, items, serves.within b [] given, ?_, ?_, none⟩
    · exact passes_of_substitutes conditions.each (fun item _ => focused item) (each b given) passed
    · rwa [isEmpty_eq_of_length conditions.each.length_eq]
  · exact input.binders.append conditions.binders compilable.distinct.nodup compilable.used later.next upper

/-! ## Bindings -/

/-- What a variable is bound to may differ from what is recorded of it in the way to add it up. -/
theorem exists_recorded (entry : ScopeEntry) {s : Sequence} (recorded : env.Recorded visible c)
    (stage : Stage visible c) (hidden : ¬visible (.variable entry.var.id))
    (typed : ∀ type, entry.sequenceType = some type → type.occurrence.allows s.items.length = true)
    (valued : ∀ v, entry.value = some v → e.literal? = some v) (given : e.outcomes .free env s []) :
    ∃ s₀, e.outcomes .free env s₀ [] ∧
      (env.set entry.var.id s₀).Recorded (visible.add entry.var.id) (c.enter entry) ∧
      (env.set entry.var.id s₀).Carries (visible.add entry.var.id) id (env.set entry.var.id s) := by
  cases e with
  -- A literal is recorded as the sequence of its value, the way to add it up included.
  | literal v =>
      obtain ⟨⟨items, compact⟩, _⟩ := given
      refine ⟨v.sequence, outcomes_literal v, recorded.enter stage hidden (fun type found => ?_) fun w found => ?_,
        fun _ => ⟨rfl, id⟩, fun _ => rfl, fun other _ => ?_⟩
      · rw [show v.sequence.items = s.items from items.symm]
        exact typed type found
      · cases valued w found
        rfl
      · by_cases same : other = entry.var.id
        · subst same
          rw [Env.set_same, id, Env.set_same]
          exact ⟨items, compact⟩
        · rw [id, Env.set_other _ _ same, Env.set_other _ _ same]
          exact ⟨rfl, id⟩
  | _ =>
      refine ⟨s, given, recorded.enter stage hidden typed fun w found => ?_, Env.carries_self _ _⟩
      cases valued w found

theorem binding_fresh {id low mid high : Nat} {before after : List Nat} {own ids : List Nat}
    (nodup : (own ++ id :: ids).Nodup) (used : ∀ other ∈ own ++ id :: ids, other < low)
    (first : Fresh own low mid before) (second : Fresh ids mid high after) (lower : low ≤ mid) (upper : mid ≤ high) :
    Fresh (own ++ id :: ids) low high (before ++ id :: after) := by
  have old : id < mid := Nat.lt_of_lt_of_le (used id (by simp)) lower
  exact first.append (second.cons (nodup.sublist (List.sublist_append_right _ _)) old) nodup used lower upper

theorem becomes_letIn {var : Variable} {known : SequenceType} {constant : Option Value}
    (compilable : (letIn var a b location).Compilable visible c) (meets : var.MeetsAny)
    (value : Becomes visible c a c₁.context.nextVariable a₁) (later : c.Later c₁)
    (valued : ∀ v, constant = some v → a₁.literal? = some v)
    (typed : ∀ n, var.Allows n → a₁.sequenceType.occurrence.allows n = true → known.occurrence.allows n = true)
    (result : Becomes (visible.add var.id) (c₁.enter ⟨var, some known, constant⟩) b n b₁)
    (upper : c₁.context.nextVariable ≤ n) (quiet : a₁.hasUpdates = false) :
    Becomes visible c (letIn var a b location) n (letIn var a₁ b₁ location) := by
  have hidden : ¬visible (.variable var.id) :=
    compilable.distinct.apart var.id (List.mem_append_right _ List.mem_cons_self)
  refine ⟨⟨.letIn meets value.placed result.placed fun _ => quiet, fun env recorded fits => ?_, .inl rfl⟩, ?_⟩
  · obtain ⟨_, bound, body⟩ := fits
    have serves := value.serves env recorded bound
    have allowed : ∀ s, a₁.outcomes .free env s [] → var.Allows s.items.length :=
      fun s given => (body s (serves.within s [] given)).1
    -- The body is compiled for what is recorded, evaluated with what is bound, and renaming nothing relates both.
    have inside : ∀ s, a₁.outcomes .free env s [] → ∃ s₀, a.outcomes .free env s₀ [] ∧
        b₁.Fits (env.set var.id s) ∧ Within .free b₁ (env.set var.id s) .free b (env.set var.id s₀) := by
      intro s given
      obtain ⟨s₀, outcome, there, carries⟩ := exists_recorded ⟨var, some known, constant⟩
        (recorded.later compilable.stage later) (compilable.stage.later later) hidden (fun type same => by
          cases same
          exact typed _ (allowed s given) (serves.fits.typed s [] given).1.occurrence) valued given
      have original := serves.within s₀ [] outcome
      have moved := result.serves _ there (body s₀ original).2
      refine ⟨s₀, original, (result.placed.renamed fun _ => rfl).fits carries moved.fits, fun t updates reached => ?_⟩
      exact moved.within t updates (result.placed.within Numbers.free.implies_self carries t updates reached)
    refine ⟨fits_letIn serves.fits fun s given => ?_, ?_⟩
    · obtain ⟨_, _, fits, _⟩ := inside s given
      exact ⟨allowed s given, fits⟩
    · rintro t updates ⟨s, given, reached⟩
      obtain ⟨s₀, original, _, within⟩ := inside s given
      exact ⟨s₀, original, within t updates reached⟩
  · exact binding_fresh compilable.distinct.nodup compilable.used value.binders result.binders later.next upper

theorem becomes_forOf {var : Variable} {known : SequenceType}
    (compilable : (forIn var a b type location).Compilable visible c) (meets : var.MeetsAny)
    (input : Becomes visible c a c₁.context.nextVariable a₁) (later : c.Later c₁)
    (one : var.Allows 1 → known.occurrence.allows 1 = true)
    (result : Becomes (visible.add var.id) (c₁.enter ⟨var, some known, none⟩) b n b₁)
    (upper : c₁.context.nextVariable ≤ n) (quiet : a₁.hasUpdates = false) :
    Becomes visible c (forIn var a b type location) n (forOf var a₁ b₁ location) := by
  have hidden : ¬visible (.variable var.id) :=
    compilable.distinct.apart var.id (List.mem_append_right _ List.mem_cons_self)
  refine ⟨⟨.forIn meets input.placed result.placed fun _ => quiet, fun env recorded fits => ?_, .inl rfl⟩, ?_⟩
  · obtain ⟨_, source, body⟩ := fits
    have serves := input.serves env recorded source
    -- One item at a time is bound, whatever comes out of the source.
    have inside : ∀ s, a₁.outcomes .free env s [] → ∀ item ∈ s.items,
        var.Allows 1 ∧ b.Serves (env.set var.id (.one item)) b₁ := by
      intro s given item member
      obtain ⟨allowed, inner⟩ := body s (serves.within s [] given) item member
      have single : ∀ type, some known = some type → type.occurrence.allows 1 = true := by
        rintro type ⟨⟩
        exact one allowed
      have there : (env.set var.id (.one item)).Recorded (visible.add var.id) (c₁.enter ⟨var, some known, none⟩) :=
        @Env.Recorded.enter _ _ _ ⟨var, some known, none⟩ (recorded.later compilable.stage later)
          (compilable.stage.later later) hidden _ single fun _ none => by cases none
      exact ⟨allowed, result.serves _ there inner⟩
    refine ⟨fits_forOf serves.fits fun s given item member => (inside s given item member).imp_right (·.fits), ?_⟩
    rintro t updates ⟨s, items, given, each, same⟩
    refine ⟨s, items, serves.within s [] given, Outcomes.forEach_mono each fun item member items updates => ?_, same⟩
    rintro ⟨u, reached, equal⟩
    exact ⟨u, (inside s given item member).2.within u updates reached, equal⟩
  · exact binding_fresh compilable.distinct.nodup compilable.used input.binders result.binders later.next upper

end Nodes

end Expr

end QueryKernel
