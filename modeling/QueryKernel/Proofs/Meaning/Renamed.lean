import Mathlib.Data.List.Forall2
import QueryKernel.Proofs.Meaning.Placed

/-!
# Renamed expressions

An expression that differs from another only in the variables that it binds has no other outcomes.  The
same holds for one expression when numbers are decided more freely, or when fewer sequences have to be
added up exactly.

The non-trivial ingredient is `Env.Carries`: a renaming relates two environments only on what is visible, so
that a binder may be renamed to anything but the names of what is visible in its body.
-/

namespace QueryKernel

/-- Whatever is decided about a number may be decided so by the other too. -/
def Numbers.Implies (numbers wider : Numbers) : Prop :=
  ∀ a position held, numbers a position held → wider a position held

theorem Numbers.implies_self (numbers : Numbers) : numbers.Implies numbers := fun _ _ _ => id

theorem Numbers.implies_free (numbers : Numbers) : numbers.Implies .free := fun _ _ _ _ => trivial

theorem MayHold.mono {numbers wider : Numbers} (implies : numbers.Implies wider) {items : List Item}
    {position : Nat} {held : Bool} (may : MayHold numbers items position held) :
    MayHold wider items position held := by
  unfold MayHold at may ⊢
  split at may
  · split at may
    · next numeric =>
        rw [if_pos numeric]
        exact implies _ _ _ may
    · next other =>
        rw [if_neg other]
        exact may
  · exact may
  · exact may

theorem Selects.mono {holds wider : Item → Nat → Bool → Prop} {items chosen : List Item}
    {position : Nat} (selects : Selects holds items position chosen)
    (implies : ∀ item ∈ items, ∀ position held, holds item position held → wider item position held) :
    Selects wider items position chosen := by
  induction items generalizing position chosen with
  | nil => exact selects
  | cons item rest rest_ih =>
      obtain ⟨held, others, first, later, same⟩ := selects
      refine ⟨held, others, implies item List.mem_cons_self position held first, ?_, same⟩
      exact rest_ih later fun other member => implies other (List.mem_cons_of_mem _ member)

theorem Passes.mono {holds wider : Item → Nat → Bool → Prop} {items chosen : List Item}
    {position : Option BinaryFloat} (given : Passes position holds items chosen)
    (implies : ∀ item ∈ items, ∀ position held, holds item position held → wider item position held) :
    Passes position wider items chosen := by
  cases position with
  | some p => exact given
  | none => exact Selects.mono given implies

theorem Outcomes.forEach_mono {outcome wider : Item → List Item → List PendingUpdate → Prop}
    {source items : List Item} {updates : List PendingUpdate}
    (each : Outcomes.forEach outcome source items updates)
    (implies : ∀ item ∈ source, ∀ items updates, outcome item items updates → wider item items updates) :
    Outcomes.forEach wider source items updates := by
  induction source generalizing items updates with
  | nil => exact each
  | cons item rest rest_ih =>
      obtain ⟨first, firstUpdates, others, otherUpdates, now, later, same, all⟩ := each
      refine ⟨first, firstUpdates, others, otherUpdates, ?_, ?_, same, all⟩
      · exact implies item List.mem_cons_self first firstUpdates now
      · exact rest_ih later fun other member => implies other (List.mem_cons_of_mem _ member)

namespace Expr

/-! ## Outcomes of several expressions -/

/-- All outcomes of an expression are outcomes of another. -/
def Within (numbers : Numbers) (e : Expr) (env : Env) (wider : Numbers) (e' : Expr) (env' : Env) : Prop :=
  ∀ s updates, e.outcomes numbers env s updates → e'.outcomes wider env' s updates

variable {numbers wider : Numbers} {es es' : List Expr} {env env' : Env}

theorem outcomesAll_within (within : List.Forall₂ (fun e e' => Within numbers e' env' wider e env) es es')
    {items : List Item} {updates : List PendingUpdate}
    (given : outcomesAll numbers es' env' items updates) : outcomesAll wider es env items updates := by
  induction within generalizing items updates with
  | nil => exact given
  | cons head _ rest_ih =>
      obtain ⟨s, firstUpdates, others, otherUpdates, first, rest, same, all⟩ := given
      exact ⟨s, firstUpdates, others, otherUpdates, head s firstUpdates first, rest_ih rest, same, all⟩

theorem outcomesEach_within
    (within : List.Forall₂ (fun e e' => Within numbers e' env' wider e env) es es')
    {given : List Sequence} (results : outcomesEach numbers es' env' given) :
    outcomesEach wider es env given := by
  induction within generalizing given with
  | nil => exact results
  | cons head _ rest_ih =>
      obtain ⟨s, others, first, rest, same⟩ := results
      exact ⟨s, others, head s [] first, rest_ih rest, same⟩

/-! ## Environments -/

end Expr

/-- A renaming of what is visible leads from one environment to the other.  The first may leave open
how to add up what the other adds up exactly. -/
structure Env.Carries (visible : Visible) (rename : Nat → Nat) (env env' : Env) : Prop where
  focus : visible .focus → env'.focus.items = env.focus.items ∧
    (env.focus.compact = true → env'.focus.compact = true)
  forest : visible .forest → env'.root = env.root
  values : ∀ id, visible (.variable id) → (env'.values (rename id)).items = (env.values id).items ∧
    ((env.values id).compact = true → (env'.values (rename id)).compact = true)

/-- The renaming with another variable in it. -/
def renameAlso (rename : Nat → Nat) (id fresh : Nat) : Nat → Nat :=
  fun other => if other = id then fresh else rename other

theorem Env.Carries.setFrom {visible : Visible} {rename : Nat → Nat} {env env' : Env}
    (carries : env.Carries visible rename env') {id fresh : Nat}
    (apart : ∀ other, visible (.variable other) → other ≠ id → rename other ≠ fresh) {v v' : Sequence}
    (given : v'.From v.items v.compact) :
    (env.set id v).Carries (visible.add id) (renameAlso rename id fresh) (env'.set fresh v') := by
  refine ⟨fun seen => carries.focus ?_, fun seen => carries.forest ?_, fun other seen => ?_⟩
  · exact seen.resolve_left nofun
  · exact seen.resolve_left nofun
  · by_cases same : other = id
    · subst same
      rw [renameAlso, if_pos rfl, Env.set_same, Env.set_same]
      exact ⟨given.items_eq, given.compact_of⟩
    · have before : visible (.variable other) :=
        seen.resolve_left fun equal => same (Reference.variable.inj equal)
      rw [renameAlso, if_neg same, Env.set_other _ _ same, Env.set_other _ _ (apart other before same)]
      exact carries.values other before

theorem Env.Carries.set {visible : Visible} {rename : Nat → Nat} {env env' : Env}
    (carries : env.Carries visible rename env') {id fresh : Nat}
    (apart : ∀ other, visible (.variable other) → other ≠ id → rename other ≠ fresh) (v : Sequence) :
    (env.set id v).Carries (visible.add id) (renameAlso rename id fresh) (env'.set fresh v) :=
  carries.setFrom apart ⟨rfl, fun compact => compact⟩

theorem Env.Carries.focusOn {visible : Visible} {rename : Nat → Nat} {env env' : Env}
    (carries : env.Carries visible rename env') (item : Item) :
    (env.focusOn item).Carries visible.focused rename (env'.focusOn item) := by
  refine ⟨fun _ => ⟨rfl, fun compact => compact⟩, fun seen => ?_, fun id seen => ?_⟩
  · exact carries.forest (seen.resolve_left nofun)
  · exact carries.values id (seen.resolve_left nofun)

namespace Expr

/-! ## Renamed expressions -/

/-- The second expression is the first with other variables bound in it. -/
inductive Renamed : Visible → (Nat → Nat) → Expr → Expr → Prop where
  | literal {visible : Visible} {rename : Nat → Nat} {v : Value} :
      Renamed visible rename (.literal v) (.literal v)
  | list {visible : Visible} {rename : Nat → Nat} {operands operands' : List Expr} {type : StaticType}
      {location : Option Location} (length : operands.length = operands'.length)
      (parts : ∀ pair ∈ operands.zip operands', Renamed visible rename pair.1 pair.2) :
      Renamed visible rename (.list operands type location) (.list operands' type location)
  | range {visible : Visible} {rename : Nat → Nat} {first last first' last' : Expr} {type : StaticType}
      {location : Option Location} (low : Renamed visible rename first first')
      (high : Renamed visible rename last last') :
      Renamed visible rename (.range first last type location) (.range first' last' type location)
  | arithmetic {visible : Visible} {rename : Nat → Nat} {op : Operator} {a b a' b' : Expr}
      {type : StaticType} {location : Option Location} (left : Renamed visible rename a a')
      (right : Renamed visible rename b b') :
      Renamed visible rename (.arithmetic op a b type location) (.arithmetic op a' b' type location)
  | comparison {visible : Visible} {rename : Nat → Nat} {op : Comparison} {a b a' b' : Expr}
      {type : StaticType} {location : Option Location} (left : Renamed visible rename a a')
      (right : Renamed visible rename b b') :
      Renamed visible rename (.comparison op a b type location) (.comparison op a' b' type location)
  | conditional {visible : Visible} {rename : Nat → Nat} {test yes no test' yes' no' : Expr}
      {type : StaticType} {location : Option Location} (condition : Renamed visible rename test test')
      (positive : Renamed visible rename yes yes') (negative : Renamed visible rename no no') :
      Renamed visible rename (.conditional test yes no type location)
        (.conditional test' yes' no' type location)
  | contextValue {visible : Visible} {rename : Nat → Nat} {type : StaticType}
      {location : Option Location} (seen : visible .focus) :
      Renamed visible rename (.contextValue type location) (.contextValue type location)
  | root {visible : Visible} {rename : Nat → Nat} {location : Option Location} (seen : visible .focus)
      (around : visible .forest) : Renamed visible rename (.root location) (.root location)
  | documents {visible : Visible} {rename : Nat → Nat} {source : DataSource}
      {location : Option Location} :
      Renamed visible rename (.documents source location) (.documents source location)
  | filter {visible : Visible} {rename : Nat → Nat} {base base' : Expr} {predicates predicates' : List Expr}
      {type : StaticType} {location : Option Location} (input : Renamed visible rename base base')
      (length : predicates.length = predicates'.length)
      (conditions : ∀ pair ∈ predicates.zip predicates', Renamed visible.focused rename pair.1 pair.2) :
      Renamed visible rename (.filter base predicates type location)
        (.filter base' predicates' type location)
  | letIn {visible : Visible} {rename : Nat → Nat} {var var' : Variable} {bound body bound' body' : Expr}
      {location : Option Location} (declared : var'.declared = var.declared)
      (apart : ∀ other, visible (.variable other) → other ≠ var.id → rename other ≠ var'.id)
      (value : Renamed visible rename bound bound')
      (result : Renamed (visible.add var.id) (renameAlso rename var.id var'.id) body body') :
      Renamed visible rename (.letIn var bound body location) (.letIn var' bound' body' location)
  | forIn {visible : Visible} {rename : Nat → Nat} {var var' : Variable}
      {source body source' body' : Expr} {type : StaticType} {location : Option Location}
      (declared : var'.declared = var.declared)
      (apart : ∀ other, visible (.variable other) → other ≠ var.id → rename other ≠ var'.id)
      (input : Renamed visible rename source source')
      (result : Renamed (visible.add var.id) (renameAlso rename var.id var'.id) body body') :
      Renamed visible rename (.forIn var source body type location)
        (.forIn var' source' body' type location)
  | varRef {visible : Visible} {rename : Nat → Nat} {var var' : Variable} {type : StaticType}
      {location : Option Location} (seen : visible (.variable var.id)) (same : var'.id = rename var.id) :
      Renamed visible rename (.varRef var type location) (.varRef var' type location)
  | call {visible : Visible} {rename : Nat → Nat} {f : BuiltIn} {arguments arguments' : List Expr}
      {type : StaticType} {location : Option Location} (length : arguments.length = arguments'.length)
      (parts : ∀ pair ∈ arguments.zip arguments', Renamed visible rename pair.1 pair.2) :
      Renamed visible rename (.call f arguments type location) (.call f arguments' type location)
  | deferred {visible : Visible} {rename : Nat → Nat} {error : Error} {type : StaticType}
      {location : Option Location} :
      Renamed visible rename (.deferred error type location) (.deferred error type location)
  | delete {visible : Visible} {rename : Nat → Nat} {target target' : Expr} {location : Option Location}
      (input : Renamed visible rename target target') :
      Renamed visible rename (.delete target location) (.delete target' location)

variable {visible : Visible} {rename : Nat → Nat} {e e' : Expr}

theorem forall₂_of_zip {A B : Type} {R : A → B → Prop} {as : List A} {bs : List B}
    (length : as.length = bs.length) (related : ∀ pair ∈ as.zip bs, R pair.1 pair.2) :
    List.Forall₂ R as bs :=
  List.forall₂_iff_zip.2 ⟨length, fun member => related _ member⟩

theorem Renamed.staticType_eq (renamed : Renamed visible rename e e') : e'.staticType = e.staticType := by
  induction renamed with
  | letIn _ _ _ _ _ result_ih => exact result_ih
  | _ => rfl

theorem Renamed.position?_eq (renamed : Renamed visible rename e e') : e'.position? = e.position? := by
  cases renamed <;> rfl

theorem isEmpty_eq_of_length {A B : Type} {as : List A} {bs : List B} (length : as.length = bs.length) :
    as.isEmpty = bs.isEmpty := by
  cases as <;> cases bs <;> simp_all

theorem passes_within {wider numbers : Numbers} {env env' : Env} {source : List Item}
    (within : List.Forall₂ (fun e e' : Expr => e'.position? = e.position? ∧ ∀ item ∈ source,
      Within numbers e' (env'.focusOn item) wider e (env.focusOn item)) es es')
    (implies : numbers.Implies wider) {items chosen : List Item} (subset : items ⊆ source)
    (passed : passes numbers es' env' items chosen) : passes wider es env items chosen := by
  induction within generalizing items with
  | nil => exact passed
  | cons head _ rest_ih =>
      obtain ⟨same, head⟩ := head
      obtain ⟨passing, now, later⟩ := passed
      rw [same] at now
      refine ⟨passing, now.mono fun item member position held => ?_, ?_⟩
      · rintro ⟨s, given, may⟩
        exact ⟨s, head item (subset member) s [] given, may.mono implies⟩
      · exact rest_ih (fun item member => subset (now.sublist.subset member)) later

theorem Renamed.within (renamed : Renamed visible rename e e') {numbers wider : Numbers}
    (implies : numbers.Implies wider) {env env' : Env} (carries : env.Carries visible rename env') :
    Within numbers e' env' wider e env := by
  induction renamed generalizing env env' with
  | literal => exact fun s updates given => given
  | list length _ parts_ih =>
      rintro s updates ⟨items, given, same⟩
      refine ⟨items, outcomesAll_within (forall₂_of_zip length fun pair member => ?_) given, same⟩
      exact parts_ih pair member carries
  | range _ _ low_ih high_ih =>
      rintro s updates ⟨a, b, first, last, same⟩
      exact ⟨a, b, low_ih carries a [] first, high_ih carries b [] last, same⟩
  | arithmetic _ _ left_ih right_ih =>
      rintro s updates ⟨x, y, first, second, same⟩
      exact ⟨x, y, left_ih carries x [] first, right_ih carries y [] second, same⟩
  | comparison _ _ left_ih right_ih =>
      rintro s updates ⟨x, y, first, second, same⟩
      exact ⟨x, y, left_ih carries x [] first, right_ih carries y [] second, same⟩
  | conditional _ _ _ condition_ih positive_ih negative_ih =>
      rintro s updates ⟨t, tested, ⟨holds, given⟩ | ⟨fails, given⟩⟩
      · exact ⟨t, condition_ih carries t [] tested, .inl ⟨holds, positive_ih carries s updates given⟩⟩
      · exact ⟨t, condition_ih carries t [] tested, .inr ⟨fails, negative_ih carries s updates given⟩⟩
  | contextValue seen =>
      rintro s updates ⟨given, none⟩
      obtain ⟨same, compact⟩ := carries.focus seen
      rw [same] at given
      exact ⟨given.weaken compact, none⟩
  | root seen around =>
      rintro s updates ⟨given, none⟩
      rw [carries.forest around, (carries.focus seen).1] at given
      exact ⟨given, none⟩
  | documents => exact fun s updates given => given
  | filter _ length conditions input_ih conditions_ih =>
      rintro s updates ⟨b, items, input, passed, same, none⟩
      -- A predicate is asked item by item, each time with that item in focus in both environments.
      have inside : List.Forall₂ (fun e e' : Expr => e'.position? = e.position? ∧ ∀ item ∈ b.items,
          Within numbers e' (env'.focusOn item) wider e (env.focusOn item)) _ _ :=
        forall₂_of_zip length fun pair member => ⟨(conditions pair member).position?_eq,
          fun item _ => conditions_ih pair member (carries.focusOn item)⟩
      rw [← isEmpty_eq_of_length length] at same
      exact ⟨b, items, input_ih carries b [] input,
        passes_within inside implies (List.Subset.refl _) passed, same, none⟩
  | letIn _ apart _ _ value_ih result_ih =>
      rintro s updates ⟨v, bound, given⟩
      exact ⟨v, value_ih carries v [] bound, result_ih (carries.set apart v) s updates given⟩
  | forIn _ apart _ _ input_ih result_ih =>
      rintro s updates ⟨v, items, source, each, same⟩
      refine ⟨v, items, input_ih carries v [] source, Outcomes.forEach_mono each ?_, same⟩
      rintro item _ items updates ⟨s, given, all⟩
      exact ⟨s, result_ih (carries.set apart _) s updates given, all⟩
  | varRef seen same =>
      rintro s updates ⟨given, none⟩
      obtain ⟨items, compact⟩ := carries.values _ seen
      rw [same, items] at given
      exact ⟨given.weaken compact, none⟩
  | call length _ parts_ih =>
      rintro s updates ⟨given, results, same⟩
      refine ⟨given, outcomesEach_within (forall₂_of_zip length fun pair member => ?_) results, same⟩
      exact parts_ih pair member carries
  | deferred => exact fun s updates given => given
  | delete _ input_ih =>
      rintro s updates ⟨t, given, same⟩
      exact ⟨t, input_ih carries t [] given, same⟩

/-! ## One expression in two environments -/

theorem Placed.renamed {compiled : Bool} (placed : e.Placed compiled visible) (same : ∀ id, rename id = id) :
    Renamed visible rename e e := by
  have each : ∀ {es : List Expr} {visible : Visible} {rename : Nat → Nat},
      (∀ e ∈ es, Renamed visible rename e e) → ∀ pair ∈ es.zip es, Renamed visible rename pair.1 pair.2 := by
    rintro es visible rename renamed ⟨e, e'⟩ member
    exact (List.forall₂_iff_zip.1 (List.forall₂_same.2 renamed)).2 member
  -- A binder that keeps its name does not change what other names mean.
  have also : ∀ {rename : Nat → Nat} (id : Nat), (∀ id, rename id = id) →
      ∀ other, renameAlso rename id id other = other := by
    intro rename id same other
    unfold renameAlso
    split
    · next equal => exact equal.symm
    · exact same other
  induction placed generalizing rename with
  | literal => exact .literal
  | list _ parts_ih => exact .list rfl (each fun e member => parts_ih e member same)
  | range _ _ _ low_ih high_ih => exact .range (low_ih same) (high_ih same)
  | arithmetic _ _ _ left_ih right_ih => exact .arithmetic (left_ih same) (right_ih same)
  | comparison _ _ _ left_ih right_ih => exact .comparison (left_ih same) (right_ih same)
  | conditional _ _ _ _ condition_ih positive_ih negative_ih =>
      exact .conditional (condition_ih same) (positive_ih same) (negative_ih same)
  | contextValue seen => exact .contextValue seen
  | root seen around => exact .root seen around
  | documents => exact .documents
  | filter _ _ _ input_ih conditions_ih =>
      exact .filter (input_ih same) rfl (each fun e member => conditions_ih e member same)
  | letIn _ _ _ _ value_ih result_ih =>
      refine .letIn rfl (fun other _ different => ?_) (value_ih same) (result_ih (also _ same))
      rwa [same other]
  | forIn _ _ _ _ input_ih result_ih =>
      refine .forIn rfl (fun other _ different => ?_) (input_ih same) (result_ih (also _ same))
      rwa [same other]
  | varRef seen => exact .varRef seen (same _).symm
  | call _ _ _ _ parts_ih => exact .call rfl (each fun e member => parts_ih e member same)
  | deferred => exact .deferred
  | delete _ _ input_ih => exact .delete (input_ih same)

/-- Numbers decided more freely and sequences added up more freely leave all outcomes possible. -/
theorem Placed.within {compiled : Bool} (placed : e.Placed compiled visible) {numbers wider : Numbers}
    (implies : numbers.Implies wider) {env env' : Env} (carries : env.Carries visible id env') :
    Within numbers e env' wider e env :=
  (placed.renamed fun _ => rfl).within implies carries

end Expr

theorem Env.carries_self (env : Env) (visible : Visible) : env.Carries visible id env :=
  ⟨fun _ => ⟨rfl, id⟩, fun _ => rfl, fun _ _ => ⟨rfl, id⟩⟩

end QueryKernel
