import QueryKernel.Proofs.Compile.Tidy
import QueryKernel.Proofs.Eval.Built
import QueryKernel.Proofs.Expr.Empty

/-!
# Types of nothing are right

In which trees a node of a type that allows the empty sequence only really gives nothing, and why the
updating ones among them give nothing either.

That a variable is empty is known inside of its binding only.  A binding whose variable is bound again inside of it
would not keep it empty, so that no variable may be bound where it is bound already; elsewhere it may be.
-/

namespace QueryKernel

/-- The variables that are bound around an expression, and those of them that are known to be empty. -/
structure Surroundings where
  bound : Nat → Prop
  empty : Nat → Prop
  within : ∀ id, empty id → bound id

namespace Surroundings

variable {K K' : Surroundings} {id : Nat} {nothing nothing' : Prop}

/-- Inside of the binding of a variable, which is empty under some condition. -/
def add (K : Surroundings) (id : Nat) (nothing : Prop) : Surroundings where
  bound other := other = id ∨ K.bound other
  empty other := (other = id ∧ nothing) ∨ K.empty other
  within := by
    rintro other (⟨rfl, _⟩ | known)
    · exact .inl rfl
    · exact .inr (K.within other known)

/-- More variables are known to be empty, and no others are bound. -/
structure Knows (K K' : Surroundings) : Prop where
  empty : ∀ id, K.empty id → K'.empty id
  bound : ∀ id, K'.bound id → K.bound id

theorem knows_refl (K : Surroundings) : K.Knows K := ⟨fun _ => id, fun _ => id⟩

theorem Knows.add (knows : K.Knows K') (implies : nothing → nothing') :
    (K.add id nothing).Knows (K'.add id nothing') :=
  ⟨fun other => Or.imp (And.imp_right implies) (knows.empty other), fun other => Or.imp_right (knows.bound other)⟩

theorem add_false (K : Surroundings) (id : Nat) : (K.add id False).empty = K.empty := by
  funext other
  simp [add]

/-- What is known to be empty is known of the variables that replace it, and no variable around the copy is among
those that are made by copying. -/
structure Carried (K K' : Surroundings) (s : Copying) : Prop where
  old : ∀ id, K'.bound id → id < s.nextVariable
  empty : ∀ var : Variable, K.empty var.id → K'.empty (s.renames.apply var).id

/-- A variable that is not bound yet is replaced as well, and what is known of the two may be added. -/
theorem Carried.enter {s : Copying} (carried : K.Carried K' s) {var : Variable} (new : ¬K.bound var.id)
    (implies : nothing → nothing') :
    (K.add var.id nothing).Carried (K'.add (s.replace var).1.id nothing') (s.replace var).2 := by
  refine ⟨?_, fun other known => ?_⟩
  · rintro id (rfl | inside)
    · exact Nat.lt_succ_self _
    · exact Nat.lt_succ_of_lt (carried.old id inside)
  · rw [Copying.replace, Expr.apply_set]
    rcases known with ⟨same, given⟩ | known
    · rw [if_pos same]
      exact .inl ⟨rfl, implies given⟩
    · have different : other.id ≠ var.id := fun same => new (same ▸ K.within _ known)
      rw [if_neg different]
      exact .inr (carried.empty other known)

end Surroundings

namespace Expr

/-- Trees without results: they give nothing, or fail.  Some variables are known to be empty. -/
inductive Null : (Nat → Prop) → Expr → Prop where
  | literal {empty : Nat → Prop} : Null empty (literal .empty)
  | list {empty : Nat → Prop} {operands : List Expr} {type : StaticType} {location : Option Location}
      (parts : ∀ e ∈ operands, Null empty e) : Null empty (list operands type location)
  | conditional {empty : Nat → Prop} {test yes no : Expr} {type : StaticType} {location : Option Location}
      (positive : Null empty yes) (negative : Null empty no) : Null empty (conditional test yes no type location)
  | filter {empty : Nat → Prop} {base : Expr} {predicates : List Expr} {type : StaticType}
      {location : Option Location} (input : Null empty base) : Null empty (filter base predicates type location)
  | letIn {empty : Nat → Prop} {var : Variable} {bound body : Expr} {location : Option Location}
      (result : Null empty body) : Null empty (letIn var bound body location)
  | letEmpty {empty : Nat → Prop} {var : Variable} {bound body : Expr} {location : Option Location}
      (value : Null empty bound) (result : Null (fun id => id = var.id ∨ empty id) body) :
      Null empty (letIn var bound body location)
  | forSource {empty : Nat → Prop} {var : Variable} {source body : Expr} {type : StaticType}
      {location : Option Location} (input : Null empty source) : Null empty (forIn var source body type location)
  | forBody {empty : Nat → Prop} {var : Variable} {source body : Expr} {type : StaticType}
      {location : Option Location} (result : Null empty body) : Null empty (forIn var source body type location)
  | varRef {empty : Nat → Prop} {var : Variable} {type : StaticType} {location : Option Location}
      (known : empty var.id) : Null empty (varRef var type location)
  | call {empty : Nat → Prop} {f : BuiltIn} {argument : Expr} {others : List Expr} {type : StaticType}
      {location : Option Location} (selects : f = .head ∨ f = .reverse ∨ f = .sortWith)
      (input : Null empty argument) : Null empty (call f (argument :: others) type location)
  | error {empty : Nat → Prop} {arguments : List Expr} {type : StaticType} {location : Option Location} :
      Null empty (call .error arguments type location)
  | deferred {empty : Nat → Prop} {error : Error} {type : StaticType} {location : Option Location} :
      Null empty (deferred error type location)
  | delete {empty : Nat → Prop} {target : Expr} {location : Option Location} : Null empty (delete target location)

/-- Trees in which a node gives nothing if its type says so, no variable has a declared type, and none is bound
inside of its own binding. -/
inductive Justified : Surroundings → Expr → Prop where
  | node {K : Surroundings} {e : Expr} (unbound : e.binder? = none) (nil : e.staticType.IsNil → e.Null K.empty)
      (parts : ∀ s ∈ e.parts, Justified K s) : Justified K e
  | letIn {K : Surroundings} {var : Variable} {bound body : Expr} {location : Option Location}
      (undeclared : var.declared = none) (new : ¬K.bound var.id) (value : Justified K bound)
      (result : Justified (K.add var.id (bound.Null K.empty)) body) : Justified K (letIn var bound body location)
  | forIn {K : Surroundings} {var : Variable} {source body : Expr} {type : StaticType} {location : Option Location}
      (nil : type.IsNil → (forIn var source body type location).Null K.empty) (undeclared : var.declared = none)
      (new : ¬K.bound var.id) (input : Justified K source) (result : Justified (K.add var.id False) body) :
      Justified K (forIn var source body type location)

variable {empty empty' : Nat → Prop} {K K' : Surroundings} {e e' : Expr}

/-! ## Trees without results -/

theorem Null.mono (null : e.Null empty) (more : ∀ id, empty id → empty' id) : e.Null empty' := by
  induction null generalizing empty' with
  | literal => exact .literal
  | list _ parts_ih => exact .list fun s member => parts_ih s member more
  | conditional _ _ positive_ih negative_ih => exact .conditional (positive_ih more) (negative_ih more)
  | filter _ input_ih => exact .filter (input_ih more)
  | letIn _ result_ih => exact .letIn (result_ih more)
  | letEmpty _ _ value_ih result_ih =>
      exact .letEmpty (value_ih more) (result_ih fun id => Or.imp_right (more id))
  | forSource _ input_ih => exact .forSource (input_ih more)
  | forBody _ result_ih => exact .forBody (result_ih more)
  | varRef known => exact .varRef (more _ known)
  | call selects _ input_ih => exact .call selects (input_ih more)
  | error => exact .error
  | deferred => exact .deferred
  | delete => exact .delete

section Bindings

variable {var : Variable} {bound body : Expr} {type : StaticType} {location : Option Location}

/-- A binding gives nothing if its body does, which may depend on whether the variable is empty. -/
theorem null_let : (letIn var bound body location).Null empty ↔
    body.Null fun id => (id = var.id ∧ bound.Null empty) ∨ empty id := by
  constructor
  · intro null
    cases null with
    | letIn result => exact result.mono fun _ => .inr
    | letEmpty value result => exact result.mono fun _ => Or.imp_left fun same => ⟨same, value⟩
  · intro null
    by_cases value : bound.Null empty
    · exact .letEmpty value (null.mono fun _ => Or.imp_left And.left)
    · exact .letIn (null.mono fun _ known => known.resolve_left fun given => value given.2)

theorem null_for : (forIn var bound body type location).Null empty ↔ bound.Null empty ∨ body.Null empty := by
  constructor
  · intro null
    cases null with
    | forSource input => exact .inl input
    | forBody result => exact .inr result
  · exact Or.rec .forSource .forBody

end Bindings

/-- A call gives nothing if it selects items from nothing or always fails. -/
theorem null_call {f : BuiltIn} {arguments : List Expr} {type : StaticType} {location : Option Location}
    (null : (call f arguments type location).Null empty) : f ∈ [BuiltIn.head, .reverse, .sortWith, .error] := by
  cases null with
  | call selects => rcases selects with rfl | rfl | rfl <;> decide
  | error => decide

theorem null_narrow (null : e.Null empty) (known : SequenceType) : (e.narrow known).Null empty := by
  cases null with
  | literal => exact .literal
  | list parts => simp only [narrow]; split <;> exact .list parts
  | conditional positive negative => simp only [narrow]; split <;> exact .conditional positive negative
  | filter input => simp only [narrow]; split <;> exact .filter input
  | letIn result => simp only [narrow]; split <;> exact .letIn result
  | letEmpty value result => simp only [narrow]; split <;> exact .letEmpty value result
  | forSource input => simp only [narrow]; split <;> exact .forSource input
  | forBody result => simp only [narrow]; split <;> exact .forBody result
  | varRef known => simp only [narrow]; split <;> exact .varRef known
  | call selects input => simp only [narrow]; split <;> exact .call selects input
  | error => simp only [narrow]; split <;> exact .error
  | deferred => simp only [narrow]; split <;> exact .deferred
  | delete => simp only [narrow]; split <;> exact .delete

/-! ## Types of nothing -/

theorem Justified.nil (justified : e.Justified K) (nil : e.staticType.IsNil) : e.Null K.empty := by
  induction justified with
  | node _ none _ => exact none nil
  | letIn _ _ _ _ _ result_ih => exact null_let.2 (result_ih nil)
  | forIn none _ _ _ _ _ _ => exact none nil

theorem Justified.part (justified : e.Justified K) (unbound : e.binder? = none) {s : Expr} (member : s ∈ e.parts) :
    s.Justified K := by
  cases justified with
  | node _ _ parts => exact parts s member
  | letIn | forIn => cases unbound

theorem Justified.mono (justified : e.Justified K) (knows : K.Knows K') : e.Justified K' := by
  induction justified generalizing K' with
  | node unbound none _ parts_ih =>
      exact .node unbound (fun nil => (none nil).mono knows.empty) fun s member => parts_ih s member knows
  | letIn undeclared new _ _ value_ih result_ih =>
      exact .letIn undeclared (fun inside => new (knows.bound _ inside)) (value_ih knows)
        (result_ih (knows.add fun null => null.mono knows.empty))
  | forIn none undeclared new _ _ input_ih result_ih =>
      exact .forIn (fun nil => (none nil).mono knows.empty) undeclared (fun inside => new (knows.bound _ inside))
        (input_ih knows) (result_ih (knows.add id))

/-- What surrounds a tree is not bound in it. -/
theorem Justified.not_bound (justified : e.Justified K) : ∀ id ∈ e.binders, ¬K.bound id := by
  induction justified with
  | node unbound _ _ parts_ih =>
      intro id member
      rw [binders_of_parts unbound] at member
      obtain ⟨s, part, inside⟩ := mem_bindersAll.1 member
      exact parts_ih s part id inside
  | letIn _ new _ _ value_ih result_ih | forIn _ _ new _ _ value_ih result_ih =>
      refine List.forall_mem_append.2 ⟨value_ih, List.forall_mem_cons.2 ⟨new, fun id member => ?_⟩⟩
      exact fun inside => result_ih id member (.inr inside)

theorem Justified.narrow (justified : e.Justified K) {known : SequenceType}
    (nothing : known.occurrence = .zero → e.Null K.empty) : (e.narrow known).Justified K := by
  have nil : (e.narrow known).staticType.IsNil → (e.narrow known).Null K.empty :=
    fun nil => null_narrow ((isNil_narrow nil).elim justified.nil nothing) known
  cases justified with
  | node unbound none parts =>
      refine .node ((binder?_narrow e known).trans unbound) nil ?_
      rwa [parts_narrow]
  | letIn undeclared new value result =>
      simp only [Expr.narrow]
      split <;> exact .letIn undeclared new value result
  | forIn none undeclared new input result =>
      revert nil
      simp only [Expr.narrow]
      split <;> exact fun nil => .forIn nil undeclared new input result

/-! ## Copies -/

theorem copy_parts (unbound : e.binder? = none) (s : Copying) : (e.copy s).1.parts = (copyAll e.parts s).1 := by
  cases e with
  | letIn | forIn => cases unbound
  | _ => rfl

theorem copy_unbound (unbound : e.binder? = none) (s : Copying) : (e.copy s).1.binder? = none := by
  cases e with
  | letIn | forIn => cases unbound
  | _ => rfl

/-- A copy in other surroundings. -/
structure CopyJustified (K K' : Surroundings) (e e' : Expr) : Prop where
  justified : e'.Justified K'
  null : e.Null K.empty → e'.Null K'.empty

variable {s : Copying}

/-- Copying something does not replace what surrounds it. -/
theorem carried_after (carried : K.Carried K' s) (justified : e.Justified K) :
    K.Carried K' (e.copy s).2 := by
  refine ⟨fun id inside => ?_, fun var known => ?_⟩
  · rw [(copy_binders e s).2]
    exact Nat.lt_add_right _ (carried.old id inside)
  · rw [copy_apply e s fun mine => justified.not_bound _ mine (K.within _ known)]
    exact carried.empty var known

theorem copyAll_justified {es : List Expr} (justified : ∀ e ∈ es, e.Justified K)
    (each : ∀ e ∈ es, ∀ {s}, K.Carried K' s → CopyJustified K K' e (e.copy s).1) (carried : K.Carried K' s) :
    ∀ pair ∈ es.zip (copyAll es s).1, CopyJustified K K' pair.1 pair.2 := by
  induction es generalizing s with
  | nil => exact fun _ member => by cases member
  | cons e rest rest_ih =>
      refine List.forall_mem_cons.2 ⟨each e List.mem_cons_self carried, ?_⟩
      exact rest_ih (fun s member => justified s (List.mem_cons_of_mem _ member))
        (fun s member => each s (List.mem_cons_of_mem _ member))
        (carried_after carried (justified e List.mem_cons_self))

/-- A copy of a node gives nothing because of the copies of its parts. -/
theorem copy_null (unbound : e.binder? = none) (carried : K.Carried K' s) (null : e.Null K.empty)
    (parts : ∀ pair ∈ e.parts.zip (copyAll e.parts s).1, CopyJustified K K' pair.1 pair.2) :
    (e.copy s).1.Null K'.empty := by
  cases null with
  | literal => exact .literal
  | list nulls =>
      refine .list fun s' member => ?_
      obtain ⟨s, original, paired⟩ := mem_zip_of_mem_right (copyAll_length _ _) member
      exact (parts _ paired).null (nulls s original)
  | @conditional _ test yes no _ _ positive negative =>
      exact .conditional ((parts (yes, _) (List.mem_cons_of_mem _ List.mem_cons_self)).null positive)
        ((parts (no, _) (List.mem_cons_of_mem _ (List.mem_cons_of_mem _ List.mem_cons_self))).null negative)
  | @filter _ base _ _ _ input => exact .filter ((parts (base, _) List.mem_cons_self).null input)
  | letIn | letEmpty | forSource | forBody => cases unbound
  | varRef known => exact .varRef (carried.empty _ known)
  | @call _ f argument _ _ _ selects input => exact .call selects ((parts (argument, _) List.mem_cons_self).null input)
  | error => exact .error
  | deferred => exact .deferred
  | delete => exact .delete

/-- A copy is justified where the same is known of the variables in the places of those around the original. -/
theorem copy_justified (justified : e.Justified K) (carried : K.Carried K' s) :
    CopyJustified K K' e (e.copy s).1 := by
  induction justified generalizing s K' with
  | @node K e unbound none parts parts_ih =>
      have copies := copyAll_justified parts (fun e member _ => parts_ih e member) carried
      have null := fun given => copy_null unbound carried given copies
      refine ⟨.node (copy_unbound unbound s) (fun nil => null (none (copy_staticType e s ▸ nil))) ?_, null⟩
      rw [copy_parts unbound]
      intro s' member
      obtain ⟨s, _, paired⟩ := mem_zip_of_mem_right (copyAll_length _ _) member
      exact (copies _ paired).justified
  | @letIn K var bound body location undeclared new value result value_ih result_ih =>
      have first := value_ih carried
      have later := carried_after carried value
      have second := result_ih (later.enter new first.null)
      exact ⟨.letIn undeclared (fun inside => Nat.lt_irrefl _ (later.old _ inside)) first.justified second.justified,
        fun null => null_let.2 (second.null (null_let.1 null))⟩
  | @forIn K var source body type location none undeclared new input result input_ih result_ih =>
      have first := input_ih carried
      have later := carried_after carried input
      have second := result_ih (later.enter new (id : False → False))
      have null : (forIn var source body type location).Null K.empty →
          ((forIn var source body type location).copy s).1.Null K'.empty := by
        intro given
        refine null_for.2 ((null_for.1 given).imp first.null fun null => ?_)
        have copied := second.null (by rwa [K.add_false])
        rwa [K'.add_false] at copied
      exact ⟨.forIn (fun nil => null (none nil)) undeclared (fun inside => Nat.lt_irrefl _ (later.old _ inside))
        first.justified second.justified, null⟩

/-! ## Nodes with the types that follow from their parts -/

theorem list_justified {operands : List Expr} {location : Option Location}
    (parts : ∀ e ∈ operands, e.Justified K) : (listOf operands location).Justified K :=
  .node rfl (fun nil => .list fun e member => (parts e member).nil (isNil_concatType nil e member)) parts

theorem conditional_justified {test yes no : Expr} {location : Option Location} (condition : test.Justified K)
    (positive : yes.Justified K) (negative : no.Justified K) : (conditionalOf test yes no location).Justified K := by
  refine .node rfl (fun nil => ?_) (List.forall_mem_cons.2 ⟨condition, forall_pair positive negative⟩)
  obtain ⟨left, right⟩ := isNil_branchType nil
  exact .conditional (positive.nil left) (negative.nil right)

theorem filter_justified {base : Expr} {predicates : List Expr} {location : Option Location}
    (input : base.Justified K) (conditions : ∀ e ∈ predicates, e.Justified K) :
    (filterOf base predicates location).Justified K :=
  .node rfl (fun nil => .filter (input.nil (isNil_filterType nil))) (List.forall_mem_cons.2 ⟨input, conditions⟩)

theorem arithmetic_justified {op : Operator} {a b : Expr} {location : Option Location} (left : a.Justified K)
    (right : b.Justified K) : (arithmeticOf op a b location).Justified K :=
  .node rfl (fun nil => (arithmeticType_not_nil nil).elim) (forall_pair left right)

theorem comparison_justified {op : Comparison} {a b : Expr} {location : Option Location} (left : a.Justified K)
    (right : b.Justified K) : (comparisonOf op a b location).Justified K :=
  .node rfl (fun nil => (comparisonType_not_nil nil).elim) (forall_pair left right)

theorem for_justified {var : Variable} {source body : Expr} {location : Option Location}
    (undeclared : var.declared = none) (new : ¬K.bound var.id) (input : source.Justified K)
    (result : body.Justified (K.add var.id False)) : (forOf var source body location).Justified K := by
  refine .forIn (fun nil => null_for.2 ((isNil_loopType nil).imp input.nil fun none => ?_)) undeclared new input result
  have null := result.nil none
  rwa [K.add_false] at null

theorem call_justified {f : BuiltIn} {arguments : List Expr} {location : Option Location}
    (parts : ∀ e ∈ arguments, e.Justified K) : (call f arguments (f.resultType arguments) location).Justified K := by
  refine .node rfl (fun nil => ?_) parts
  obtain ⟨selects, argument, others, rfl, none⟩ := isNil_resultType nil
  exact .call selects ((parts argument List.mem_cons_self).nil none)

/-- A node of a type that allows items. -/
theorem justified_of_type {type : SequenceType} (typed : e.staticType = .ofSequenceType type)
    (some : type.occurrence ≠ .zero) (unbound : e.binder? = none) (parts : ∀ s ∈ e.parts, s.Justified K) :
    e.Justified K := by
  refine .node unbound (fun nil => ?_) parts
  rw [typed] at nil
  exact absurd (StaticType.isNil_ofSequenceType.1 nil) some

/-- A node without operands. -/
theorem leaf_justified (leaf : e.parts = []) (nil : e.staticType.IsNil → e.Null K.empty) : e.Justified K := by
  refine .node (binder?_of_leaf leaf) nil fun s member => ?_
  rw [leaf] at member
  cases member

theorem literal_justified {v : Value} (exact : v.size = 0 → v = .empty) : (literal v).Justified K := by
  refine leaf_justified rfl fun nil => ?_
  rw [exact (StaticType.isNil_sized.1 nil)]
  exact .literal

/-! ## Trees that are built -/

end Expr

/-- The variables that are declared to be empty. -/
def Declarations.Empty (declared : Declarations) (id : Nat) : Prop :=
  ∃ type, declared id = some type ∧ type.occurrence = .zero

namespace Expr

variable {declared : Declarations} {good : Item → Prop} {K : Surroundings} {e : Expr}

/-- The variables of an expression are distinct, have no declared type, and are not bound around it. -/
structure New (declared : Declarations) (K : Surroundings) (e : Expr) : Prop where
  distinct : e.binders.Nodup
  undeclared : ∀ id ∈ e.binders, declared id = none
  unbound : ∀ id ∈ e.binders, ¬K.bound id

theorem New.part (new : e.New declared K) {s : Expr} (member : s ∈ e.parts) : s.New declared K :=
  ⟨new.distinct.sublist (binders_part member), fun id mine => new.undeclared id ((binders_part member).subset mine),
    fun id mine => new.unbound id ((binders_part member).subset mine)⟩

/-- The variables of a body are new inside of the binding, too. -/
theorem New.body (new : e.New declared K) {var : Variable} {bound body : Expr} (binds : e.binder? = some var)
    (parts : e.parts = [bound, body]) (nothing : Prop) : body.New declared (K.add var.id nothing) := by
  have binders : e.binders = bound.binders ++ var.id :: body.binders := by
    cases e with
    | letIn | forIn => cases binds; cases parts; rfl
    | _ => cases binds
  have inside := new.part (s := body) (by simp [parts])
  refine ⟨inside.distinct, inside.undeclared, fun id mine => ?_⟩
  have distinct := new.distinct
  rw [binders] at distinct
  rintro (rfl | outside)
  · exact (List.nodup_cons.1 (List.nodup_append.1 distinct).2.1).1 mine
  · exact inside.unbound id mine outside

/-- In a tree that is built, a type of nothing comes from literals, errors, updates and variables that
are declared to be empty. -/
theorem built_justified (built : e.Built declared good) (new : e.New declared K)
    (known : ∀ id, declared.Empty id → K.empty id) : e.Justified K := by
  induction built generalizing K with
  | literal value => exact literal_justified value.1.shaped.empty_of_size
  | contextValue => exact justified_of_type rfl (by decide) rfl fun _ member => by cases member
  | root => exact justified_of_type rfl (by decide) rfl fun _ member => by cases member
  | documents => exact justified_of_type rfl (by decide) rfl fun _ member => by cases member
  | deferred => exact leaf_justified rfl fun _ => .deferred
  | @varRef var location agrees =>
      refine leaf_justified rfl fun nil => .varRef ?_
      have zero := StaticType.isNil_ofSequenceType.1 nil
      unfold Variable.Agrees at agrees
      cases some : declared var.id with
      | none =>
          rw [agrees, some] at zero
          cases zero
      | some type =>
          rw [agrees, some] at zero
          exact known _ ⟨type, some, zero⟩
  | list _ parts_ih => exact list_justified fun s member => parts_ih s member (new.part member) known
  | call _ _ parts_ih => exact call_justified fun s member => parts_ih s member (new.part member) known
  | range _ _ low_ih high_ih =>
      exact justified_of_type rfl (by decide) rfl (forall_pair (low_ih (new.part List.mem_cons_self) known)
        (high_ih (new.part (List.mem_cons_of_mem _ List.mem_cons_self)) known))
  | arithmetic _ _ left_ih right_ih =>
      exact arithmetic_justified (left_ih (new.part List.mem_cons_self) known)
        (right_ih (new.part (List.mem_cons_of_mem _ List.mem_cons_self)) known)
  | comparison _ _ left_ih right_ih =>
      exact comparison_justified (left_ih (new.part List.mem_cons_self) known)
        (right_ih (new.part (List.mem_cons_of_mem _ List.mem_cons_self)) known)
  | conditional _ _ _ condition_ih positive_ih negative_ih =>
      exact conditional_justified (condition_ih (new.part List.mem_cons_self) known)
        (positive_ih (new.part (List.mem_cons_of_mem _ List.mem_cons_self)) known)
        (negative_ih (new.part (List.mem_cons_of_mem _ (List.mem_cons_of_mem _ List.mem_cons_self))) known)
  | filter _ _ input_ih conditions_ih =>
      exact filter_justified (input_ih (new.part List.mem_cons_self) known)
        fun s member => conditions_ih s member (new.part (List.mem_cons_of_mem _ member)) known
  | @letIn var bound body location agrees _ _ value_ih result_ih =>
      have mine : var.id ∈ (letIn var bound body location).binders := binders_variable rfl
      exact .letIn (agrees.trans (new.undeclared _ mine)) (new.unbound _ mine)
        (value_ih (new.part List.mem_cons_self) known)
        (result_ih (new.body rfl rfl _) fun id given => .inr (known id given))
  | @forIn var source body location agrees _ _ input_ih result_ih =>
      have mine : var.id ∈ (forOf var source body location).binders := binders_variable rfl
      exact for_justified (agrees.trans (new.undeclared _ mine)) (new.unbound _ mine)
        (input_ih (new.part List.mem_cons_self) known)
        (result_ih (new.body rfl rfl _) fun id given => .inr (known id given))
  | dynamicCall _ _ function_ih parts_ih =>
      exact justified_of_type rfl (by decide) rfl (List.forall_mem_cons.2 ⟨function_ih (new.part List.mem_cons_self)
        known, fun s member => parts_ih s member (new.part (List.mem_cons_of_mem _ member)) known⟩)
  | delete _ input_ih =>
      exact .node rfl (fun _ => .delete) (List.forall_mem_singleton.2 (input_ih (new.part List.mem_cons_self) known))

/-! ## Updating trees -/

theorem not_vacuous_of_updates (updates : e.hasUpdates = true) : e.isVacuous = false := by
  have counted : (decide (e.size? = some 0) && !e.hasUpdates) = false := by rw [updates]; simp
  cases e <;> first | exact counted | cases updates

/-- A vacuous operand is an error or has a type of nothing. -/
theorem null_of_vacuous (justified : e.Justified K) (vacuous : e.isVacuous = true) : e.Null K.empty := by
  have sized : (decide (e.size? = some 0) && !e.hasUpdates) = true → e.Null K.empty := by
    intro none
    rw [Bool.and_eq_true, decide_eq_true_iff] at none
    exact justified.nil (.inr none.1)
  cases e with
  | call f arguments type location =>
      rw [eq_of_beq vacuous]
      exact .error
  | deferred error type location => exact .deferred
  | _ => exact sized vacuous

/-- Operands that agree on updates give nothing if some of them update: one that does not is vacuous. -/
theorem null_of_uniform {operands : List Expr} (justified : ∀ s ∈ operands, s.Justified K)
    (each : ∀ s ∈ operands, s.hasUpdates = true → s.Null K.empty) (uniform : Uniform operands)
    (some : anyUpdates operands = true) : ∀ s ∈ operands, s.Null K.empty := by
  intro s member
  by_cases counts : s.isVacuous = true
  · exact null_of_vacuous (justified s member) counts
  · obtain ⟨same, agree⟩ := uniform
    obtain ⟨t, other, found⟩ := exists_of_anyUpdates some
    rw [agree t other (not_vacuous_of_updates found)] at found
    subst found
    exact each s member (agree s member (Bool.eq_false_iff.2 counts))

/-- In a tidy tree whose types of nothing are right, what updates gives nothing. -/
theorem null_of_updates (tidy : e.Every Tidy) (justified : e.Justified K) (updates : e.hasUpdates = true) :
    e.Null K.empty := by
  induction justified with
  | @node K e unbound _ parts parts_ih =>
      have part : ∀ s ∈ e.parts, s.hasUpdates = true → s.Null K.empty :=
        fun s member => parts_ih s member (tidy.part member)
      cases e with
      | list operands type location => exact .list (null_of_uniform parts part tidy.here updates)
      | conditional test yes no type location =>
          have both : ∀ s ∈ [yes, no], s.Null K.empty := null_of_uniform
            (fun s member => parts s (List.mem_cons_of_mem _ member))
            (fun s member => part s (List.mem_cons_of_mem _ member)) tidy.here.2
            (by simpa [hasUpdates, anyUpdates] using updates)
          exact .conditional (both yes (by simp)) (both no (by simp))
      | delete target location => exact .delete
      | letIn | forIn => cases unbound
      | _ => cases updates
  | @letIn K var bound body location _ _ _ _ _ result_ih =>
      rw [hasUpdates, show bound.hasUpdates = false from tidy.here, Bool.false_or] at updates
      exact null_let.2 (result_ih (tidy.part (by simp [parts])) updates)
  | @forIn K var source body type location _ _ _ _ _ _ result_ih =>
      rw [hasUpdates, show source.hasUpdates = false from tidy.here, Bool.false_or] at updates
      have null := result_ih (tidy.part (by simp [parts])) updates
      rw [K.add_false] at null
      exact .forBody null

end Expr

end QueryKernel
