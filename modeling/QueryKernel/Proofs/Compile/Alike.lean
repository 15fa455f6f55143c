import QueryKernel.Compile.Copy
import QueryKernel.Expr.Static
import QueryKernel.Proofs.Expr.Parts

/-!
# Copies are alike

A copy has the nodes of the original, with the same types, and differs in its variables only.

New variables come in order: the copy of the variable that is bound at some position among all bound variables
has the number that comes that many places after the first new one.  So a relation between variables that is
given in advance says which variable stands for which.
-/

namespace QueryKernel

namespace Expr

/-- The second expression is the first with other variables: `ref` relates those that are referred to,
and `bind` those that are bound. -/
inductive Alike (ref bind : Nat → Nat → Prop) : Expr → Expr → Prop where
  | literal {v : Value} : Alike ref bind (.literal v) (.literal v)
  | list {operands operands' : List Expr} {type : StaticType} {location : Option Location}
      (length : operands.length = operands'.length)
      (parts : ∀ pair ∈ operands.zip operands', Alike ref bind pair.1 pair.2) :
      Alike ref bind (.list operands type location) (.list operands' type location)
  | range {first last first' last' : Expr} {type : StaticType} {location : Option Location}
      (low : Alike ref bind first first') (high : Alike ref bind last last') :
      Alike ref bind (.range first last type location) (.range first' last' type location)
  | arithmetic {op : Operator} {a b a' b' : Expr} {type : StaticType} {location : Option Location}
      (left : Alike ref bind a a') (right : Alike ref bind b b') :
      Alike ref bind (.arithmetic op a b type location) (.arithmetic op a' b' type location)
  | comparison {op : Comparison} {a b a' b' : Expr} {type : StaticType} {location : Option Location}
      (left : Alike ref bind a a') (right : Alike ref bind b b') :
      Alike ref bind (.comparison op a b type location) (.comparison op a' b' type location)
  | conditional {test yes no test' yes' no' : Expr} {type : StaticType} {location : Option Location}
      (condition : Alike ref bind test test') (positive : Alike ref bind yes yes')
      (negative : Alike ref bind no no') :
      Alike ref bind (.conditional test yes no type location) (.conditional test' yes' no' type location)
  | contextValue {type : StaticType} {location : Option Location} :
      Alike ref bind (.contextValue type location) (.contextValue type location)
  | root {location : Option Location} : Alike ref bind (.root location) (.root location)
  | documents {source : DataSource} {location : Option Location} :
      Alike ref bind (.documents source location) (.documents source location)
  | filter {base base' : Expr} {predicates predicates' : List Expr} {type : StaticType}
      {location : Option Location} (input : Alike ref bind base base')
      (length : predicates.length = predicates'.length)
      (conditions : ∀ pair ∈ predicates.zip predicates', Alike ref bind pair.1 pair.2) :
      Alike ref bind (.filter base predicates type location) (.filter base' predicates' type location)
  | letIn {var var' : Variable} {bound body bound' body' : Expr} {location : Option Location}
      (same : var' = { var with id := var'.id }) (binds : bind var.id var'.id)
      (value : Alike ref bind bound bound') (result : Alike ref bind body body') :
      Alike ref bind (.letIn var bound body location) (.letIn var' bound' body' location)
  | forIn {var var' : Variable} {source body source' body' : Expr} {type : StaticType}
      {location : Option Location} (same : var' = { var with id := var'.id })
      (binds : bind var.id var'.id) (input : Alike ref bind source source')
      (result : Alike ref bind body body') :
      Alike ref bind (.forIn var source body type location) (.forIn var' source' body' type location)
  | varRef {var var' : Variable} {type : StaticType} {location : Option Location}
      (refers : ref var.id var'.id) :
      Alike ref bind (.varRef var type location) (.varRef var' type location)
  | call {f : BuiltIn} {arguments arguments' : List Expr} {type : StaticType}
      {location : Option Location} (length : arguments.length = arguments'.length)
      (parts : ∀ pair ∈ arguments.zip arguments', Alike ref bind pair.1 pair.2) :
      Alike ref bind (.call f arguments type location) (.call f arguments' type location)
  | deferred {error : Error} {type : StaticType} {location : Option Location} :
      Alike ref bind (.deferred error type location) (.deferred error type location)
  | dynamicCall {callee callee' : Expr} {arguments arguments' : List Expr} {type : StaticType}
      {location : Option Location} (function : Alike ref bind callee callee')
      (length : arguments.length = arguments'.length)
      (parts : ∀ pair ∈ arguments.zip arguments', Alike ref bind pair.1 pair.2) :
      Alike ref bind (.dynamicCall callee arguments type location)
        (.dynamicCall callee' arguments' type location)
  | delete {target target' : Expr} {location : Option Location} (input : Alike ref bind target target') :
      Alike ref bind (.delete target location) (.delete target' location)

variable {ref bind : Nat → Nat → Prop} {e e' : Expr} {es es' : List Expr}

/-! ## What is alike of them -/

theorem alike_staticType (alike : Alike ref bind e e') : e'.staticType = e.staticType := by
  induction alike with
  | letIn _ _ _ _ _ result_ih => exact result_ih
  | _ => rfl

theorem anyUpdates_eq_of_zip (length : es.length = es'.length)
    (same : ∀ pair ∈ es.zip es', pair.2.hasUpdates = pair.1.hasUpdates) :
    anyUpdates es' = anyUpdates es := by
  induction es generalizing es' with
  | nil =>
      cases es' with
      | nil => rfl
      | cons e' rest' => cases length
  | cons e rest rest_ih =>
      cases es' with
      | nil => cases length
      | cons e' rest' =>
          have others := rest_ih (Nat.succ.inj length) fun pair member =>
            same pair (List.mem_cons_of_mem _ member)
          simp only [anyUpdates, others, same (e, e') List.mem_cons_self]

theorem alike_hasUpdates (alike : Alike ref bind e e') : e'.hasUpdates = e.hasUpdates := by
  induction alike with
  | list length _ parts_ih => exact anyUpdates_eq_of_zip length parts_ih
  | conditional _ _ _ _ positive_ih negative_ih => simp only [hasUpdates, positive_ih, negative_ih]
  | letIn _ _ _ _ value_ih result_ih => simp only [hasUpdates, value_ih, result_ih]
  | forIn _ _ _ _ input_ih result_ih => simp only [hasUpdates, input_ih, result_ih]
  | _ => rfl

/-! ## Copies -/

theorem copyAll_length (es : List Expr) (s : Copying) : es.length = (copyAll es s).1.length := by
  induction es generalizing s with
  | nil => rfl
  | cons e rest rest_ih => simp only [copyAll, List.length_cons, ← rest_ih]

/-- The variables seen are related to those in their places. -/
def Replaces (ref : Nat → Nat → Prop) (seen : Nat → Prop) (renames : Renaming) : Prop :=
  ∀ var : Variable, seen var.id → ref var.id (renames.apply var).id

/-- What a copy of something leaves behind: what is seen is still related, and so many variables have been
made.  What is declared is new. -/
structure Copies (ref : Nat → Nat → Prop) (seen : Nat → Prop) (made : Nat) (before after : Copying) :
    Prop where
  renames : Replaces ref seen after.renames
  next : after.nextVariable = before.nextVariable + made
  declared : ∀ var ∈ after.declared, var ∈ before.declared ∨ before.nextVariable ≤ var.id

/-- The relations hold between the bound variables and the new ones in their order. -/
def Stands (ref bind : Nat → Nat → Prop) (bound : List Nat) (n : Nat) : Prop :=
  ∀ i x, bound[i]? = some x → ref x (n + i) ∧ bind x (n + i)

theorem Stands.left {xs ys : List Nat} {n : Nat} (stands : Stands ref bind (xs ++ ys) n) :
    Stands ref bind xs n := fun i x found =>
  stands i x (by rw [List.getElem?_append_left (List.getElem?_eq_some_iff.1 found).1, found])

theorem Stands.right {xs ys : List Nat} {n : Nat} (stands : Stands ref bind (xs ++ ys) n) :
    Stands ref bind ys (n + xs.length) := by
  intro i x found
  rw [Nat.add_assoc]
  refine stands _ x ?_
  rw [List.getElem?_append_right (Nat.le_add_right _ _), Nat.add_sub_cancel_left, found]

theorem Stands.head {x : Nat} {xs : List Nat} {n : Nat} (stands : Stands ref bind (x :: xs) n) :
    ref x n ∧ bind x n := stands 0 x rfl

theorem Stands.tail {x : Nat} {xs : List Nat} {n : Nat} (stands : Stands ref bind (x :: xs) n) :
    Stands ref bind xs (n + 1) := by
  intro i y found
  rw [Nat.add_assoc, Nat.add_comm 1 i]
  exact stands (i + 1) y found

theorem apply_set (r : Renaming) (var fresh other : Variable) :
    (r.set var.id fresh).apply other = if other.id = var.id then fresh else r.apply other := by
  unfold Renaming.apply Renaming.set
  by_cases same : other.id = var.id
  · simp [same]
  · have kept : ((r.filter fun entry => entry.1 ≠ var.id).lookup other.id) = r.lookup other.id := by
      induction r with
      | nil => rfl
      | cons entry rest rest_ih =>
          obtain ⟨id, v⟩ := entry
          by_cases dropped : id = var.id
          · have different : (other.id == id) = false := by simpa [dropped] using same
            simp only [List.lookup_cons, different]
            simpa [dropped] using rest_ih
          · by_cases here : other.id = id
            · simp [dropped, here]
            · have different : (other.id == id) = false := by simpa using here
              simpa [dropped, List.lookup_cons, different] using rest_ih
    have different : (other.id == var.id) = false := by simpa using same
    rw [List.lookup_cons, different, kept, if_neg same]

section Copies

variable {seen : Nat → Prop} {s : Copying}

theorem Copies.refl (known : Replaces ref seen s.renames) : Copies ref seen 0 s s := ⟨known, rfl, fun _ => .inl⟩

/-- A variable that has been replaced is seen from then on. -/
theorem Copies.replace {var : Variable} (known : Replaces ref seen s.renames)
    (stands : ref var.id s.nextVariable) :
    Copies ref (fun id => id = var.id ∨ seen id) 1 s (s.replace var).2 := by
  refine ⟨fun other visible => ?_, rfl, fun other member => ?_⟩
  · rw [Copying.replace, apply_set]
    split
    · next same => rwa [same]
    · next different => exact known other (visible.resolve_left different)
  · rcases List.mem_cons.1 member with rfl | old
    · exact .inr (Nat.le_refl _)
    · exact .inl old

theorem Copies.fewer {wider : Nat → Prop} {m : Nat} {t : Copying} (copies : Copies ref wider m s t)
    (within : ∀ id, seen id → wider id) : Copies ref seen m s t :=
  ⟨fun var visible => copies.renames var (within var.id visible), copies.next, copies.declared⟩

theorem Copies.trans {wider : Nat → Prop} {m n : Nat} {t u : Copying} (first : Copies ref wider m s t)
    (second : Copies ref seen n t u) : Copies ref seen (m + n) s u := by
  refine ⟨second.renames, by rw [second.next, first.next, Nat.add_assoc], fun var member => ?_⟩
  rcases second.declared var member with before | fresh
  · exact first.declared var before
  · exact .inr (Nat.le_trans (Nat.le_add_right _ m) (first.next ▸ fresh))

/-- What is claimed of the copy of an expression that refers to what is seen.  The variables bound in it are
the new ones. -/
def CopyAlike (ref bind : Nat → Nat → Prop) (e : Expr) : Prop :=
  ∀ (seen : Nat → Prop) (s : Copying), (∀ id ∈ e.free, seen id) → Replaces ref seen s.renames →
    Stands ref bind e.binders s.nextVariable →
    Alike ref bind e (e.copy s).1 ∧
      (e.copy s).1.binders = List.range' s.nextVariable e.binders.length ∧
      Copies ref seen e.binders.length s (e.copy s).2

theorem copyAll_alike (parts : ∀ e ∈ es, CopyAlike ref bind e) (free : ∀ id ∈ freeAll es, seen id)
    (known : Replaces ref seen s.renames) (stands : Stands ref bind (bindersAll es) s.nextVariable) :
    (∀ pair ∈ es.zip (copyAll es s).1, Alike ref bind pair.1 pair.2) ∧
      bindersAll (copyAll es s).1 = List.range' s.nextVariable (bindersAll es).length ∧
      Copies ref seen (bindersAll es).length s (copyAll es s).2 := by
  induction es generalizing s with
  | nil => exact ⟨fun pair member => (by cases member), rfl, .refl known⟩
  | cons e rest rest_ih =>
      rw [bindersAll] at stands ⊢
      obtain ⟨here, elsewhere⟩ := List.forall_mem_append.1 free
      obtain ⟨alike, made, copies⟩ := parts e List.mem_cons_self seen s here known stands.left
      have later := stands.right
      rw [← copies.next] at later
      obtain ⟨others, madeRest, copiesRest⟩ := rest_ih
        (fun e member => parts e (List.mem_cons_of_mem _ member)) elsewhere copies.renames later
      refine ⟨fun pair member => ?_, ?_, ?_⟩
      · rcases List.mem_cons.1 member with rfl | old
        · exact alike
        · exact others pair old
      · rw [copyAll, bindersAll, made, madeRest, copies.next, List.length_append]
        exact List.range'_append_1
      · rw [List.length_append]
        exact copies.trans copiesRest

/-- The copy of two expressions, one after the other. -/
theorem copyBoth_alike {a b : Expr} (first : CopyAlike ref bind a) (second : CopyAlike ref bind b)
    (free : ∀ id ∈ a.free ++ b.free, seen id) (known : Replaces ref seen s.renames)
    (stands : Stands ref bind (a.binders ++ b.binders) s.nextVariable) :
    Alike ref bind a (a.copy s).1 ∧ Alike ref bind b (b.copy (a.copy s).2).1 ∧
      (a.copy s).1.binders ++ (b.copy (a.copy s).2).1.binders =
        List.range' s.nextVariable (a.binders ++ b.binders).length ∧
      Copies ref seen (a.binders ++ b.binders).length s (b.copy (a.copy s).2).2 := by
  obtain ⟨here, elsewhere⟩ := List.forall_mem_append.1 free
  obtain ⟨left, made, copies⟩ := first seen s here known stands.left
  have later := stands.right
  rw [← copies.next] at later
  obtain ⟨right, madeRest, copiesRest⟩ := second seen _ elsewhere copies.renames later
  rw [made, madeRest, copies.next, List.length_append]
  exact ⟨left, right, List.range'_append_1, copies.trans copiesRest⟩

/-- The copy of a bound expression, of its variable and of the body. -/
theorem copyBinding_alike {var : Variable} {bound body : Expr} (first : CopyAlike ref bind bound)
    (second : CopyAlike ref bind body) (free : ∀ id ∈ bound.free ++ body.free.filter (· ≠ var.id), seen id)
    (known : Replaces ref seen s.renames)
    (stands : Stands ref bind (bound.binders ++ var.id :: body.binders) s.nextVariable) :
    let replaced := (bound.copy s).2.replace var
    Alike ref bind bound (bound.copy s).1 ∧ bind var.id replaced.1.id ∧
      Alike ref bind body (body.copy replaced.2).1 ∧
      (bound.copy s).1.binders ++ replaced.1.id :: (body.copy replaced.2).1.binders =
        List.range' s.nextVariable (bound.binders ++ var.id :: body.binders).length ∧
      Copies ref seen (bound.binders ++ var.id :: body.binders).length s (body.copy replaced.2).2 := by
  intro replaced
  obtain ⟨here, elsewhere⟩ := List.forall_mem_append.1 free
  obtain ⟨left, made, copies⟩ := first seen s here known stands.left
  have later := stands.right
  rw [← copies.next] at later
  have step : Copies ref (fun id => id = var.id ∨ seen id) 1 (bound.copy s).2 replaced.2 :=
    .replace copies.renames later.head.1
  -- The copy of the body goes on where that of the variable has ended.
  have last := later.tail
  rw [← step.next] at last
  have inside : ∀ id ∈ body.free, id = var.id ∨ seen id := fun id member =>
    Decidable.or_iff_not_imp_left.2 fun other => elsewhere id (List.mem_filter.2 ⟨member, by simpa using other⟩)
  obtain ⟨right, madeRest, copiesRest⟩ := second _ _ inside step.renames last
  have fresh : replaced.1.id = s.nextVariable + bound.binders.length := copies.next
  refine ⟨left, later.head.2, right, ?_, ?_⟩
  · rw [made, madeRest, step.next, copies.next, fresh, ← List.range'_succ, List.length_append,
      List.length_cons]
    exact List.range'_append_1
  · rw [List.length_append, List.length_cons, Nat.add_comm body.binders.length 1]
    exact copies.trans (step.trans (copiesRest.fewer fun _ => .inr))

end Copies

theorem copy_alike (e : Expr) : CopyAlike ref bind e := by
  induction e using byParts with
  | step e parts_ih =>
    -- Each part is copied where the one before has ended, so that the state is general here.
    intro seen s free known stands
    cases e with
    | literal v => exact ⟨.literal, rfl, .refl known⟩
    | contextValue type location => exact ⟨.contextValue, rfl, .refl known⟩
    | root location => exact ⟨.root, rfl, .refl known⟩
    | documents source location => exact ⟨.documents, rfl, .refl known⟩
    | deferred error type location => exact ⟨.deferred, rfl, .refl known⟩
    | varRef var type location => exact ⟨.varRef (known var (free var.id List.mem_cons_self)), rfl, .refl known⟩
    | list operands type location =>
        obtain ⟨alike, made, copies⟩ := copyAll_alike parts_ih free known stands
        exact ⟨.list (copyAll_length _ _) alike, made, copies⟩
    | call f arguments type location =>
        obtain ⟨alike, made, copies⟩ := copyAll_alike parts_ih free known stands
        exact ⟨.call (copyAll_length _ _) alike, made, copies⟩
    | range a b type location =>
        obtain ⟨left, right, made, copies⟩ := copyBoth_alike (parts_ih a (by simp [parts]))
          (parts_ih b (by simp [parts])) free known stands
        exact ⟨.range left right, made, copies⟩
    | arithmetic op a b type location =>
        obtain ⟨left, right, made, copies⟩ := copyBoth_alike (parts_ih a (by simp [parts]))
          (parts_ih b (by simp [parts])) free known stands
        exact ⟨.arithmetic left right, made, copies⟩
    | comparison op a b type location =>
        obtain ⟨left, right, made, copies⟩ := copyBoth_alike (parts_ih a (by simp [parts]))
          (parts_ih b (by simp [parts])) free known stands
        exact ⟨.comparison left right, made, copies⟩
    | conditional test yes no type location =>
        simp only [binders] at stands
        obtain ⟨here, elsewhere⟩ := List.forall_mem_append.1 free
        obtain ⟨condition, made, copies⟩ := parts_ih test (by simp [parts]) seen s here known stands.left
        have later := stands.right
        rw [← copies.next] at later
        obtain ⟨positive, negative, madeBoth, both⟩ := copyBoth_alike (parts_ih yes (by simp [parts]))
          (parts_ih no (by simp [parts])) elsewhere copies.renames later
        refine ⟨.conditional condition positive negative, ?_, ?_⟩
        · simp only [copy, binders]
          rw [made, madeBoth, copies.next]
          simp only [List.length_append]
          exact List.range'_append_1
        · rw [binders, List.length_append]
          exact copies.trans both
    | filter base predicates type location =>
        have parts : ∀ s ∈ base :: predicates, CopyAlike ref bind s := parts_ih
        obtain ⟨alike, made, copies⟩ := copyAll_alike parts free known stands
        refine ⟨.filter (alike _ List.mem_cons_self) (copyAll_length _ _) fun pair member => ?_, made, copies⟩
        exact alike pair (List.mem_cons_of_mem _ member)
    | dynamicCall callee arguments type location =>
        have parts : ∀ s ∈ callee :: arguments, CopyAlike ref bind s := parts_ih
        obtain ⟨alike, made, copies⟩ := copyAll_alike parts free known stands
        refine ⟨.dynamicCall (alike _ List.mem_cons_self) (copyAll_length _ _) fun pair member => ?_, made, copies⟩
        exact alike pair (List.mem_cons_of_mem _ member)
    | letIn var bound body location =>
        obtain ⟨value, binds, result, made, copies⟩ := copyBinding_alike
          (parts_ih bound (by simp [parts])) (parts_ih body (by simp [parts])) free known stands
        exact ⟨.letIn rfl binds value result, made, copies⟩
    | forIn var source body type location =>
        obtain ⟨input, binds, result, made, copies⟩ := copyBinding_alike
          (parts_ih source (by simp [parts])) (parts_ih body (by simp [parts])) free known stands
        exact ⟨.forIn rfl binds input result, made, copies⟩
    | delete target location =>
        obtain ⟨input, made, copies⟩ := parts_ih target (by simp [parts]) seen s free known stands
        exact ⟨.delete input, made, copies⟩

/-- A copy is alike whatever its variables are. -/
theorem alike_copy (e : Expr) (s : Copying) : Alike (fun _ _ => True) (fun _ _ => True) e (e.copy s).1 :=
  (copy_alike e (fun _ => True) s (fun _ _ => trivial) (fun _ _ => trivial)
    fun _ _ _ => ⟨trivial, trivial⟩).1

/-- A copy binds the next variables, in order. -/
theorem copy_binders (e : Expr) (s : Copying) :
    (e.copy s).1.binders = List.range' s.nextVariable e.binders.length ∧
      (e.copy s).2.nextVariable = s.nextVariable + e.binders.length := by
  have alike : CopyAlike (fun _ _ => True) (fun _ _ => True) e := copy_alike e
  obtain ⟨_, made, copies⟩ := alike (fun _ => True) s (fun _ _ => trivial) (fun _ _ => trivial)
    fun _ _ _ => ⟨trivial, trivial⟩
  exact ⟨made, copies.next⟩

theorem apply_id (r : Renaming) {var other : Variable} (same : var.id = other.id) :
    (r.apply var).id = (r.apply other).id := by
  unfold Renaming.apply
  rw [same]
  cases r.lookup other.id with
  | none => exact same
  | some fresh => rfl

/-- Copying replaces no variables but those that are bound in what is copied. -/
theorem copy_apply (e : Expr) (s : Copying) {var : Variable} (apart : var.id ∉ e.binders) :
    ((e.copy s).2.renames.apply var).id = (s.renames.apply var).id := by
  have alike : CopyAlike (fun x y => x ∈ e.binders ∨ ∀ other : Variable, other.id = x →
      (s.renames.apply other).id = y) (fun _ _ => True) e := copy_alike e
  obtain ⟨-, -, copies⟩ := alike (fun _ => True) s (fun _ _ => trivial)
    (fun var _ => .inr fun other same => apply_id s.renames same)
    fun i x found => ⟨.inl (List.mem_of_getElem? found), trivial⟩
  exact ((copies.renames var trivial).resolve_left apart var rfl).symm

theorem copy_staticType (e : Expr) (s : Copying) : (e.copy s).1.staticType = e.staticType :=
  alike_staticType (alike_copy e s)

/-! ## Expressions themselves -/

/-- An expression is alike itself, if all that it mentions is related to itself. -/
theorem alike_self {e : Expr} (free : ∀ id ∈ e.free, ref id id)
    (bound : ∀ id ∈ e.binders, ref id id ∧ bind id id) : Alike ref bind e e := by
  have each : ∀ {es : List Expr}, (∀ e ∈ es, (∀ id ∈ e.free, ref id id) →
      (∀ id ∈ e.binders, ref id id ∧ bind id id) → Alike ref bind e e) →
      (∀ id ∈ freeAll es, ref id id) → (∀ id ∈ bindersAll es, ref id id ∧ bind id id) →
      ∀ pair ∈ es.zip es, Alike ref bind pair.1 pair.2 := by
    intro es parts free bound
    induction es with
    | nil => exact fun _ member => by cases member
    | cons e rest rest_ih =>
        obtain ⟨here, elsewhere⟩ := List.forall_mem_append.1 free
        obtain ⟨inside, outside⟩ := List.forall_mem_append.1 bound
        refine List.forall_mem_cons.2 ⟨parts e List.mem_cons_self here inside, ?_⟩
        exact rest_ih (fun s member => parts s (List.mem_cons_of_mem _ member)) elsewhere outside
  -- In the body of a binding the bound variable is free.
  have body : ∀ {x : Nat} {ids : List Nat}, ref x x → (∀ id ∈ ids.filter (· ≠ x), ref id id) →
      ∀ id ∈ ids, ref id id := by
    intro x ids here others id member
    by_cases same : id = x
    · rwa [same]
    · exact others id (List.mem_filter.2 ⟨member, by simpa using same⟩)
  induction e using byParts with
  | step e parts_ih =>
      cases e with
      | literal => exact .literal
      | contextValue => exact .contextValue
      | root => exact .root
      | documents => exact .documents
      | deferred => exact .deferred
      | varRef var => exact .varRef (free var.id List.mem_cons_self)
      | list operands => exact .list rfl (each parts_ih free bound)
      | call f arguments => exact .call rfl (each parts_ih free bound)
      | delete target => exact .delete (parts_ih target List.mem_cons_self free bound)
      | range a b =>
          obtain ⟨freeLeft, freeRight⟩ := List.forall_mem_append.1 free
          obtain ⟨boundLeft, boundRight⟩ := List.forall_mem_append.1 bound
          exact .range (parts_ih a (by simp [parts]) freeLeft boundLeft)
            (parts_ih b (by simp [parts]) freeRight boundRight)
      | arithmetic op a b =>
          obtain ⟨freeLeft, freeRight⟩ := List.forall_mem_append.1 free
          obtain ⟨boundLeft, boundRight⟩ := List.forall_mem_append.1 bound
          exact .arithmetic (parts_ih a (by simp [parts]) freeLeft boundLeft)
            (parts_ih b (by simp [parts]) freeRight boundRight)
      | comparison op a b =>
          obtain ⟨freeLeft, freeRight⟩ := List.forall_mem_append.1 free
          obtain ⟨boundLeft, boundRight⟩ := List.forall_mem_append.1 bound
          exact .comparison (parts_ih a (by simp [parts]) freeLeft boundLeft)
            (parts_ih b (by simp [parts]) freeRight boundRight)
      | conditional test yes no =>
          obtain ⟨freeTest, freeBoth⟩ := List.forall_mem_append.1 free
          obtain ⟨freeYes, freeNo⟩ := List.forall_mem_append.1 freeBoth
          obtain ⟨boundTest, boundBoth⟩ := List.forall_mem_append.1 bound
          obtain ⟨boundYes, boundNo⟩ := List.forall_mem_append.1 boundBoth
          exact .conditional (parts_ih test (by simp [parts]) freeTest boundTest)
            (parts_ih yes (by simp [parts]) freeYes boundYes) (parts_ih no (by simp [parts]) freeNo boundNo)
      | filter base predicates =>
          obtain ⟨freeBase, freeRest⟩ := List.forall_mem_append.1 free
          obtain ⟨boundBase, boundRest⟩ := List.forall_mem_append.1 bound
          exact .filter (parts_ih base List.mem_cons_self freeBase boundBase) rfl
            (each (fun s member => parts_ih s (List.mem_cons_of_mem _ member)) freeRest boundRest)
      | dynamicCall callee arguments =>
          obtain ⟨freeCallee, freeRest⟩ := List.forall_mem_append.1 free
          obtain ⟨boundCallee, boundRest⟩ := List.forall_mem_append.1 bound
          exact .dynamicCall (parts_ih callee List.mem_cons_self freeCallee boundCallee) rfl
            (each (fun s member => parts_ih s (List.mem_cons_of_mem _ member)) freeRest boundRest)
      | letIn var value result =>
          obtain ⟨freeValue, freeResult⟩ := List.forall_mem_append.1 free
          obtain ⟨boundValue, others⟩ := List.forall_mem_append.1 bound
          obtain ⟨here, boundResult⟩ := List.forall_mem_cons.1 others
          exact .letIn rfl here.2 (parts_ih value (by simp [parts]) freeValue boundValue)
            (parts_ih result (by simp [parts]) (body here.1 freeResult) boundResult)
      | forIn var source result =>
          obtain ⟨freeSource, freeResult⟩ := List.forall_mem_append.1 free
          obtain ⟨boundSource, others⟩ := List.forall_mem_append.1 bound
          obtain ⟨here, boundResult⟩ := List.forall_mem_cons.1 others
          exact .forIn rfl here.2 (parts_ih source (by simp [parts]) freeSource boundSource)
            (parts_ih result (by simp [parts]) (body here.1 freeResult) boundResult)

end Expr

end QueryKernel
