import QueryKernel.Proofs.Compile.Literals
import QueryKernel.Proofs.Meaning.Fits
import QueryKernel.Proofs.Run.Expressions

/-!
# Copies have the same outcomes

A copy is the original with other variables bound in it, so that it stands in its place wherever the new
variables are not in use.

Copying renames by one table for the whole expression, whereas a renaming is about what is visible at each node.
The two agree because no variable is bound twice and the new ones are all different.

## Definitions

* `Expr.Separates` says that a renaming keeps the variables bound in an expression apart.
* `Visible.Sees` says that what is visible to one expression is so to another, up to a renaming.
* `renamedFrom` gives the variables bound in an expression the next numbers, in their order.
-/

namespace QueryKernel

/-- What one expression sees is seen by the other under its new name. -/
structure Visible.Sees (visible : Visible) (rename : Nat → Nat) (other : Visible) : Prop where
  focus : visible .focus → other .focus
  forest : visible .forest → other .forest
  references : ∀ id, visible (.variable id) → other (.variable (rename id))

/-- The variables of a list have the next numbers in their order, others are renamed as before. -/
def renamedFrom (bound : List Nat) (next : Nat) (rename : Nat → Nat) (id : Nat) : Nat :=
  if id ∈ bound then next + bound.idxOf id else rename id

namespace Expr

variable {compiled : Bool} {visible other : Visible} {rename : Nat → Nat} {e e' : Expr} {es es' : List Expr}

/-! ## What an expression refers to -/

theorem freeAll_subset {ids : Nat → Prop} (parts : ∀ e ∈ es, ∀ id ∈ e.free, ids id) : ∀ id ∈ freeAll es, ids id := by
  induction es with
  | nil => exact fun _ none => by cases none
  | cons e rest rest_ih =>
      exact List.forall_mem_append.2 ⟨parts e List.mem_cons_self,
        rest_ih fun other member => parts other (List.mem_cons_of_mem _ member)⟩

theorem Placed.sees (placed : e.Placed compiled visible) : ∀ id ∈ e.free, visible (.variable id) := by
  have body : ∀ {visible : Visible} {x : Nat} {ids : List Nat},
      (∀ id ∈ ids, visible.add x (.variable id)) → ∀ id ∈ ids.filter (· ≠ x), visible (.variable id) := by
    intro visible x ids inside id member
    obtain ⟨free, different⟩ := List.mem_filter.1 member
    exact (Visible.variable_of_add (inside id free)).resolve_left (by simpa using different)
  induction placed with
  | literal | contextValue | root | documents | deferred => exact fun _ none => by cases none
  | varRef seen => exact List.forall_mem_singleton.2 seen
  | list _ parts_ih => exact freeAll_subset parts_ih
  | call _ _ _ _ parts_ih => exact freeAll_subset parts_ih
  | range _ _ _ low_ih high_ih => exact List.forall_mem_append.2 ⟨low_ih, high_ih⟩
  | arithmetic _ _ _ left_ih right_ih => exact List.forall_mem_append.2 ⟨left_ih, right_ih⟩
  | comparison _ _ _ left_ih right_ih => exact List.forall_mem_append.2 ⟨left_ih, right_ih⟩
  | conditional _ _ _ _ condition_ih positive_ih negative_ih =>
      exact List.forall_mem_append.2 ⟨condition_ih, List.forall_mem_append.2 ⟨positive_ih, negative_ih⟩⟩
  | filter _ _ _ input_ih conditions_ih =>
      refine List.forall_mem_append.2 ⟨input_ih, freeAll_subset fun e member id free => ?_⟩
      exact Visible.variable_of_focused (conditions_ih e member id free)
  | letIn _ _ _ _ value_ih result_ih => exact List.forall_mem_append.2 ⟨value_ih, body result_ih⟩
  | forIn _ _ _ _ input_ih result_ih => exact List.forall_mem_append.2 ⟨input_ih, body result_ih⟩
  | delete _ _ input_ih => exact input_ih

/-! ## Alike expressions -/

theorem renameAlso_self (rename : Nat → Nat) (id : Nat) : renameAlso rename id (rename id) = rename := by
  funext other
  unfold renameAlso
  split
  · next same => rw [same]
  · rfl

/-- No variable bound in the expression gets the name of another one in it. -/
def Separates (rename : Nat → Nat) (visible : Visible) (e : Expr) : Prop :=
  ∀ x ∈ e.binders, ∀ id, visible (.variable id) ∨ id ∈ e.binders → id ≠ x → rename id ≠ rename x

theorem Separates.part {s : Expr} (apart : e.Separates rename visible) (member : s ∈ e.parts) :
    s.Separates rename visible := by
  have subset := (binders_part member).subset
  exact fun x bound id seen => apart x (subset bound) id (seen.imp_right fun inside => subset inside)

theorem Separates.focused (apart : e.Separates rename visible) : e.Separates rename visible.focused :=
  fun x bound id seen => apart x bound id (seen.imp_left Visible.variable_of_focused)

/-- The body of a binding sees the variable that is bound. -/
theorem Separates.body {s : Expr} {x : Nat} (apart : e.Separates rename visible)
    (binds : (x :: s.binders).Sublist e.binders) : s.Separates rename (visible.add x) := by
  obtain ⟨inside, subset⟩ := List.cons_subset.1 binds.subset
  refine fun y bound id seen => apart y (subset bound) id ?_
  rcases seen with seen | bound
  · rcases Visible.variable_of_add seen with rfl | before
    · exact .inr inside
    · exact .inl before
  · exact .inr (subset bound)

theorem alike_renamed {bind : Nat → Nat → Prop} (alike : Alike (fun x y => y = rename x) bind e e')
    (binds : ∀ x y, bind x y → y = rename x) (placed : e.Placed compiled visible)
    (apart : e.Separates rename visible) : Renamed visible rename e e' := by
  induction placed generalizing e' with
  | literal =>
      cases alike with
      | literal => exact .literal
  | list _ parts_ih =>
      cases alike with
      | list length parts =>
          refine .list length fun pair member => ?_
          have inside := (List.of_mem_zip member).1
          exact parts_ih _ inside (parts pair member) (apart.part inside)
  | range _ _ _ low_ih high_ih =>
      cases alike with
      | range low high =>
          exact .range (low_ih low (apart.part (by simp [Expr.parts])))
            (high_ih high (apart.part (by simp [Expr.parts])))
  | arithmetic _ _ _ left_ih right_ih =>
      cases alike with
      | arithmetic left right =>
          exact .arithmetic (left_ih left (apart.part (by simp [Expr.parts])))
            (right_ih right (apart.part (by simp [Expr.parts])))
  | comparison _ _ _ left_ih right_ih =>
      cases alike with
      | comparison left right =>
          exact .comparison (left_ih left (apart.part (by simp [Expr.parts])))
            (right_ih right (apart.part (by simp [Expr.parts])))
  | conditional _ _ _ _ condition_ih positive_ih negative_ih =>
      cases alike with
      | conditional condition positive negative =>
          exact .conditional (condition_ih condition (apart.part (by simp [Expr.parts])))
            (positive_ih positive (apart.part (by simp [Expr.parts])))
            (negative_ih negative (apart.part (by simp [Expr.parts])))
  | contextValue seen =>
      cases alike with
      | contextValue => exact .contextValue seen
  | root seen around =>
      cases alike with
      | root => exact .root seen around
  | documents =>
      cases alike with
      | documents => exact .documents
  | filter _ _ _ input_ih conditions_ih =>
      cases alike with
      | filter input length conditions =>
          refine .filter (input_ih input (apart.part List.mem_cons_self)) length fun pair member => ?_
          have inside := (List.of_mem_zip member).1
          exact conditions_ih _ inside (conditions pair member) (apart.part (List.mem_cons_of_mem _ inside)).focused
  | letIn _ _ _ _ value_ih result_ih =>
      cases alike with
      | letIn kept bound value inner =>
          have same := binds _ _ bound
          have declared := congrArg Variable.declared kept
          refine .letIn declared (fun id seen different => ?_)
            (value_ih value (apart.part List.mem_cons_self)) ?_
          · rw [same]
            exact apart _ (List.mem_append_right _ List.mem_cons_self) id (.inl seen) different
          -- In the body the variable has the name that the renaming gives it anyway.
          · rw [same, renameAlso_self]
            exact result_ih inner (apart.body (List.sublist_append_right _ _))
  | forIn _ _ _ _ input_ih result_ih =>
      cases alike with
      | forIn kept bound input inner =>
          have same := binds _ _ bound
          have declared := congrArg Variable.declared kept
          refine .forIn declared (fun id seen different => ?_)
            (input_ih input (apart.part List.mem_cons_self)) ?_
          · rw [same]
            exact apart _ (List.mem_append_right _ List.mem_cons_self) id (.inl seen) different
          · rw [same, renameAlso_self]
            exact result_ih inner (apart.body (List.sublist_append_right _ _))
  | varRef seen =>
      cases alike with
      | varRef refers => exact .varRef seen refers
  | call _ _ _ _ parts_ih =>
      cases alike with
      | call length parts =>
          refine .call length fun pair member => ?_
          have inside := (List.of_mem_zip member).1
          exact parts_ih _ inside (parts pair member) (apart.part inside)
  | deferred =>
      cases alike with
      | deferred => exact .deferred
  | delete _ _ input_ih =>
      cases alike with
      | delete input => exact .delete (input_ih input (apart.part List.mem_cons_self))

end Expr

namespace Visible

variable {visible other : Visible} {rename : Nat → Nat}

theorem Sees.body (sees : visible.Sees rename other) (x : Nat) :
    (visible.add x).Sees rename (other.add (rename x)) := by
  refine ⟨fun seen => .inr (sees.focus (focus_of_add seen)), fun seen => .inr (sees.forest (forest_of_add seen)),
    fun id seen => ?_⟩
  rcases variable_of_add seen with rfl | before
  · exact .inl rfl
  · exact .inr (sees.references id before)

theorem Sees.focused (sees : visible.Sees rename other) : visible.focused.Sees rename other.focused :=
  ⟨fun _ => .inl rfl, fun seen => .inr (sees.forest (forest_of_focused seen)),
    fun id seen => .inr (sees.references id (variable_of_focused seen))⟩

end Visible

namespace Expr

variable {compiled : Bool} {visible other : Visible} {rename : Nat → Nat} {e e' : Expr}

theorem alike_placed {bind : Nat → Nat → Prop} (alike : Alike (fun x y => y = rename x) bind e e')
    (binds : ∀ x y, bind x y → y = rename x) (placed : e.Placed compiled visible)
    (sees : visible.Sees rename other) : e'.Placed compiled other := by
  induction placed generalizing e' other with
  | literal simple =>
      cases alike with
      | literal => exact .literal simple
  | list _ parts_ih =>
      cases alike with
      | list length parts =>
          refine .list fun s' member => ?_
          obtain ⟨s, inside, pair⟩ := mem_zip_of_mem_right length member
          exact parts_ih s inside (parts _ pair) sees
  | range _ _ quiet low_ih high_ih =>
      cases alike with
      | range low high =>
          refine .range (low_ih low sees) (high_ih high sees) fun done => ?_
          rw [alike_hasUpdates low, alike_hasUpdates high]
          exact quiet done
  | arithmetic _ _ quiet left_ih right_ih =>
      cases alike with
      | arithmetic left right =>
          refine .arithmetic (left_ih left sees) (right_ih right sees) fun done => ?_
          rw [alike_hasUpdates left, alike_hasUpdates right]
          exact quiet done
  | comparison _ _ quiet left_ih right_ih =>
      cases alike with
      | comparison left right =>
          refine .comparison (left_ih left sees) (right_ih right sees) fun done => ?_
          rw [alike_hasUpdates left, alike_hasUpdates right]
          exact quiet done
  | conditional _ _ _ quiet condition_ih positive_ih negative_ih =>
      cases alike with
      | conditional condition positive negative =>
          exact .conditional (condition_ih condition sees) (positive_ih positive sees) (negative_ih negative sees)
            fun done => (alike_hasUpdates condition).trans (quiet done)
  | contextValue seen =>
      cases alike with
      | contextValue => exact .contextValue (sees.focus seen)
  | root seen around =>
      cases alike with
      | root => exact .root (sees.focus seen) (sees.forest around)
  | documents =>
      cases alike with
      | documents => exact .documents
  | filter _ _ quiet input_ih conditions_ih =>
      cases alike with
      | filter input length conditions =>
          refine .filter (input_ih input sees) (fun s' member => ?_) fun done => ⟨?_, fun s' member => ?_⟩
          · obtain ⟨s, inside, pair⟩ := mem_zip_of_mem_right length member
            -- A predicate of the copy is the copy of a predicate.
            exact conditions_ih s inside (conditions _ pair) sees.focused
          · exact (alike_hasUpdates input).trans (quiet done).1
          · obtain ⟨s, inside, pair⟩ := mem_zip_of_mem_right length member
            exact (alike_hasUpdates (conditions _ pair)).trans ((quiet done).2 s inside)
  | letIn meets _ _ quiet value_ih result_ih =>
      cases alike with
      | letIn same bound value result =>
          have declared := congrArg Variable.declared same
          refine .letIn (meets.of_declared declared) (value_ih value sees) ?_
            fun done => (alike_hasUpdates value).trans (quiet done)
          rw [binds _ _ bound]
          exact result_ih result (sees.body _)
  | forIn meets _ _ quiet input_ih result_ih =>
      cases alike with
      | forIn same bound input result =>
          have declared := congrArg Variable.declared same
          refine .forIn (meets.of_declared declared) (input_ih input sees) ?_
            fun done => (alike_hasUpdates input).trans (quiet done)
          rw [binds _ _ bound]
          exact result_ih result (sees.body _)
  | varRef seen =>
      cases alike with
      | varRef refers =>
          refine .varRef ?_
          rw [refers]
          exact sees.references _ seen
  | call firstOrder takes _ quiet parts_ih =>
      cases alike with
      | call length parts =>
          refine .call firstOrder (length ▸ takes) (fun s' member => ?_) fun done s' member => ?_
          · obtain ⟨s, inside, pair⟩ := mem_zip_of_mem_right length member
            exact parts_ih s inside (parts _ pair) sees
          · obtain ⟨s, inside, pair⟩ := mem_zip_of_mem_right length member
            exact (alike_hasUpdates (parts _ pair)).trans (quiet done s inside)
  | deferred later =>
      cases alike with
      | deferred => exact .deferred later
  | delete _ quiet input_ih =>
      cases alike with
      | delete input => exact .delete (input_ih input sees) fun done => (alike_hasUpdates input).trans (quiet done)

end Expr

/-! ## Copies -/

theorem Env.Carries.congr {visible : Visible} {rename same : Nat → Nat} {env env' : Env}
    (carries : env.Carries visible rename env') (equal : ∀ id, visible (.variable id) → same id = rename id) :
    env.Carries visible same env' := by
  refine ⟨carries.focus, carries.forest, fun id seen => ?_⟩
  rw [equal id seen]
  exact carries.values id seen

theorem Visible.Sees.congr {visible other : Visible} {rename same : Nat → Nat} (sees : visible.Sees rename other)
    (equal : ∀ id, visible (.variable id) → same id = rename id) : visible.Sees same other := by
  refine ⟨sees.focus, sees.forest, fun id seen => ?_⟩
  rw [equal id seen]
  exact sees.references id seen

theorem renamedFrom_other {bound : List Nat} {next : Nat} {rename : Nat → Nat} {id : Nat} (other : id ∉ bound) :
    renamedFrom bound next rename id = rename id := if_neg other

theorem renamedFrom_bound {bound : List Nat} {next : Nat} {rename : Nat → Nat} {i x : Nat} (nodup : bound.Nodup)
    (found : bound[i]? = some x) : renamedFrom bound next rename x = next + i := by
  obtain ⟨within, rfl⟩ := List.getElem?_eq_some_iff.1 found
  rw [renamedFrom, if_pos (List.getElem_mem within), nodup.idxOf_getElem i within]

namespace Expr

variable {compiled : Bool} {visible : Visible} {rename : Nat → Nat} {e : Expr}

/-- An expression with the outcomes of another in every environment that is carried over by a renaming.  Its
variables are the next ones. -/
structure Duplicates (compiled : Bool) (visible : Visible) (rename : Nat → Nat) (e : Expr) (next : Nat)
    (e' : Expr) : Prop where
  placed : ∀ other, visible.Sees rename other → e'.Placed compiled other
  binders : e'.binders = List.range' next e.binders.length
  hasUpdates : e'.hasUpdates = e.hasUpdates
  within : ∀ env env', env.Carries visible rename env' → Within .free e' env' .free e env
  fits : ∀ env env', env.Carries visible rename env' → e.Fits env → e'.Fits env'

theorem copy_duplicates (s : Copying) (rename : Nat → Nat) (placed : e.Placed compiled visible)
    (distinct : e.Distinct visible)
    (images : ∀ var : Variable, visible (.variable var.id) → (s.renames.apply var).id = rename var.id)
    (below : ∀ id, visible (.variable id) → rename id < s.nextVariable) :
    Duplicates compiled visible rename e s.nextVariable (e.copy s).1 ∧
      (e.copy s).2.nextVariable = s.nextVariable + e.binders.length := by
  have outside : ∀ id, visible (.variable id) →
      renamedFrom e.binders s.nextVariable rename id = rename id :=
    fun id seen => renamedFrom_other fun bound => distinct.apart id bound seen
  have known : Replaces (fun x y => y = renamedFrom e.binders s.nextVariable rename x)
      (fun id => visible (.variable id)) s.renames := by
    intro var seen
    rw [outside _ seen]
    exact images var seen
  have stands : Stands (fun x y => y = renamedFrom e.binders s.nextVariable rename x)
      (fun x y => y = renamedFrom e.binders s.nextVariable rename x) e.binders s.nextVariable :=
    fun i x found => ⟨(renamedFrom_bound distinct.nodup found).symm, (renamedFrom_bound distinct.nodup found).symm⟩
  obtain ⟨alike, binders, copies⟩ := copy_alike e _ s placed.sees known stands
  have apart : e.Separates (renamedFrom e.binders s.nextVariable rename) visible := by
    intro x bound id seen different
    obtain ⟨i, found⟩ := List.getElem?_of_mem bound
    rw [renamedFrom_bound distinct.nodup found]
    -- Two bound variables have different numbers by position, and all others have smaller ones.
    by_cases inside : id ∈ e.binders
    · obtain ⟨j, other⟩ := List.getElem?_of_mem inside
      rw [renamedFrom_bound distinct.nodup other]
      intro same
      obtain rfl : j = i := by omega
      exact different (Option.some.inj (other.symm.trans found))
    · have before := seen.resolve_right inside
      rw [outside id before]
      have old := below id before
      omega
  have renamed := alike_renamed alike (fun _ _ => id) placed apart
  refine ⟨⟨fun other sees => ?_, binders, alike_hasUpdates alike, fun env env' carries => ?_,
    fun env env' carries fits => ?_⟩, copies.next⟩
  · exact alike_placed alike (fun _ _ => id) placed (sees.congr outside)
  · exact renamed.within Numbers.free.implies_self (carries.congr outside)
  · exact renamed.fits (carries.congr outside) fits

end Expr

end QueryKernel
