import QueryKernel.Proofs.Compile.Tidy
import QueryKernel.Proofs.Compile.Still
import QueryKernel.Proofs.Meaning.Serves
import QueryKernel.Proofs.Run.Foreseen

/-!
# Stages of a compilation

What a state of a compilation records of variables and focus, when an environment agrees with that, and
which steps lead to a state that records the same.

Records outlive nothing but their scope: a step may enter a scope and leave it again, and what it did inside
shows only in the number of the next variable.

## Definitions

* `CompileContext.Later` is the order between states that record the same.
* `Stage` says that a state records only what is visible.
* `Env.Recorded` says that an environment is as recorded.
* `Compile.Brings` is the rule for steps to a later state.
-/

namespace QueryKernel

/-- The second state records the same, and new variables may have been made since. -/
structure CompileContext.Later (c c' : CompileContext) : Prop where
  focus : c'.context.focus = c.context.focus
  focuses : c'.focuses = c.focuses
  stopCause : c'.context.stopCause? = c.context.stopCause?
  next : c.context.nextVariable ≤ c'.context.nextVariable
  values : ∀ id, c'.variableValue? id = c.variableValue? id
  types : ∀ id < c.context.nextVariable, c'.variableType? id = c.variableType? id

/-- There is no reason to stop, and values in shape are recorded of variables that are visible.  Visible
variables are in use. -/
structure Stage (visible : Visible) (c : CompileContext) : Prop where
  runs : c.context.Runs
  bounded : ∀ id, visible (.variable id) → id < c.context.nextVariable
  recorded : ∀ id v, c.variableValue? id = some v → visible (.variable id) ∧ v.Simple

/-- Variables and focus are what is recorded of them. -/
structure Env.Recorded (visible : Visible) (c : CompileContext) (env : Env) : Prop where
  values : ∀ id, visible (.variable id) → ∀ v, c.variableValue? id = some v → env.values id = v.sequence
  types : ∀ id, visible (.variable id) → ∀ type, c.variableType? id = some type →
    type.occurrence.allows (env.values id).items.length = true
  focus : ∀ focus v, c.topFocus? = some focus → focus.value = some v → v.size = 1 ∧ env.focus.items.length = 1

variable {visible : Visible} {c c₁ c₂ : CompileContext} {env : Env}

namespace CompileContext

theorem later_refl (c : CompileContext) : c.Later c :=
  ⟨rfl, rfl, rfl, Nat.le_refl _, fun _ => rfl, fun _ _ => rfl⟩

theorem Later.trans (first : c.Later c₁) (second : c₁.Later c₂) : c.Later c₂ :=
  ⟨second.focus.trans first.focus, second.focuses.trans first.focuses, second.stopCause.trans first.stopCause,
    Nat.le_trans first.next second.next, fun id => (second.values id).trans (first.values id),
    fun id used => (second.types id (Nat.lt_of_lt_of_le used first.next)).trans (first.types id used)⟩

theorem Unmoved.later (unmoved : c.Unmoved c₁) : c.Later c₁ := by
  have scopes : c₁.scopes = c.scopes := by rw [CompileContext.scopes, unmoved.innermost, unmoved.outer, scopes]
  refine ⟨unmoved.context.focus, unmoved.focuses, unmoved.context.stopCause,
    Nat.le_of_eq unmoved.context.nextVariable.symm, fun id => ?_, fun id _ => ?_⟩
  · rw [variableValue?, scopes, variableValue?]
  · rw [variableType?, scopes, variableType?]

theorem Later.runs (later : c.Later c₁) (runs : c.context.Runs) : c₁.context.Runs := later.stopCause.trans runs

theorem Later.topFocus?_eq (later : c.Later c₁) : c₁.topFocus? = c.topFocus? := by
  rw [topFocus?, later.focuses, later.focus, topFocus?]

/-- The state with a scope of one declaration. -/
def enter (c : CompileContext) (entry : ScopeEntry) : CompileContext :=
  { c.pushScope with innermost := [entry] }

variable {entry : ScopeEntry} {id : Nat}

theorem variableValue?_enter : (c.enter entry).variableValue? id =
    (if entry.var.id = id then entry.value else none).or (c.variableValue? id) := by
  have scopes : (c.enter entry).scopes = [entry] :: c.scopes := rfl
  rw [variableValue?, scopes, List.findSome?_cons]
  by_cases same : entry.var.id = id
  · have found : Scope.value? [entry] id = entry.value := by simp [Scope.value?, Scope.get?, same]
    rw [found, if_pos same]
    cases entry.value <;> rfl
  · have missing : Scope.value? [entry] id = none := by simp [Scope.value?, Scope.get?, same]
    rw [missing, if_neg same]
    rfl

theorem variableType?_enter : (c.enter entry).variableType? id =
    if entry.var.id = id then entry.sequenceType else c.variableType? id := by
  have scopes : (c.enter entry).scopes = [entry] :: c.scopes := rfl
  rw [variableType?, scopes, List.findSome?_cons]
  by_cases same : entry.var.id = id
  · simp [Scope.get?, same]
  · have missing : Scope.get? [entry] id = none := by simp [Scope.get?, same]
    rw [missing, if_neg same]
    rfl

end CompileContext

/-! ## What is recorded at a stage -/

theorem Stage.later (stage : Stage visible c) (later : c.Later c₁) : Stage visible c₁ := by
  refine ⟨later.stopCause.trans stage.runs, fun id seen => ?_, fun id v found => ?_⟩
  · exact Nat.lt_of_lt_of_le (stage.bounded id seen) later.next
  · rw [later.values] at found
    exact stage.recorded id v found

theorem Stage.enter {entry : ScopeEntry} (stage : Stage visible c) (used : entry.var.id < c.context.nextVariable)
    (simple : ∀ v, entry.value = some v → v.Simple) : Stage (visible.add entry.var.id) (c.enter entry) := by
  refine ⟨stage.runs, fun id seen => ?_, fun id v found => ?_⟩
  · rcases Visible.variable_of_add seen with rfl | before
    · exact used
    · exact stage.bounded id before
  · rw [CompileContext.variableValue?_enter] at found
    by_cases same : entry.var.id = id
    · rw [if_pos same] at found
      cases recorded : entry.value with
      | some w =>
          rw [recorded] at found
          cases found
          exact ⟨.inl (by rw [same]), simple _ recorded⟩
      | none =>
          rw [recorded] at found
          obtain ⟨seen, given⟩ := stage.recorded id v found
          exact ⟨.inr seen, given⟩
    · rw [if_neg same] at found
      obtain ⟨seen, given⟩ := stage.recorded id v found
      exact ⟨.inr seen, given⟩

theorem Stage.focused (stage : Stage visible c) (value : Option Value) : Stage visible.focused (c.pushFocus value) :=
  ⟨stage.runs, fun id seen => stage.bounded id (Visible.variable_of_focused seen), fun id v found => by
    obtain ⟨seen, given⟩ := stage.recorded id v found
    exact ⟨.inr seen, given⟩⟩

namespace Env

theorem Recorded.later (recorded : env.Recorded visible c) (stage : Stage visible c) (later : c.Later c₁) :
    env.Recorded visible c₁ := by
  refine ⟨fun id seen v found => ?_, fun id seen type found => ?_, fun focus v top value => ?_⟩
  · rw [later.values] at found
    exact recorded.values id seen v found
  · rw [later.types id (stage.bounded id seen)] at found
    exact recorded.types id seen type found
  · rw [later.topFocus?_eq] at top
    exact recorded.focus focus v top value

/-- The variable of a binding holds what is recorded of it. -/
theorem Recorded.enter {entry : ScopeEntry} (recorded : env.Recorded visible c) (stage : Stage visible c)
    (hidden : ¬visible (.variable entry.var.id)) {s : Sequence}
    (typed : ∀ type, entry.sequenceType = some type → type.occurrence.allows s.items.length = true)
    (valued : ∀ v, entry.value = some v → s = v.sequence) :
    (env.set entry.var.id s).Recorded (visible.add entry.var.id) (c.enter entry) := by
  -- Of other variables nothing new is recorded.
  have other : ∀ {id}, entry.var.id ≠ id → visible.add entry.var.id (.variable id) → visible (.variable id) :=
    fun different seen => (Visible.variable_of_add seen).resolve_left fun same => different same.symm
  refine ⟨fun id seen v found => ?_, fun id seen type found => ?_, recorded.focus⟩
  · rw [CompileContext.variableValue?_enter] at found
    by_cases same : entry.var.id = id
    · subst same
      rw [if_pos rfl] at found
      rw [Env.set_same]
      cases given : entry.value with
      | some w =>
          rw [given] at found
          cases found
          exact valued _ given
      | none =>
          rw [given] at found
          exact absurd (stage.recorded _ v found).1 hidden
    · rw [if_neg same] at found
      rw [Env.set_other _ _ fun equal => same equal.symm]
      exact recorded.values id (other same seen) v found
  · rw [CompileContext.variableType?_enter] at found
    by_cases same : entry.var.id = id
    · subst same
      rw [if_pos rfl] at found
      rw [Env.set_same]
      exact typed type found
    · rw [if_neg same] at found
      rw [Env.set_other _ _ fun equal => same equal.symm]
      exact recorded.types id (other same seen) type found

/-- In a predicate one item is in focus. -/
theorem Recorded.focused (recorded : env.Recorded visible c) (found : Option Item) (item : Item) :
    (env.focusOn item).Recorded visible.focused (c.pushFocus (found.map .one)) := by
  refine ⟨fun id seen => recorded.values id (Visible.variable_of_focused seen),
    fun id seen => recorded.types id (Visible.variable_of_focused seen), fun focus v top value => ?_⟩
  cases top
  cases found with
  | none => cases value
  | some other =>
      cases value
      exact ⟨rfl, rfl⟩

end Env

/-! ## Steps to a later state -/

namespace Compile

variable {A B : Type} {P : Nat → A → Prop} {Q : Nat → B → Prop}

/-- A success leads to a later state, with a condition on the number of the next variable and the result. -/
def Brings (P : Nat → A → Prop) (c : CompileContext) (x : Compile A) : Prop :=
  ∀ a c', x c = (.ok a, c') → c.Later c' ∧ P c'.context.nextVariable a

theorem Brings.mono {R : Nat → A → Prop} {x : Compile A} (brings : x.Brings P c)
    (implies : ∀ n a, c.context.nextVariable ≤ n → P n a → R n a) : x.Brings R c := by
  intro a c' ran
  obtain ⟨later, holds⟩ := brings a c' ran
  exact ⟨later, implies _ a later.next holds⟩

theorem Brings.pure {a : A} (holds : P c.context.nextVariable a) : Brings P c (pure a) := by
  intro b c' ran
  cases ran
  exact ⟨c.later_refl, holds⟩

theorem Brings.bind {x : Compile A} {f : A → Compile B} (first : x.Brings P c)
    (second : ∀ a c₁, c.Later c₁ → P c₁.context.nextVariable a → (f a).Brings Q c₁) : (x >>= f).Brings Q c := by
  intro b c₂ ran
  rw [bind_apply] at ran
  split at ran
  · next a c₁ step =>
      obtain ⟨later, holds⟩ := first a c₁ step
      obtain ⟨latest, result⟩ := second a c₁ later holds b c₂ ran
      exact ⟨later.trans latest, result⟩
  · cases ran

theorem Brings.still {x : Compile A} {R : A → Prop} (still : x.Still) (gives : x.Gives R) :
    x.Brings (fun n a => n = c.context.nextVariable ∧ R a) c := by
  intro a c' ran
  have unmoved := still c
  have holds := (gives c trivial).2.1
  rw [ran] at unmoved holds
  exact ⟨unmoved.later, unmoved.context.nextVariable, holds a rfl⟩

/-- A step that makes no variables, before another one. -/
theorem Brings.after {x : Compile A} {R : A → Prop} {f : A → Compile B} (still : x.Still) (gives : x.Gives R)
    (second : ∀ a c₁, c.Later c₁ → c₁.context.nextVariable = c.context.nextVariable → R a → (f a).Brings Q c₁) :
    (x >>= f).Brings Q c :=
  (Brings.still still gives).bind fun a c₁ later holds => second a c₁ later holds.1 holds.2

theorem Brings.inScope {entry : ScopeEntry} {x : Compile A} (brings : x.Brings P (c.enter entry)) :
    (inScope [entry] x).Brings P c := by
  intro a c' ran
  cases inner : x (c.enter entry) with
  | mk result after =>
      have entered : x { c.pushScope with innermost := [entry] } = (result, after) := inner
      simp only [Compile.inScope, entered, Prod.mk.injEq] at ran
      obtain ⟨rfl, rfl⟩ := ran
      obtain ⟨later, holds⟩ := brings a after inner
      exact ⟨⟨later.focus, later.focuses, later.stopCause, later.next, fun _ => rfl, fun _ _ => rfl⟩, holds⟩

theorem Brings.withFocus {value : Option Value} {x : Compile A} (brings : x.Brings P (c.pushFocus value)) :
    (withFocus value x).Brings P c := by
  intro a c' ran
  cases inner : x (c.pushFocus value) with
  | mk result after =>
      simp only [Compile.withFocus, inner, Prod.mk.injEq] at ran
      obtain ⟨rfl, rfl⟩ := ran
      obtain ⟨later, holds⟩ := brings a after inner
      exact ⟨⟨rfl, rfl, later.stopCause, later.next, later.values, later.types⟩, holds⟩

theorem requireNoUpdates_still (description : String) (e : Expr) : (requireNoUpdates description e).Still := by
  unfold requireNoUpdates
  split
  · exact CompileContext.unmoved_refl
  · exact .pure

theorem requireNoneUpdates_still (description : String) (es : List Expr) :
    (requireNoneUpdates description es).Still := by
  induction es with
  | nil => exact .pure
  | cons e rest rest_ih => exact (requireNoUpdates_still description e).bind fun _ => rest_ih

theorem requireUniformUpdates_still (description : String) (es : List Expr) :
    (requireUniformUpdates description es).Still := by
  unfold requireUniformUpdates
  split
  · exact .pure
  · split
    · exact CompileContext.unmoved_refl
    · exact .pure

/-! ## New variables -/

/-- Variables declared without anything known of them. -/
def fresh (declared : List Variable) : Scope := declared.map fun var => ⟨var, none, none⟩

theorem get?_fresh {declared : List Variable} {id : Nat} (other : ∀ var ∈ declared, var.id ≠ id) (scope : Scope) :
    Scope.get? (fresh declared ++ scope) id = Scope.get? scope id := by
  induction declared with
  | nil => rfl
  | cons var rest rest_ih =>
      have different : decide (var.id = id) = false := decide_eq_false (other var List.mem_cons_self)
      rw [Scope.get?, fresh, List.map_cons, List.cons_append, List.find?_cons, different]
      exact rest_ih fun var member => other var (List.mem_cons_of_mem _ member)

theorem value?_fresh {declared : List Variable} {id : Nat} {scope : Scope} (none : Scope.value? scope id = none) :
    Scope.value? (fresh declared ++ scope) id = .none := by
  induction declared with
  | nil => exact none
  | cons var rest rest_ih =>
      by_cases same : var.id = id
      · simp [Scope.value?, Scope.get?, fresh, same]
      · have different : decide (var.id = id) = false := decide_eq_false same
        rw [Scope.value?, Scope.get?, fresh, List.map_cons, List.cons_append, List.find?_cons, different]
        exact rest_ih

theorem copying_brings (stage : Stage visible c) {renames : Renaming} {copy : Copying → A × Copying} {s : Copying}
    {a : A} (copied : copy ⟨c.context.nextVariable, renames, []⟩ = (a, s))
    (grows : c.context.nextVariable ≤ s.nextVariable)
    (new : ∀ var ∈ s.declared, c.context.nextVariable ≤ var.id) :
    (copying renames copy).Brings (fun n result => n = s.nextVariable ∧ result = (a, s.renames)) c := by
  intro result c' ran
  simp only [copying, copied, Prod.mk.injEq] at ran
  obtain ⟨same, rfl⟩ := ran
  refine ⟨⟨rfl, rfl, rfl, grows, fun id => ?_, fun id used => ?_⟩, rfl, (Except.ok.inj same).symm⟩
  · by_cases inside : ∃ var ∈ s.declared, var.id = id
    · -- Nothing is recorded of a variable that is new.
      obtain ⟨var, member, rfl⟩ := inside
      have missing : c.variableValue? var.id = none := by
        cases found : c.variableValue? var.id with
        | none => rfl
        | some v =>
            have used := stage.bounded _ (stage.recorded _ v found).1
            exact absurd used (Nat.not_lt.2 (new var member))
      rw [missing]
      rw [CompileContext.variableValue?, CompileContext.scopes, List.findSome?_cons] at missing ⊢
      cases innermost : Scope.value? c.innermost var.id with
      | some v =>
          rw [innermost] at missing
          cases missing
      | none =>
          rw [innermost] at missing
          rw [show Scope.value? (s.declared.map (fun var => ⟨var, none, none⟩) ++ c.innermost) var.id = none from
            value?_fresh innermost]
          exact missing
    · have other : ∀ var ∈ s.declared, var.id ≠ id := fun var member same => inside ⟨var, member, same⟩
      have same := get?_fresh other c.innermost
      rw [CompileContext.variableValue?, CompileContext.scopes, List.findSome?_cons, Scope.value?,
        CompileContext.variableValue?, CompileContext.scopes, List.findSome?_cons, Scope.value?, ← same]
      rfl
  · have other : ∀ var ∈ s.declared, var.id ≠ id := fun var member same =>
      absurd used (Nat.not_lt.2 (same ▸ new var member))
    have same := get?_fresh other c.innermost
    rw [CompileContext.variableType?, CompileContext.scopes, List.findSome?_cons,
      CompileContext.variableType?, CompileContext.scopes, List.findSome?_cons, ← same]
    rfl

theorem copyVariable_brings (stage : Stage visible c) (var : Variable) :
    (copyVariable var []).Brings (fun n result => n = c.context.nextVariable + 1 ∧
      result = ({ var with id := c.context.nextVariable },
        [(var.id, { var with id := c.context.nextVariable })])) c := by
  have made : Copying.replace ⟨c.context.nextVariable, [], []⟩ var = ({ var with id := c.context.nextVariable },
    ⟨c.context.nextVariable + 1, [(var.id, { var with id := c.context.nextVariable })],
      [{ var with id := c.context.nextVariable }]⟩) := rfl
  have new : ∀ other ∈ [({ var with id := c.context.nextVariable } : Variable)], c.context.nextVariable ≤ other.id := by
    intro other member
    obtain rfl := List.mem_singleton.1 member
    exact Nat.le_refl _
  have copied : (copying [] (·.replace var)).Brings _ c := copying_brings stage made (Nat.le_succ _) new
  exact copied

theorem copy_brings (stage : Stage visible c) (e : Expr) (renames : Renaming) :
    (copy e renames).Brings (fun n result => n = c.context.nextVariable + e.binders.length ∧
      result.1 = (e.copy ⟨c.context.nextVariable, renames, []⟩).1) c := by
  have alike : Expr.CopyAlike (fun _ _ => True) (fun _ _ => True) e := Expr.copy_alike e
  obtain ⟨_, _, copies⟩ := alike (fun _ => True) ⟨c.context.nextVariable, renames, []⟩ (fun _ _ => trivial)
    (fun _ _ => trivial) fun _ _ _ => ⟨trivial, trivial⟩
  have brings : (copying renames e.copy).Brings _ c :=
    copying_brings stage (Prod.eta _).symm (copies.next ▸ Nat.le_add_right _ _) fun var member =>
      (copies.declared var member).resolve_left List.not_mem_nil
  refine brings.mono ?_
  rintro n result _ ⟨rfl, rfl⟩
  exact ⟨copies.next, rfl⟩

/-! ## Scopes of bindings -/

/-- The scope of the body of a binding.  A value is recorded only if the declared type takes it. -/
theorem scopeOfLet_eq {var : Variable} (meets : var.MeetsAny) (bound : Expr) :
    ∃ type value, scopeOfLet var bound = [⟨var, some type, value⟩] ∧
      (∀ v, value = some v → bound.literal? = some v) ∧ ∀ n, var.Allows n →
        bound.sequenceType.occurrence.allows n = true → type.occurrence.allows n = true := by
  unfold scopeOfLet
  dsimp only
  split
  · next v taken =>
      obtain ⟨literal, _⟩ := Option.filter_eq_some_iff.1 taken
      refine ⟨v.sequenceType, some v, by simp [Scope.setValue, Scope.add, Scope.change], ?_, fun n _ fits => ?_⟩
      · rintro _ ⟨⟩
        exact literal
      · cases bound with
        | literal w =>
            cases literal
            have same : v.sequenceType.occurrence = (Expr.literal v).sequenceType.occurrence := by cases v <;> rfl
            exact same ▸ fits
        | _ => cases literal
  · exact ⟨_, none, by simp [Scope.setType, Scope.add, Scope.change], fun _ none => (by cases none),
      fun n allowed fits => meets.allows allowed fits⟩

/-- The scope of the body of a loop. -/
theorem scopeOfFor_eq {var : Variable} (meets : var.MeetsAny) (source : Expr) :
    ∃ type, scopeOfFor var source = [⟨var, some type, none⟩] ∧
      (var.Allows 1 → type.occurrence.allows 1 = true) := by
  have one : (SequenceType.one source.sequenceType.type).occurrence.allows 1 = true := rfl
  exact ⟨_, by simp [scopeOfFor, Scope.setType, Scope.add, Scope.change], fun allowed => meets.allows allowed one⟩

end Compile

end QueryKernel
