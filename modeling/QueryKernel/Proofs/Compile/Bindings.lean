import QueryKernel.Proofs.Compile.Always

/-!
# Visible bindings

What is known of a variable after any scopes have been opened and closed, and variables declared and declared again
in them.  The type is the one recorded last for the latest declaration in the innermost scope with one, and so is the
value; but where no value was recorded for that declaration, the value is the one that it hides, if there is one.

The non-trivial ingredient is `findSome?_bind_eq_iff`: looking for the first scope that has a value comes to the
same as asking the first scope that has the variable exactly if no value is hidden.

## Definitions

* `ScopeChange` is a change of the innermost scope, `ScopeStep` one of the scopes.
* `openHistories?` has the changes of each open scope, by the steps alone.
* `visibleBinding?` has what was recorded for the visible binding of a variable.
* `HidesValue` says that it has no value and hides one.
-/

namespace QueryKernel

/-! ## Steps -/

/-- A change of the innermost scope. -/
inductive ScopeChange where
  | add (var : Variable)
  | setType (var : Variable) (type : SequenceType)
  | setValue (var : Variable) (value : Value)

/-- A step that changes the scopes of a compilation. -/
inductive ScopeStep where
  | push
  | remove
  | within (change : ScopeChange)

/-- The scope after a change. -/
def Scope.after (s : Scope) : ScopeChange → Scope
  | .add var => s.add var
  | .setType var type => s.setType var type
  | .setValue var value => s.setValue var value

namespace CompileContext

/-- The state after a step. -/
def step (c : CompileContext) : ScopeStep → Except Fault CompileContext
  | .push => .ok c.pushScope
  | .remove => c.removeScope?.map (·.2)
  | .within change => .ok { c with innermost := c.innermost.after change }

/-- The state after some steps. -/
def steps (c : CompileContext) : List ScopeStep → Except Fault CompileContext
  | [] => .ok c
  | first :: rest => (c.step first).bind fun c => c.steps rest

end CompileContext

/-! ## What was recorded -/

/-- The changes of a scope, latest first. -/
abbrev ScopeHistory := List ScopeChange

namespace ScopeChange

/-- Tests if a change declares a variable. -/
def declares (id : Nat) : ScopeChange → Bool
  | add var => var.id == id
  | _ => false

/-- The type that a change records for a variable.  A value has one. -/
def type? (id : Nat) : ScopeChange → Option SequenceType
  | add _ => none
  | setType var type => if var.id = id then some type else none
  | setValue var value => if var.id = id then some value.sequenceType else none

/-- The value that a change records for a variable. -/
def value? (id : Nat) : ScopeChange → Option Value
  | setValue var value => if var.id = id then some value else none
  | _ => none

end ScopeChange

namespace ScopeHistory

/-- The changes since the latest declaration of a variable, if there is one. -/
def sinceDeclared? (id : Nat) : ScopeHistory → Option ScopeHistory
  | [] => none
  | change :: earlier => if change.declares id then some [] else (sinceDeclared? id earlier).map (change :: ·)

/-- The type recorded last for a variable. -/
def lastType? (id : Nat) (history : ScopeHistory) : Option SequenceType := history.findSome? (·.type? id)

/-- The value recorded last for a variable. -/
def lastValue? (id : Nat) (history : ScopeHistory) : Option Value := history.findSome? (·.value? id)

end ScopeHistory

/-- The changes of each open scope after a step, inner scopes first.  The first scope is never closed. -/
def historiesAfter (histories : List ScopeHistory) : ScopeStep → Option (List ScopeHistory)
  | .push => some ([] :: histories)
  | .remove => if histories.tail.isEmpty then none else some histories.tail
  | .within change => some ((change :: histories.headD []) :: histories.tail)

/-- The changes of each scope that some steps leave open, if they can be taken. -/
def openHistories? (histories : List ScopeHistory) : List ScopeStep → Option (List ScopeHistory)
  | [] => some histories
  | first :: rest => (historiesAfter histories first).bind fun histories => openHistories? histories rest

/-- What was recorded since the latest declaration of a variable in the innermost scope that declares it. -/
def visibleBinding? (id : Nat) (histories : List ScopeHistory) : Option ScopeHistory :=
  histories.findSome? (·.sinceDeclared? id)

/-- The visible binding of a variable has no value, and one that it hides has. -/
def HidesValue (id : Nat) (histories : List ScopeHistory) : Prop :=
  ∃ binding, visibleBinding? id histories = some binding ∧ binding.lastValue? id = none ∧
    ∃ history ∈ histories, ∃ hidden, history.sinceDeclared? id = some hidden ∧ hidden.lastValue? id ≠ none

/-! ## One scope -/

/-- The scope with some changes made. -/
def ScopeHistory.scope (history : ScopeHistory) : Scope := history.foldr (fun change s => s.after change) []

namespace Scope

variable {s : Scope} {id changed : Nat} {var : Variable}

theorem get?_add : (s.add var).get? id = if var.id = id then some ⟨var, none, none⟩ else s.get? id := by
  by_cases same : var.id = id
  · simp [add, get?, same]
  · simp [add, get?, same]

theorem get?_cons {entry : ScopeEntry} :
    get? (entry :: s) id = if entry.var.id = id then some entry else s.get? id := by
  by_cases same : entry.var.id = id
  · simp [get?, same]
  · simp [get?, same]

theorem get?_change (f : ScopeEntry → ScopeEntry) (keeps : ∀ entry, (f entry).var = entry.var) :
    (s.change f changed).get? id = if changed = id then (s.get? id).map f else s.get? id := by
  induction s with
  | nil => simp [change, get?]
  | cons entry rest rest_ih =>
      rw [change]
      by_cases here : entry.var.id = changed
      · rw [if_pos here, get?_cons, get?_cons, keeps, here]
        by_cases same : changed = id
        · rw [if_pos same, if_pos same, if_pos same, Option.map_some]
        · rw [if_neg same, if_neg same, if_neg same]
      · rw [if_neg here, get?_cons, get?_cons, rest_ih]
        by_cases declared : entry.var.id = id
        · have other : ¬changed = id := fun same => here (declared.trans same.symm)
          rw [if_pos declared, if_pos declared, if_neg other]
        · rw [if_neg declared, if_neg declared]

/-- A change that does not declare a variable records something for it, or nothing. -/
theorem get?_after {change : ScopeChange} (other : change.declares id = false) :
    (s.after change).get? id = (s.get? id).map fun entry =>
      ⟨entry.var, (change.type? id).or entry.sequenceType, (change.value? id).or entry.value⟩ := by
  cases change with
  | add var =>
      have different : ¬var.id = id := fun same => by simp [ScopeChange.declares, same] at other
      rw [after, get?_add, if_neg different]
      exact Option.map_id'.symm
  | setType var type =>
      rw [after, setType, get?_change (fun entry => { entry with sequenceType := some type }) fun _ => rfl]
      by_cases same : var.id = id
      · simp [ScopeChange.type?, ScopeChange.value?, same]
      · simp [ScopeChange.type?, ScopeChange.value?, same]
  | setValue var value =>
      rw [after, setValue, get?_change
        (fun entry => { entry with sequenceType := some value.sequenceType, value := some value }) fun _ => rfl]
      by_cases same : var.id = id
      · simp [ScopeChange.type?, ScopeChange.value?, same]
      · simp [ScopeChange.type?, ScopeChange.value?, same]

end Scope

namespace ScopeHistory

variable {id : Nat} {history : ScopeHistory}

/-- The changes since the latest declaration are those that come after it. -/
theorem sinceDeclared?_eq_some_iff {since : ScopeHistory} : history.sinceDeclared? id = some since ↔
    ∃ change earlier, change.declares id = true ∧ history = since ++ change :: earlier ∧
      ∀ later ∈ since, later.declares id = false := by
  induction history generalizing since with
  | nil => simp [sinceDeclared?]
  | cons first earlier earlier_ih =>
      rw [sinceDeclared?]
      -- Either this change declares the variable last, or an earlier one does.
      cases declares : first.declares id with
      | true =>
          rw [if_pos rfl, Option.some.injEq]
          constructor
          · rintro rfl
            exact ⟨first, earlier, declares, rfl, List.forall_mem_nil _⟩
          · rintro ⟨change, before, -, same, none⟩
            cases since with
            | nil => rfl
            | cons last others =>
                obtain ⟨rfl, -⟩ := List.cons.inj same
                rw [none first List.mem_cons_self] at declares
                cases declares
      | false =>
          rw [if_neg Bool.false_ne_true, Option.map_eq_some_iff]
          constructor
          · rintro ⟨since, found, rfl⟩
            obtain ⟨change, before, declared, rfl, none⟩ := earlier_ih.1 found
            exact ⟨change, before, declared, rfl, List.forall_mem_cons.2 ⟨declares, none⟩⟩
          · rintro ⟨change, before, declared, same, none⟩
            cases since with
            | nil =>
                obtain ⟨rfl, -⟩ := List.cons.inj same
                rw [declared] at declares
                cases declares
            | cons last others =>
                obtain ⟨rfl, rfl⟩ := List.cons.inj same
                exact ⟨others, earlier_ih.2 ⟨change, before, declared, rfl, (List.forall_mem_cons.1 none).2⟩, rfl⟩

theorem lastType?_cons {change : ScopeChange} :
    lastType? id (change :: history) = (change.type? id).or (history.lastType? id) := by
  rw [lastType?, List.findSome?_cons]
  cases change.type? id <;> rfl

theorem lastValue?_cons {change : ScopeChange} :
    lastValue? id (change :: history) = (change.value? id).or (history.lastValue? id) := by
  rw [lastValue?, List.findSome?_cons]
  cases change.value? id <;> rfl

theorem sinceDeclared?_eq_none_iff :
    history.sinceDeclared? id = none ↔ ∀ change ∈ history, change.declares id = false := by
  induction history with
  | nil => simp [sinceDeclared?]
  | cons first earlier earlier_ih =>
      rw [sinceDeclared?, List.forall_mem_cons, ← earlier_ih]
      cases first.declares id <;> simp

/-- The latest declaration of a variable has what was recorded since. -/
theorem get?_scope : (history.scope.get? id).map (fun entry => (entry.sequenceType, entry.value)) =
    (history.sinceDeclared? id).map fun since => (since.lastType? id, since.lastValue? id) := by
  induction history with
  | nil => rfl
  | cons first earlier earlier_ih =>
      have made : scope (first :: earlier) = (scope earlier).after first := rfl
      rw [made, sinceDeclared?]
      -- A declaration starts anew; every other change is added to what is known.
      cases declares : first.declares id with
      | true =>
          cases first with
          | add var =>
              rw [Scope.after, Scope.get?_add, if_pos (beq_iff_eq.1 declares), if_pos rfl]
              rfl
          | setType | setValue => cases declares
      | false =>
          rw [Scope.get?_after declares, if_neg Bool.false_ne_true, Option.map_map, Option.map_map]
          cases found : (scope earlier).get? id with
          | none =>
              rw [found] at earlier_ih
              rw [Option.map_eq_none_iff.1 earlier_ih.symm]
              rfl
          | some entry =>
              rw [found] at earlier_ih
              obtain ⟨since, declared, same⟩ := Option.map_eq_some_iff.1 earlier_ih.symm
              obtain ⟨type, value⟩ := Prod.mk.inj same
              rw [declared, Option.map_some, Option.map_some, Function.comp_apply, Function.comp_apply,
                lastType?_cons, lastValue?_cons, type, value]

theorem value?_scope : history.scope.value? id = (history.sinceDeclared? id).bind (lastValue? id) := by
  have paired : history.scope.value? id =
      ((history.scope.get? id).map fun entry => (entry.sequenceType, entry.value)).bind (·.2) := by
    rw [Option.bind_map]
    rfl
  rw [paired, get?_scope, Option.bind_map]
  rfl

end ScopeHistory

/-! ## All scopes -/

/-- The first one that has something comes to the same as asking the first one exactly if nothing is behind it when
it has nothing. -/
theorem findSome?_bind_eq_iff {A B C : Type} {f : A → Option B} {g : B → Option C} {l : List A} :
    (l.findSome? fun a => (f a).bind g) = (l.findSome? f).bind g ↔
      ¬∃ b, l.findSome? f = some b ∧ g b = none ∧ ∃ a ∈ l, ∃ b', f a = some b' ∧ g b' ≠ none := by
  induction l with
  | nil => simp
  | cons a rest rest_ih =>
      rw [List.findSome?_cons, List.findSome?_cons]
      cases found : f a with
      | none => simp [found, rest_ih]
      | some b =>
          cases holds : g b with
          | some c => simp [holds]
          | none => simp [found, holds, List.findSome?_eq_none_iff]

namespace CompileContext

variable {c c' : CompileContext} {histories : List ScopeHistory} {id : Nat}

/-- The scopes are those that the changes have made. -/
def MadeBy (histories : List ScopeHistory) (c : CompileContext) : Prop := c.scopes = histories.map ScopeHistory.scope

theorem madeBy_start (context : Context) : (start context).MadeBy [[]] := rfl

/-- One step keeps the scopes to the changes, and is possible with both or with neither. -/
theorem step_madeBy (made : c.MadeBy histories) (step : ScopeStep) :
    (historiesAfter histories step = none ∧ c.step step = .error .scopeUnderflow) ∨
      ∃ histories' c', historiesAfter histories step = some histories' ∧ c.step step = .ok c' ∧
        c'.MadeBy histories' := by
  cases histories with
  | nil => cases made
  | cons innermost outer =>
      obtain ⟨same, others⟩ := List.cons.inj made
      cases step with
      | push => exact .inr ⟨_, _, rfl, rfl, congrArg (List.cons []) made⟩
      | within change =>
          refine .inr ⟨_, _, rfl, rfl, ?_⟩
          rw [MadeBy, scopes, same, List.headD_cons, List.tail_cons]
          exact congrArg (List.cons _) others
      | remove =>
          -- The last scope is not removed.
          cases outer with
          | nil =>
              refine .inl ⟨rfl, ?_⟩
              rw [CompileContext.step, removeScope?, show c.outer = [] from others]
              rfl
          | cons next rest =>
              obtain ⟨scopes, shown⟩ : ∃ scopes, c.outer = next.scope :: scopes := ⟨_, others⟩
              refine .inr ⟨next :: rest, { c with innermost := next.scope, outer := scopes }, rfl, ?_, ?_⟩
              · rw [CompileContext.step, removeScope?, shown]
                rfl
              · exact shown.symm.trans others

/-- Some steps keep the scopes to the changes, and are possible with both or with neither. -/
theorem steps_madeBy (made : c.MadeBy histories) (taken : List ScopeStep) :
    (openHistories? histories taken = none ∧ c.steps taken = .error .scopeUnderflow) ∨
      ∃ histories' c', openHistories? histories taken = some histories' ∧ c.steps taken = .ok c' ∧
        c'.MadeBy histories' := by
  induction taken generalizing c histories with
  | nil => exact .inr ⟨histories, c, rfl, rfl, made⟩
  | cons first rest rest_ih =>
      rw [openHistories?, steps]
      obtain ⟨closed, failed⟩ | ⟨after, between, opened, stepped, kept⟩ := step_madeBy made first
      · rw [closed, failed]
        exact .inl ⟨rfl, rfl⟩
      · rw [opened, stepped]
        exact rest_ih kept

theorem MadeBy.variableType?_eq (made : c.MadeBy histories) :
    c.variableType? id = (visibleBinding? id histories).bind (·.lastType? id) := by
  have same : (c.scopes.findSome? (·.get? id)).map (fun entry => (entry.sequenceType, entry.value)) =
      (visibleBinding? id histories).map fun since => (since.lastType? id, since.lastValue? id) := by
    rw [made, List.findSome?_map, visibleBinding?, List.map_findSome?, List.map_findSome?]
    exact congrArg (histories.findSome? ·) (funext fun history => ScopeHistory.get?_scope)
  have first := congrArg (fun found => found.bind (·.1)) same
  rwa [Option.bind_map, Option.bind_map] at first

theorem MadeBy.variableValue?_eq (made : c.MadeBy histories) :
    c.variableValue? id = histories.findSome? fun history => (history.sinceDeclared? id).bind (·.lastValue? id) := by
  rw [variableValue?, made, List.findSome?_map]
  exact congrArg (histories.findSome? ·) (funext fun history => ScopeHistory.value?_scope)

theorem MadeBy.variableValue?_eq_iff (made : c.MadeBy histories) :
    c.variableValue? id = (visibleBinding? id histories).bind (·.lastValue? id) ↔ ¬HidesValue id histories := by
  rw [made.variableValue?_eq]
  exact findSome?_bind_eq_iff

end CompileContext

/-- The visible binding is that of the latest declaration in the innermost scope with one. -/
theorem visibleBinding?_eq_some_iff {id : Nat} {histories : List ScopeHistory} {binding : ScopeHistory} :
    visibleBinding? id histories = some binding ↔ ∃ inner history outer, histories = inner ++ history :: outer ∧
      (∀ closer ∈ inner, ∀ change ∈ closer, change.declares id = false) ∧
      ∃ change earlier, change.declares id = true ∧ history = binding ++ change :: earlier ∧
        ∀ later ∈ binding, later.declares id = false := by
  rw [visibleBinding?, List.findSome?_eq_some_iff]
  constructor
  · rintro ⟨inner, history, outer, same, declared, others⟩
    exact ⟨inner, history, outer, same,
      fun closer member => ScopeHistory.sinceDeclared?_eq_none_iff.1 (others closer member),
      ScopeHistory.sinceDeclared?_eq_some_iff.1 declared⟩
  · rintro ⟨inner, history, outer, same, others, declared⟩
    exact ⟨inner, history, outer, same, ScopeHistory.sinceDeclared?_eq_some_iff.2 declared,
      fun closer member => ScopeHistory.sinceDeclared?_eq_none_iff.2 (others closer member)⟩

/-! ## References -/

section References

variable {c : CompileContext} {var : Variable} {type : StaticType} {location : Option Location}

theorem reduceReference_of_value {v : Value} (found : c.variableValue? var.id = some v) :
    Compile.reduceReference var type location c =
      Compile.replaceWith (.varRef var type location) (.literal v) c := by
  rw [Compile.reduceReference, Compile.bind_apply, Compile.state]
  simp only [found]

theorem reduceReference_of_unknown (missing : c.variableValue? var.id = none) :
    Compile.reduceReference var type location c =
      (.ok (.varRef var ((c.variableType? var.id).elim type .ofSequenceType) location), c) := by
  rw [Compile.reduceReference, Compile.bind_apply, Compile.state]
  simp only [missing]
  cases c.variableType? var.id <;> rfl

end References

/-- Scopes may be opened and closed, but for the first one, and variables be declared in them.  Then the type of a
variable is the one recorded last for its visible binding.  The value is the one of the innermost scope that has one
for its latest declaration.  That is the value of the visible binding, if any, exactly if that does not hide a value
without having one; and then it is what a reference becomes, and one to a variable without a value has the type. -/
theorem bindings_after_steps (context : Context) (taken : List ScopeStep) (id : Nat) :
    ((CompileContext.start context).steps taken = .error .scopeUnderflow ↔ openHistories? [[]] taken = none) ∧
    ∀ c, (CompileContext.start context).steps taken = .ok c → ∃ histories,
      openHistories? [[]] taken = some histories ∧
      c.variableType? id = (visibleBinding? id histories).bind (·.lastType? id) ∧
      (c.variableValue? id =
        histories.findSome? fun history => (history.sinceDeclared? id).bind (·.lastValue? id)) ∧
      (c.variableValue? id = (visibleBinding? id histories).bind (·.lastValue? id) ↔ ¬HidesValue id histories) ∧
      (¬HidesValue id histories → ∀ (var : Variable) (type : StaticType) (location : Option Location), var.id = id →
        (∀ v, (visibleBinding? id histories).bind (·.lastValue? id) = some v →
          Compile.reduceReference var type location c =
            Compile.replaceWith (.varRef var type location) (.literal v) c) ∧
        ((visibleBinding? id histories).bind (·.lastValue? id) = none →
          Compile.reduceReference var type location c =
            (.ok (.varRef var (((visibleBinding? id histories).bind (·.lastType? id)).elim type .ofSequenceType)
              location), c))) := by
  obtain ⟨closed, failed⟩ | ⟨histories, after, opened, ran, made⟩ :=
    CompileContext.steps_madeBy (CompileContext.madeBy_start context) taken
  · refine ⟨iff_of_true failed closed, fun c ran => ?_⟩
    rw [failed] at ran
    cases ran
  · refine ⟨iff_of_false (fun failed => ?_) (fun closed => ?_), fun c ran' => ?_⟩
    · rw [ran] at failed
      cases failed
    · rw [opened] at closed
      cases closed
    · rw [ran] at ran'
      cases ran'
      refine ⟨histories, opened, made.variableType?_eq, made.variableValue?_eq, made.variableValue?_eq_iff, ?_⟩
      -- What is looked up is what the innermost declaration says, unless that is hidden.
      rintro shown var type location rfl
      have value := made.variableValue?_eq_iff.2 shown
      refine ⟨fun v known => reduceReference_of_value (value.trans known), fun unknown => ?_⟩
      rw [reduceReference_of_unknown (value.trans unknown), made.variableType?_eq]

/-- A reference to a variable that is declared again inside becomes the inner value. -/
theorem bindings_after_steps_inside :
    let three : Value := .one (.atom (.integer 3))
    let four : Value := .one (.atom (.integer 4))
    let x : Variable := ⟨0, "x", none⟩
    ∃ c, (CompileContext.start (Context.initial {})).steps
        [.push, .within (.add x), .within (.setValue x three), .push, .within (.add x),
          .within (.setValue x four)] = .ok c ∧
      Compile.reduceReference x (.ofSequenceType .anything) none c =
        Compile.replaceWith (.varRef x (.ofSequenceType .anything) none) (.literal four) c := by
  intro three four x
  obtain ⟨-, each⟩ := bindings_after_steps (Context.initial {})
    [.push, .within (.add x), .within (.setValue x three), .push, .within (.add x), .within (.setValue x four)] 0
  obtain ⟨histories, opened, -, -, -, reference⟩ := each _ rfl
  cases opened
  refine ⟨_, rfl, (reference ?_ x _ none rfl).1 four rfl⟩
  rintro ⟨binding, visible, unknown, -⟩
  cases visible
  cases unknown

/-- Where `x` is three outside and any string inside, a reference inside becomes three. -/
theorem hidden_value_substituted :
    let three : Value := .one (.atom (.integer 3))
    let x : Variable := ⟨0, "x", none⟩
    let string : SequenceType := .one (.atomic .string)
    let taken := [.within (.add x), .within (.setValue x three), .push, .within (.add x), .within (.setType x string)]
    ∃ c histories, (CompileContext.start (Context.initial {})).steps taken = .ok c ∧
      openHistories? [[]] taken = some histories ∧
      (visibleBinding? 0 histories).map (fun binding => (binding.lastType? 0, binding.lastValue? 0)) =
        some (some string, none) ∧
      c.variableType? 0 = some string ∧ c.variableValue? 0 = some three ∧
      Compile.reduceReference x (.ofSequenceType .anything) none c =
        Compile.replaceWith (.varRef x (.ofSequenceType .anything) none) (.literal three) c :=
  ⟨_, _, rfl, rfl, rfl, rfl, rfl, rfl⟩

end QueryKernel
