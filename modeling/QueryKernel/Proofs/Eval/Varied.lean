import QueryKernel.Proofs.Eval.Unless

/-!
# Expressions with some parts changed

An expression and another one that differs in some of its parts and in how its variables are bound.  If each part
that has been changed gives the same unless it gives up, so does the whole.

A part may also have been replaced by one of which more is known.  That shows where the static type of a part decides
how the whole is evaluated: in the body of a binding, whether it is at most one item, and in what is counted or is a
predicate itself.  Only the first is allowed to change.
-/

namespace QueryKernel

variable {excuse : Excuse} {calls calls' : Calls}

/-- Asked for a boolean value, the stream answers with the single item. -/
def Modes.Single (excuse : Excuse) (m : Modes) : Prop :=
  ∀ location, (booleanItemOfStream location m.stream).SameUnless excuse Eq
    (do return (← m.item).getD (.boolean false))

namespace Expr

/-- The second expression gives what the first one gives, unless that gives up; and it is known to be at most one
item where the first one is, or its stream answers like its single item. -/
structure StandsIn (excuse : Excuse) (calls calls' : Calls) (e e' : Expr) : Prop where
  modes : (e.modes calls).SameUnless excuse (e'.modes calls')
  atMostOne : e'.isAtMostOne = e.isAtMostOne ∨ e.isAtMostOne = false ∧ (e'.modes calls').Single excuse

/-- The second expression is the first one with some parts changed, and with variables that are bound in another
way. -/
inductive Varied (changed : Expr → Expr → Prop) (binds : Variable → Variable → Prop) : Expr → Expr → Prop where
  | part {e e' : Expr} (given : changed e e') : Varied changed binds e e'
  | literal {v : Value} : Varied changed binds (.literal v) (.literal v)
  | list {pairs : List (Expr × Expr)} {type : StaticType} {location : Option Location}
      (parts : ∀ pair ∈ pairs, Varied changed binds pair.1 pair.2) :
      Varied changed binds (.list (pairs.map Prod.fst) type location) (.list (pairs.map Prod.snd) type location)
  | range {first last first' last' : Expr} {type : StaticType} {location : Option Location}
      (low : Varied changed binds first first') (high : Varied changed binds last last') :
      Varied changed binds (.range first last type location) (.range first' last' type location)
  | arithmetic {op : Operator} {a b a' b' : Expr} {type : StaticType} {location : Option Location}
      (left : Varied changed binds a a') (right : Varied changed binds b b') :
      Varied changed binds (.arithmetic op a b type location) (.arithmetic op a' b' type location)
  | comparison {op : Comparison} {a b a' b' : Expr} {type : StaticType} {location : Option Location}
      (left : Varied changed binds a a') (right : Varied changed binds b b') :
      Varied changed binds (.comparison op a b type location) (.comparison op a' b' type location)
  | conditional {test yes no test' yes' no' : Expr} {type : StaticType} {location : Option Location}
      (condition : Varied changed binds test test') (positive : Varied changed binds yes yes')
      (negative : Varied changed binds no no') :
      Varied changed binds (.conditional test yes no type location) (.conditional test' yes' no' type location)
  | contextValue {type : StaticType} {location : Option Location} :
      Varied changed binds (.contextValue type location) (.contextValue type location)
  | root {location : Option Location} : Varied changed binds (.root location) (.root location)
  | documents {source : DataSource} {location : Option Location} :
      Varied changed binds (.documents source location) (.documents source location)
  | filter {base base' : Expr} {pairs : List (Expr × Expr)} {type : StaticType} {location : Option Location}
      (input : Varied changed binds base base')
      (positions : ∀ pair ∈ pairs, pair.2.position? = pair.1.position?)
      (conditions : ∀ pair ∈ pairs, Varied changed binds pair.1 pair.2) :
      Varied changed binds (.filter base (pairs.map Prod.fst) type location)
        (.filter base' (pairs.map Prod.snd) type location)
  | letIn {var var' : Variable} {bound body bound' body' : Expr} {location : Option Location}
      (bind : binds var var') (value : Varied changed binds bound bound')
      (result : Varied changed binds body body') :
      Varied changed binds (.letIn var bound body location) (.letIn var' bound' body' location)
  | forIn {var var' : Variable} {source body source' body' : Expr} {type : StaticType}
      {location : Option Location} (bind : binds var var') (input : Varied changed binds source source')
      (result : Varied changed binds body body') :
      Varied changed binds (.forIn var source body type location) (.forIn var' source' body' type location)
  | varRef {var var' : Variable} {type : StaticType} {location : Option Location} (number : var'.id = var.id)
      (name : var'.name = var.name) :
      Varied changed binds (.varRef var type location) (.varRef var' type location)
  | call {f : BuiltIn} {pairs : List (Expr × Expr)} {type : StaticType} {location : Option Location}
      (counted : f = .count → ∀ pair ∈ pairs, pair.2.size? = pair.1.size?)
      (parts : ∀ pair ∈ pairs, Varied changed binds pair.1 pair.2) :
      Varied changed binds (.call f (pairs.map Prod.fst) type location) (.call f (pairs.map Prod.snd) type location)
  | deferred {error : Error} {type : StaticType} {location : Option Location} :
      Varied changed binds (.deferred error type location) (.deferred error type location)
  | dynamicCall {callee callee' : Expr} {pairs : List (Expr × Expr)} {type : StaticType}
      {location : Option Location} (function : Varied changed binds callee callee')
      (parts : ∀ pair ∈ pairs, Varied changed binds pair.1 pair.2) :
      Varied changed binds (.dynamicCall callee (pairs.map Prod.fst) type location)
        (.dynamicCall callee' (pairs.map Prod.snd) type location)
  | delete {target target' : Expr} {location : Option Location} (input : Varied changed binds target target') :
      Varied changed binds (.delete target location) (.delete target' location)

variable {changed : Expr → Expr → Prop} {binds : Variable → Variable → Prop} {e e' : Expr}

/-- A node whose static type is its own. -/
theorem StandsIn.ofModes (same : (e.modes calls).SameUnless excuse (e'.modes calls'))
    (typed : e'.staticType = e.staticType) : e.StandsIn excuse calls calls' e' :=
  ⟨same, .inl (by rw [isAtMostOne, isAtMostOne, sequenceType, sequenceType, typed])⟩

theorem ofStreamAndItem_single {x y : Eval Stream} {i j : Eval (Option Item)} {v w : Eval Value}
    (location : Option Location)
    (atMostOne : Bool) (stream : x.SameUnless excuse (Stream.SameUnless excuse) y) (item : i.SameUnless excuse Eq j)
    (value : v.SameUnless excuse Eq w) (single : (booleanItemOfStream location y).SameUnless excuse Eq
      (do return (← j).getD (.boolean false))) :
    Modes.SameUnless excuse { Modes.ofStreamAndItem location false x i with value := v }
      { Modes.ofStreamAndItem location atMostOne y j with value := w } := by
  have asked := booleanItemOfStream_sameUnless (.inl (Eq.refl location)) stream
  refine ⟨.inl rfl, stream, item, value, ?_⟩
  cases atMostOne with
  | true => exact asked.trans single
  | false => exact asked

/-- Behind a computation the stream still answers like the single item. -/
theorem Single.after {A : Type} {x : Eval A} {m : Modes} (single : m.Single excuse) (location : Option Location) :
    (booleanItemOfStream location (x >>= fun _ => m.stream)).SameUnless excuse Eq
      (do return (← x >>= fun _ => m.item).getD (.boolean false)) := by
  have started : booleanItemOfStream location (x >>= fun _ => m.stream) =
      x >>= fun _ => booleanItemOfStream location m.stream := Eval.bind_assoc ..
  have asked : (do return (← x >>= fun _ => m.item).getD (.boolean false) : Eval Item) =
      x >>= fun _ => do return (← m.item).getD (.boolean false) := Eval.bind_assoc ..
  rw [started, asked]
  exact .followed (.refl x) fun _ => single location

theorem StandsIn.letIn {var var' : Variable} {bound bound' body body' : Expr} {location : Option Location}
    (binding : (bindTo var location (bound.modes calls)).SameUnless excuse Eq
      (bindTo var' location (bound'.modes calls'))) (result : body.StandsIn excuse calls calls' body') :
    (letIn var bound body location).StandsIn excuse calls calls' (letIn var' bound' body' location) := by
  have stream := binding.followed fun _ => result.modes.stream
  have item := binding.followed fun _ => result.modes.item
  have value := binding.followed fun _ => result.modes.value
  have single : body'.isAtMostOne = body.isAtMostOne ∨ body.isAtMostOne = false ∧ ∀ place,
      (booleanItemOfStream place (bindTo var' location (bound'.modes calls') >>= fun _ =>
        (body'.modes calls').stream)).SameUnless excuse Eq
        (do return (← bindTo var' location (bound'.modes calls') >>= fun _ =>
          (body'.modes calls').item).getD (.boolean false)) :=
    result.atMostOne.imp_right fun ⟨many, single⟩ => ⟨many, Single.after single⟩
  refine ⟨?_, single⟩
  obtain same | ⟨many, single⟩ := single
  · simp only [Expr.modes, same]
    exact { Modes.ofStreamAndItem_sameUnless (.inl (Eq.refl location)) _ stream item with value }
  · simp only [Expr.modes, many]
    exact ofStreamAndItem_single location _ stream item value (single location)

theorem BuiltIn.modes_size {f : BuiltIn} (other : f ≠ .count) (location : Option Location) (atMostOne : Bool)
    (size? size?' : Option Nat) (arguments : List Modes) :
    f.modes calls location atMostOne size? arguments = f.modes calls location atMostOne size?' arguments := by
  cases f with
  | count => exact absurd rfl other
  | _ => rfl

/-- If what has been changed stands for what was there, the whole does so too. -/
theorem Varied.standsIn (called : calls.SameUnless excuse calls')
    (replaced : ∀ {e e'}, changed e e' → e.StandsIn excuse calls calls' e')
    (bound : ∀ {var var'}, binds var var' → ∀ location v,
      (bindVariable var location v).SameUnless excuse Eq (bindVariable var' location v))
    (varied : e.Varied changed binds e') : e.StandsIn excuse calls calls' e' := by
  induction varied with
  | part given => exact replaced given
  | literal | contextValue | root | documents | deferred => exact .ofModes (.refl _) rfl
  | varRef number name =>
      refine .ofModes ?_ rfl
      simp only [modes]
      refine Modes.ofValue_sameUnless _ _ ?_
      unfold variableValue Context.lookup?
      rw [number, name]
      exact .refl _
  | @list pairs type location _ parts_ih =>
      have each : SameUnlessAll excuse (modes calls ∘ Prod.fst) (modes calls' ∘ Prod.snd) pairs :=
        fun pair member => (parts_ih pair member).modes
      have whole := ofList_sameUnless location type.sequenceType.isAtMostOne each
      rw [← List.map_map, ← List.map_map, ← modesAll_eq_map, ← modesAll_eq_map] at whole
      refine .ofModes ?_ rfl
      rw [modes, modes]
      exact whole
  | range _ _ low_ih high_ih =>
      refine .ofModes ?_ rfl
      simp only [modes]
      exact Modes.ofValue_sameUnless _ _ (rangeValue_sameUnless low_ih.modes high_ih.modes)
  | arithmetic _ _ left_ih right_ih =>
      refine .ofModes ?_ rfl
      simp only [modes]
      exact Modes.ofItem_sameUnless _ _ (onAtoms_sameUnless left_ih.modes right_ih.modes)
  | comparison _ _ left_ih right_ih =>
      refine .ofModes ?_ rfl
      simp only [modes]
      exact Modes.ofItem_sameUnless _ _ (onAtoms_sameUnless left_ih.modes right_ih.modes)
  | conditional _ _ _ condition_ih positive_ih negative_ih =>
      have condition := condition_ih.modes
      have positive := positive_ih.modes
      have negative := negative_ih.modes
      refine .ofModes ?_ rfl
      simp only [modes]
      exact ⟨.inl rfl, choose_sameUnless condition positive.stream negative.stream,
        choose_sameUnless condition positive.item negative.item,
        choose_sameUnless condition positive.value negative.value,
        choose_sameUnless condition positive.booleanItem negative.booleanItem⟩
  | @filter base base' pairs type location _ positions _ input_ih conditions_ih =>
      -- Which predicates are positions is read off before evaluation.
      have same : (pairs.map Prod.snd).map (·.position?) = (pairs.map Prod.fst).map (·.position?) := by
        rw [List.map_map, List.map_map]
        exact List.map_congr_left positions
      refine .ofModes ?_ rfl
      simp only [modes]
      rw [same]
      simp only [modesAll_eq_map, List.map_map, List.zip_map']
      exact Modes.ofValue_sameUnless location _ (filterValue_sameUnless (fun pair => pair.1.position?)
        input_ih.modes fun pair member => (conditions_ih pair member).modes)
  | letIn bind _ _ value_ih result_ih =>
      exact .letIn (value_ih.modes.value.followed fun v => bound bind _ v) result_ih
  | forIn bind _ _ input_ih result_ih =>
      refine .ofModes ?_ rfl
      simp only [modes]
      refine Modes.ofStream_sameUnless _ _ (input_ih.modes.stream.bind fun s t related => .pure (.ofPulls fun c => ?_))
      refine Stream.forEach_sameUnless (related.pull c) fun item => .followed (.refl _) fun _ => ?_
      exact (bound bind _ _).followed fun _ => result_ih.modes.stream
  | @call f pairs type location counted _ parts_ih =>
      have each : SameUnlessAll excuse (fun pair : Expr × Expr => pair.1.modes calls)
          (fun pair => pair.2.modes calls') pairs := fun pair member => (parts_ih pair member).modes
      refine .ofModes ?_ rfl
      simp only [modes, modesAll_eq_map, List.map_map]
      -- What is known of the size matters only to what is counted.
      by_cases counts : f = .count
      · have sizes : ((pairs.map Prod.snd).head?).bind (·.size?) = ((pairs.map Prod.fst).head?).bind (·.size?) := by
          cases pairs with
          | nil => rfl
          | cons pair rest => exact counted counts pair List.mem_cons_self
        rw [sizes]
        exact f.modes_sameUnless called each _ _
      · rw [BuiltIn.modes_size counts _ _ (((pairs.map Prod.snd).head?).bind (·.size?))
          (((pairs.map Prod.fst).head?).bind (·.size?))]
        exact f.modes_sameUnless called each _ _
  | @dynamicCall callee callee' pairs type location _ _ function_ih parts_ih =>
      have each : SameUnlessAll excuse (fun pair : Expr × Expr => pair.1.modes calls)
          (fun pair => pair.2.modes calls') pairs := fun pair member => (parts_ih pair member).modes
      refine .ofModes ?_ rfl
      simp only [modes, modesAll_eq_map, List.map_map]
      have value : Eval.SameUnless excuse Eq (dynamicValue calls (callee.modes calls)
          (pairs.map fun pair => pair.1.modes calls) location) (dynamicValue calls' (callee'.modes calls')
          (pairs.map fun pair => pair.2.modes calls') location) :=
        dynamicValue_sameUnless called function_ih.modes each
      exact Modes.ofValueAndItem_sameUnless (.inl rfl) _ value value.andThen
  | delete _ input_ih =>
      refine .ofModes ?_ rfl
      simp only [modes]
      exact Modes.ofValue_sameUnless _ _ (deleteAll_sameUnless input_ih.modes)

end Expr

end QueryKernel
