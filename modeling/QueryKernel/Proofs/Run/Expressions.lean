import QueryKernel.Proofs.Run.Nodes

/-!
# Evaluation follows the outcomes

Wherever evaluation of an expression succeeds, whichever way it is asked for, it gives the items of every
outcome of the expression and records the updates of that outcome.

This is so of every outcome.  Two expressions that share one outcome therefore give the same when both succeed.
-/

namespace QueryKernel

theorem isRange_reverse (v : Value) : v.reverse.isRange = false := by
  cases v with
  | empty | one item => rfl
  | flat items tag | range r | tree rope tag => exact isRange_ofBundle _ _

namespace Expr

variable {numbers : Numbers} {calls : Calls} {visible : Visible} {compiled : Bool} {e : Expr}
  {es : List Expr} {location : Option Location} {type : StaticType}

/-! ## Operations, calls and updates -/

/-- Two operands follow their outcomes, the second one wherever the first has led. -/
theorem operands_follow {a b : Expr} {ids : List Nat} {env : Env} {c : Context} {x y : Sequence}
    (apart : visible.Apart ids) (left : a.Agrees numbers calls visible)
    (right : b.Agrees numbers calls visible) (leftSubset : a.binders ⊆ ids) (rightSubset : b.binders ⊆ ids)
    (describes : env.Describes visible c) (leftFits : a.Fits env) (rightFits : b.Fits env)
    (decided : a.Decided numbers calls visible c ∧ b.Decided numbers calls visible c)
    (first : a.outcomes numbers env x []) (second : b.outcomes numbers env y []) :
    (a.modes calls).Follows (visible.including ids) ids c x [] ∧
      ∀ c', c.Leads ids c' [] → (b.modes calls).Follows (visible.including ids) ids c' y [] :=
  ⟨left.operand leftSubset describes leftFits decided.1 first, fun _ led =>
    right.operand rightSubset (describes.alike (led.alike apart)) rightFits
      (decided.2.alike (led.alike apart)) second⟩

theorem range_follows {a b : Expr} (apart : visible.Apart (range a b type location).binders)
    (low : a.Placed compiled visible) (high : b.Placed compiled visible)
    (left : a.Agrees numbers calls visible) (right : b.Agrees numbers calls visible) :
    (range a b type location).Agrees numbers calls visible := by
  rintro env c s updates describes ⟨_, leftFits, rightFits⟩ decided ⟨x, y, first, second, same, rfl⟩
  obtain ⟨here, later⟩ := operands_follow apart left right (List.subset_append_left _ _)
    (List.subset_append_right _ _) describes leftFits rightFits decided first second
  exact .ofValue (rangeValue_gives here (low.plain leftFits first).2 later (high.plain rightFits second).2 same)

/-- An operation on two atoms. -/
theorem operation_gives {operation : Atom → Atom → Except AtomError Item} {a b : Expr} {ids : List Nat}
    {env : Env} {c : Context} {s x y : Sequence} (apart : visible.Apart ids) (leftPlaced : a.Placed compiled visible)
    (rightPlaced : b.Placed compiled visible) (left : a.Agrees numbers calls visible)
    (right : b.Agrees numbers calls visible) (leftSubset : a.binders ⊆ ids) (rightSubset : b.binders ⊆ ids)
    (describes : env.Describes visible c) (leftFits : a.Fits env) (rightFits : b.Fits env)
    (decided : a.Decided numbers calls visible c ∧ b.Decided numbers calls visible c)
    (first : a.outcomes numbers env x []) (second : b.outcomes numbers env y [])
    (same : s.From (operate operation x.items y.items) false) :
    (onAtoms (a.modes calls) (b.modes calls) location operation).Gives ids c [] fun found =>
      s.items = found.toList := by
  obtain ⟨here, later⟩ := operands_follow apart left right leftSubset rightSubset describes leftFits rightFits
    decided first second
  refine (onAtoms_gives here (leftPlaced.plain leftFits first).2 later
    (rightPlaced.plain rightFits second).2).weaken fun _ => same.items_eq.trans

theorem arithmetic_follows {op : Operator} {a b : Expr}
    (apart : visible.Apart (arithmetic op a b type location).binders)
    (leftPlaced : a.Placed compiled visible) (rightPlaced : b.Placed compiled visible)
    (left : a.Agrees numbers calls visible) (right : b.Agrees numbers calls visible) :
    (arithmetic op a b type location).Agrees numbers calls visible := by
  rintro env c s updates describes ⟨_, leftFits, rightFits⟩ decided ⟨x, y, first, second, same, rfl⟩
  exact .ofItem (operation_gives apart leftPlaced rightPlaced left right (List.subset_append_left _ _)
    (List.subset_append_right _ _) describes leftFits rightFits decided first second same)

theorem comparison_follows {op : Comparison} {a b : Expr}
    (apart : visible.Apart (comparison op a b type location).binders)
    (leftPlaced : a.Placed compiled visible) (rightPlaced : b.Placed compiled visible)
    (left : a.Agrees numbers calls visible) (right : b.Agrees numbers calls visible) :
    (comparison op a b type location).Agrees numbers calls visible := by
  rintro env c s updates describes ⟨_, leftFits, rightFits⟩ decided ⟨x, y, first, second, same, rfl⟩
  exact .ofItem (operation_gives apart leftPlaced rightPlaced left right (List.subset_append_left _ _)
    (List.subset_append_right _ _) describes leftFits rightFits decided first second same)

theorem call_follows {f : BuiltIn} (apart : visible.Apart (bindersAll es)) (firstOrder : f.isHigherOrder = false)
    (takes : f.takes es.length = true) (placed : ∀ e ∈ es, e.Placed compiled visible)
    (each : ∀ e ∈ es, e.Agrees numbers calls visible) :
    (call f es type location).Agrees numbers calls visible := by
  rintro env c s updates describes ⟨_, fits⟩ decided ⟨given, results, same, rfl⟩
  -- An argument follows its outcome wherever the arguments before it have led.
  have argument : ∀ e ∈ es, ∀ t, e.outcomes numbers env t [] → ∀ c', c.Leads (bindersAll es) c' [] →
      (e.modes calls).Follows (visible.including (bindersAll es)) (bindersAll es) c' t [] := by
    intro e member t given c' led
    have alike := led.alike apart
    exact (each e member).operand (binders_part (e := call f es type location) member).subset (describes.alike alike)
      (fitsAll_iff.1 fits e member) ((decidedAll_iff.1 decided e member).alike alike) given
  have here := Context.leads_refl (bindersAll es) c
  cases f with
  | head =>
      obtain ⟨a, rfl⟩ := oneArgument takes rfl rfl
      obtain ⟨t, first, rfl⟩ := outcomesEach_one.1 results
      have follows := argument a List.mem_cons_self t first c here
      exact .ofItemAndValue ((head_gives follows.stream).weaken fun _ => same.items_eq.trans)
  | count =>
      obtain ⟨a, rfl⟩ := oneArgument takes rfl rfl
      obtain ⟨t, first, rfl⟩ := outcomesEach_one.1 results
      have follows := argument a List.mem_cons_self t first c here
      have allows := ((placed a List.mem_cons_self).plain (fitsAll_iff.1 fits a List.mem_cons_self) first).1
      have counted := countOf_gives (fun n (known : a.size? = some n) => (allows.exact n known).symm) follows.stream
      refine .ofItemAndValue (counted.finish fun item whole => ?_)
      rw [same.items_eq, whole]
      rfl
  | sum =>
      have bounds := takes_iff.1 takes
      match es with
      | [] => simp [BuiltIn.leastArguments] at bounds
      | [a] =>
          obtain ⟨t, first, rfl⟩ := outcomesEach_one.1 results
          have follows := argument a List.mem_cons_self t first c here
          refine .ofItemAndValue (Eval.Gives.weaken ?_ fun _ => same.items_eq.trans)
          exact sumOf_gives [standIn] follows.value fun _ _ => .pure rfl
      | [a, b] =>
          obtain ⟨t, u, first, second, rfl⟩ := outcomesEach_two.1 results
          have follows := argument a List.mem_cons_self t first c here
          refine .ofItemAndValue (Eval.Gives.weaken ?_ fun _ => same.items_eq.trans)
          refine sumOf_gives [] follows.value fun c' led => ?_
          have other := argument b (List.mem_cons_of_mem _ List.mem_cons_self) u second c' led
          refine other.item.weaken fun found whole => ?_
          rw [whole]
          cases found <;> rfl
      | _ :: _ :: _ :: rest => simp [BuiltIn.mostArguments] at bounds
  | avg =>
      obtain ⟨a, rfl⟩ := oneArgument takes rfl rfl
      obtain ⟨t, first, rfl⟩ := outcomesEach_one.1 results
      have follows := argument a List.mem_cons_self t first c here
      exact .ofItemAndValue ((averageOf_gives follows.value).weaken fun _ => same.items_eq.trans)
  | reverse =>
      obtain ⟨a, rfl⟩ := oneArgument takes rfl rfl
      obtain ⟨t, first, rfl⟩ := outcomesEach_one.1 results
      have follows := argument a List.mem_cons_self t first c here
      refine .ofValueAndSingle (follows.value.finish fun v whole => ?_)
      obtain ⟨shaped, items⟩ := v.reverse_shaped
      refine shaped.isSequence (isRange_reverse v) ?_
      rw [same.items_eq, items, ← whole.items_eq]
      rfl
  | error =>
      refine .ofItemAndValue fun found c' ran => ?_
      obtain ⟨_, _, _, failed⟩ := Eval.bind_ok_iff.1 ran
      exact (Eval.fail_ok_iff.1 failed).elim
  | foldLeft1 => cases firstOrder
  | sortWith => cases firstOrder

theorem deferred_follows {error : Error} : (deferred error type location).Agrees numbers calls visible := by
  rintro env c s updates _ _ _ ⟨_, rfl⟩
  exact .ofValueAndItem .fail .fail

theorem delete_follows {target : Expr} (agrees : target.Agrees numbers calls visible) :
    (delete target location).Agrees numbers calls visible := by
  rintro env c s updates describes ⟨_, fits⟩ decided ⟨t, given, same, rfl⟩
  have follows := agrees env c t [] describes fits decided given
  exact .ofValue (deleteAll_gives follows same.items_eq)

/-! ## All expressions -/

/-- Each variable is bound once, and none of those that are visible. -/
structure Distinct (visible : Visible) (e : Expr) : Prop where
  apart : visible.Apart e.binders
  nodup : e.binders.Nodup

theorem Distinct.part {s : Expr} (distinct : e.Distinct visible) (member : s ∈ e.parts) : s.Distinct visible :=
  ⟨distinct.apart.fewer (binders_part member).subset, distinct.nodup.sublist (binders_part member)⟩

theorem Distinct.focused (distinct : e.Distinct visible) : e.Distinct visible.focused :=
  ⟨Visible.focused_apart distinct.apart, distinct.nodup⟩

/-- The body of a binding, with the variable that is bound. -/
theorem Distinct.body {id : Nat} {body : Expr} (distinct : e.Distinct visible)
    (binds : (id :: body.binders).Sublist e.binders) : body.Distinct (visible.add id) := by
  obtain ⟨foreign, nodup⟩ := List.nodup_cons.1 (distinct.nodup.sublist binds)
  have inside : body.binders ⊆ e.binders := fun other member => binds.subset (List.mem_cons_of_mem _ member)
  exact ⟨Visible.add_apart (distinct.apart.fewer inside) foreign, nodup⟩

theorem Placed.agrees (placed : e.Placed compiled visible) (distinct : e.Distinct visible) :
    e.Agrees numbers calls visible := by
  induction placed with
  | literal simple =>
      rintro env c s updates _ _ _ ⟨same, rfl⟩
      exact .ofLiteral ⟨simple.shaped, same⟩
  | list _ parts_ih => exact list_follows distinct.apart fun e member => parts_ih e member (distinct.part member)
  | range low high _ low_ih high_ih =>
      refine range_follows distinct.apart low high (low_ih (distinct.part ?_)) (high_ih (distinct.part ?_)) <;>
        simp [parts]
  | arithmetic left right _ left_ih right_ih =>
      refine arithmetic_follows distinct.apart left right (left_ih (distinct.part ?_))
        (right_ih (distinct.part ?_)) <;> simp [parts]
  | comparison left right _ left_ih right_ih =>
      refine comparison_follows distinct.apart left right (left_ih (distinct.part ?_))
        (right_ih (distinct.part ?_)) <;> simp [parts]
  | conditional _ _ _ _ condition_ih positive_ih negative_ih =>
      refine conditional_follows distinct.apart (condition_ih (distinct.part ?_))
        (positive_ih (distinct.part ?_)) (negative_ih (distinct.part ?_)) <;> simp [parts]
  | contextValue seen => exact contextValue_follows seen
  | root seen around => exact root_follows seen around
  | documents => exact documents_follows
  | filter input conditions _ input_ih conditions_ih =>
      refine filter_follows distinct.apart input (input_ih (distinct.part List.mem_cons_self)) fun e member => ?_
      exact conditions_ih e member (distinct.part (List.mem_cons_of_mem _ member)).focused
  | letIn _ value _ _ value_ih result_ih =>
      exact letIn_follows distinct.apart value (value_ih (distinct.part List.mem_cons_self))
        (result_ih (distinct.body (List.sublist_append_right _ _)))
  | forIn _ input _ _ input_ih result_ih =>
      exact forIn_follows distinct.apart distinct.nodup input (input_ih (distinct.part List.mem_cons_self))
        (result_ih (distinct.body (List.sublist_append_right _ _)))
  | varRef seen => exact varRef_follows seen
  | call firstOrder takes placed _ parts_ih =>
      exact call_follows distinct.apart firstOrder takes placed fun e member => parts_ih e member (distinct.part member)
  | deferred => exact deferred_follows
  | delete _ _ input_ih => exact delete_follows (input_ih (distinct.part List.mem_cons_self))

end Expr

end QueryKernel
