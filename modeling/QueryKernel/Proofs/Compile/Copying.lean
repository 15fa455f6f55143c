import QueryKernel.Proofs.Mirror.Enclosed

/-!
# Copies keep meaning and variables apart

A copy binds variables that have never been bound before, and gives what the original gives in any context in
which the variables that replace others hold what the others held.

Function items are not copied.  They run with all variables in reach, so the second is right only if they leave the
variables of the original and of the copy alone (`Expr.LeftAlone`): those that are bound in it, and those that are
replaced.
-/

namespace QueryKernel

/-- The same value, or the same failure but for the name of an undeclared variable. -/
inductive SameAnswer : Except Failure Value → Except Failure Value → Prop where
  | value (v : Value) : SameAnswer (.ok v) (.ok v)
  | failure {e e' : Failure} (alike : e.Alike e') : SameAnswer (.error e) (.error e')

/-- The second context is as the first, except that variables which an expression refers to are held by those that
replace them.  Some variables hold the same in both. -/
structure Context.Replaced (image : Nat → Nat) (e : Expr) (reads : Nat → Prop) (c d : Context) : Prop where
  focus : d.focus = c.focus
  forest : d.forest = c.forest
  stop : d.stopCause? = c.stopCause?
  free : ∀ x ∈ e.free, d.bindings.lookup (image x) = c.bindings.lookup x
  read : ∀ x, reads x → d.bindings.lookup x = c.bindings.lookup x

/-- Variables bound in the expression are distinct, and apart from those it refers to and those that function items
read or set.  Function items set no variable that is replaced, and none that replaces another.  All these variables
have been made before the copy. -/
structure Expr.LeftAlone (reads sets : Nat → Prop) (s : Copying) (e : Expr) : Prop
    extends e.KeptApart (fun id => reads id ∨ sets id) s where
  unmoved : ∀ id, sets id → ∀ x ∈ e.free, s.image x = id ↔ x = id

variable {calls : Calls} {good : Item → Prop} {reads sets : Nat → Prop} {e : Expr} {s : Copying}

/-! ## New variables -/

namespace Compile

/-- What is copied binds variables of its own. -/
theorem copy_fresh {vm renames : Renaming} {k k' : CompileContext} {copied : Expr}
    (made : Compile.copy e vm k = (.ok (copied, renames), k')) :
    copied.binders.Nodup ∧ ∀ id ∈ copied.binders, k.context.nextVariable ≤ id ∧ id < k'.context.nextVariable := by
  cases made
  obtain ⟨binders, next⟩ := e.copy_binders ⟨k.context.nextVariable, vm, []⟩
  rw [binders]
  refine ⟨List.nodup_range', fun id member => ?_⟩
  obtain ⟨low, high⟩ := List.mem_range'_1.1 member
  exact ⟨low, next ▸ high⟩

end Compile

/-! ## The same answer -/

theorem Eval.Mirrors.sameAnswer {link : Link} {visible : Visible} {x y : Eval Value}
    (mirrors : x.Mirrors link visible Equal y) {c d : Context} (agree : c.Mirrors link visible d) :
    SameAnswer (x c).1 (y d).1 := by
  have compared := mirrors visible (Visible.within_refl visible) c d agree
  generalize x c = left at compared ⊢
  generalize y d = right at compared ⊢
  cases compared with
  | failed alike => exact .failure alike
  | @done v _ _ _ _ _ related _ => exact related ▸ .value v

/-- A context with the values under other variables agrees on what is read. -/
theorem Context.Replaced.mirrors {c d : Context} (replaced : c.Replaced s.image e reads d)
    (alone : e.LeftAlone reads sets s) :
    c.Mirrors (s.link e fun id => reads id ∨ sets id) (.variables fun id => id ∈ e.free ∨ reads id) d := by
  refine ⟨fun _ => replaced.focus, fun _ => replaced.forest, fun x y linked seen => ?_, replaced.stop⟩
  rcases linked with ⟨free, rfl⟩ | ⟨i, found, -⟩ | ⟨own, rfl⟩
  · exact replaced.free x free
  · obtain ⟨notFree, notOwn⟩ := alone.apart x (List.mem_of_getElem? found)
    exact absurd seen (not_or.2 ⟨notFree, fun read => notOwn (.inl read)⟩)
  · -- A variable that is referred to and stands for itself is either read by a function item or not replaced.
    rcases own with read | set
    · exact replaced.read y read
    · rcases seen with free | read
      · have same := replaced.free y free
        rwa [(alone.unmoved y set y free).2 rfl] at same
      · exact replaced.read y read

/-- Evaluating a copy gives the same value or failure as evaluating the original, in contexts that hold the same. -/
theorem copy_sameAnswer (limited : calls.Limited good reads sets)
    (literals : e.Every (Expr.Bears (Kind.shaped good) True)) (alone : e.LeftAlone reads sets s) {c d : Context}
    (first : c.Holds good) (second : d.Holds good) (replaced : c.Replaced s.image e reads d) :
    SameAnswer ((e.modes calls).value c).1 (((e.copy s).1.modes calls).value d).1 := by
  rw [modes_eq_forgetting limited.nested limited.stay literals first,
    modes_eq_forgetting limited.nested limited.stay (Expr.copy_bears literals s) second]
  have seen : (Visible.variables reads).Within (.variables fun id => id ∈ e.free ∨ reads id) := by
    rintro (id | _ | _) read
    · exact .inr read
    · trivial
    · trivial
  have mirror : (calls.forgetting good).Mirror (s.link e fun id => reads id ∨ sets id)
      (.variables fun id => id ∈ e.free ∨ reads id) :=
    limited.mirror seen (fun id read => .inr (.inr ⟨.inl read, rfl⟩))
      fun id set => alone.only_self (.inr set) (alone.unmoved id set)
  have refers : e.Scoped (.variables fun id => id ∈ e.free ∨ reads id) :=
    Expr.scoped_of_free trivial trivial fun id free => .inl free
  exact (Expr.modes_mirrors mirror alone.alike_copy refers).value.sameAnswer (replaced.mirrors alone)

/-- Copying keeps variables apart and keeps the meaning.  A copy binds variables that have never been bound before, so
that two copies have none in common, whatever is copied and whatever is replaced.  And if function items leave alone
the variables bound in the expression and those that are replaced, the copy gives the same value or failure as the
original, in any context in which the variables that replace others hold what the others held. -/
theorem copy_keeps_meaning (e : Expr) (vm : Renaming) (k : CompileContext) :
    ∃ copied renames k', Compile.copy e vm k = (.ok (copied, renames), k') ∧
      copied.binders.Nodup ∧
      (∀ id ∈ copied.binders, k.context.nextVariable ≤ id ∧ id < k'.context.nextVariable) ∧
      (∀ other vm₂ k₂ copied₂ renames₂ k₂', k'.context.nextVariable ≤ k₂.context.nextVariable →
        Compile.copy other vm₂ k₂ = (.ok (copied₂, renames₂), k₂') → copied.binders.Disjoint copied₂.binders) ∧
      ∀ (calls : Calls) (good : Item → Prop) (reads sets : Nat → Prop), calls.Limited good reads sets →
        e.Every (Expr.Bears (Kind.shaped good) True) → e.LeftAlone reads sets ⟨k.context.nextVariable, vm, []⟩ →
        ∀ c d : Context, c.Holds good → d.Holds good →
          c.Replaced (Copying.image ⟨k.context.nextVariable, vm, []⟩) e reads d →
          SameAnswer ((e.modes calls).value c).1 ((copied.modes calls).value d).1 := by
  have made : Compile.copy e vm k = (.ok ((e.copy ⟨k.context.nextVariable, vm, []⟩).1, _), _) := rfl
  obtain ⟨distinct, fresh⟩ := Compile.copy_fresh made
  refine ⟨_, _, _, made, distinct, fresh, fun other vm₂ k₂ copied₂ renames₂ k₂' later made₂ => ?_, ?_⟩
  · intro id mine others
    have old := (fresh id mine).2
    have new := ((Compile.copy_fresh made₂).2 id others).1
    omega
  · exact fun calls good reads sets limited literals alone c d first second replaced =>
      copy_sameAnswer limited literals alone first second replaced

/-- `let $x := 5 return $y($x, 6)` -/
def applyToFive : Expr :=
  let x : Variable := ⟨2, "x", none⟩
  .letIn x (.literal (.integer 5))
    (.dynamicCallOf (.varRefOf ⟨3, "y", none⟩ none) [.varRefOf x none, .literal (.integer 6)] none) none

theorem keepFirst_enclosed : Enclosed ItemOf.KeepsFirst (fun _ => False) fun id => id = 0 ∨ id = 1 where
  nested :=
    { lawful := Kind.shaped_lawful _
      atom := fun _ => trivial
      node := fun _ => trivial
      entry := fun _ _ _ none entry inside => by
        cases none
        cases inside
      member := fun _ _ _ none v inside => by
        cases none
        cases inside }
  literals := fun f keeps => keeps.2 ▸ .node trivial fun _ impossible => by cases impossible
  free := fun f keeps id member => by
    rw [keeps.2] at member
    rw [keeps.1]
    exact .inl (List.mem_singleton.1 member ▸ List.mem_cons_self)
  bound := fun f keeps id member => by
    rw [keeps.1, keeps.2] at member
    simpa [keepFirst, Expr.varRefOf, Expr.binders] using member

/-- A copy in which `$y` is replaced by another variable calls the function that this one holds. -/
theorem applyToFive_copied :
    let k : CompileContext := .start { Context.initial {} with nextVariable := 5 }
    let c : Context := (Context.initial {}).bind ⟨3, "y", none⟩ (.one (.function keepFirst))
    let d : Context := (Context.initial {}).bind ⟨4, "z", none⟩ (.one (.function keepFirst))
    ∃ copied renames k', Compile.copy applyToFive [(3, ⟨4, "z", none⟩)] k = (.ok (copied, renames), k') ∧
      (∀ id ∈ copied.binders, 5 ≤ id ∧ id < k'.context.nextVariable) ∧
      SameAnswer (applyToFive.run.value c).1 (copied.run.value d).1 ∧
      (applyToFive.run.value c).1 = .ok (.integer 5) := by
  intro k c d
  have lawful := Kind.shaped_lawful ItemOf.KeepsFirst
  have literals : applyToFive.Every (Expr.Bears (Kind.shaped ItemOf.KeepsFirst) True) := by
    have leaf : ∀ e : Expr, e.parts = [] → Expr.Bears (Kind.shaped ItemOf.KeepsFirst) True e →
        e.Every (Expr.Bears (Kind.shaped ItemOf.KeepsFirst) True) :=
      fun e none here => .node here (none ▸ fun _ impossible => by cases impossible)
    refine .node trivial (Expr.forall_pair (leaf _ rfl (lawful.one trivial)) (.node trivial ?_))
    exact List.forall_mem_cons.2
      ⟨leaf _ rfl trivial, Expr.forall_pair (leaf _ rfl trivial) (leaf _ rfl (lawful.one trivial))⟩
  have binders : applyToFive.binders = [2] := rfl
  have free : applyToFive.free = [3] := rfl
  have made : ∀ id, False ∨ id = 0 ∨ id = 1 → id < 5 := by
    rintro _ (impossible | rfl | rfl)
    · exact impossible.elim
    · decide
    · decide
  have alone : applyToFive.LeftAlone (fun _ => False) (fun id => id = 0 ∨ id = 1) ⟨5, [(3, ⟨4, "z", none⟩)], []⟩ :=
    { distinct := by simp [binders], apart := by simp [binders, free]
      taken := by simp [free, Copying.image], ownTaken := made, unmoved := by simp [free, Copying.image] }
  have holds : ∀ var : Variable,
      ((Context.initial {}).bind var (.one (.function keepFirst))).Holds ItemOf.KeepsFirst := by
    refine fun var => ⟨fun _ none => ?_, bound_bind (fun _ _ none => ?_) var (lawful.one ⟨rfl, rfl⟩)⟩
    · cases none
    · cases none
  obtain ⟨copied, renames, k', made, -, fresh, -, same⟩ := copy_keeps_meaning applyToFive [(3, ⟨4, "z", none⟩)] k
  have limited := keepFirst_enclosed.callsWithin_limited callDepth
  refine ⟨copied, renames, k', made, fresh, same _ _ _ _ limited literals alone c d (holds _) (holds _)
    ⟨rfl, rfl, rfl, ?_, fun _ => False.elim⟩, by with_unfolding_all rfl⟩
  exact free ▸ List.forall_mem_singleton.2 rfl

/-- Copying makes a difference if a function item reads a variable bound in the expression, reads one that is
replaced, or sets one that is bound, is replaced or replaces another; and a failure names the variable that is looked
up. -/
theorem copy_changes_meaning :
    let x : Variable := ⟨0, "x", none⟩
    let y : Variable := ⟨1, "y", none⟩
    let reader : FunctionItem Expr := ⟨0, none, [], .varRefOf x none, .anyFunction⟩
    let setter : FunctionItem Expr := ⟨0, none, [x], .emptySequence, .anyFunction⟩
    let setterOfOther : FunctionItem Expr := ⟨0, none, [y], .emptySequence, .anyFunction⟩
    let c : Context := { Context.initial {} with nextVariable := 2 }
    let around : Context := { c with focus := .ofValue (some (.one (.function reader))) }
    let readsBound : Expr := .letIn x (.literal (.integer 5)) (.dynamicCallOf (.contextValueOf none) [] none) none
    let readsReplaced : Expr := .dynamicCallOf (.literal (.one (.function reader))) [] none
    let setsBound : Expr := .letIn x (.literal (.integer 5))
      (.listOf
        [.dynamicCallOf (.literal (.one (.function setter))) [.literal (.integer 7)] none, .varRefOf x none] none)
      none
    let setsFree := fun f : FunctionItem Expr => Expr.listOf
      [.dynamicCallOf (.literal (.one (.function f))) [.literal (.integer 7)] none, .varRefOf x none] none
    let both := (c.bind x (.integer 5)).bind y (.integer 5)
    ((readsBound.run.value around).1 = .ok (.integer 5) ∧
      ((readsBound.copy ⟨2, [], []⟩).1.run.value around).1 = .error (.error ⟨.undeclared "x", none⟩)) ∧
    ((readsReplaced.run.value (c.bind x (.integer 5))).1 = .ok (.integer 5) ∧
      ((readsReplaced.copy ⟨2, [(0, y)], []⟩).1.run.value (c.bind y (.integer 5))).1 =
        .error (.error ⟨.undeclared "x", none⟩)) ∧
    ((setsBound.run.value c).1 = .ok (.one (.integer 7)) ∧
      ((setsBound.copy ⟨2, [], []⟩).1.run.value c).1 = .ok (.one (.integer 5))) ∧
    (((setsFree setter).run.value both).1 = .ok (.one (.integer 7)) ∧
      (((setsFree setter).copy ⟨2, [(0, y)], []⟩).1.run.value both).1 = .ok (.one (.integer 5))) ∧
    (((setsFree setterOfOther).run.value both).1 = .ok (.one (.integer 5)) ∧
      (((setsFree setterOfOther).copy ⟨2, [(0, y)], []⟩).1.run.value both).1 = .ok (.one (.integer 7))) ∧
    (((Expr.varRefOf x none).run.value c).1 = .error (.error ⟨.undeclared "x", none⟩) ∧
      (((Expr.varRefOf x none).copy ⟨2, [(0, y)], []⟩).1.run.value c).1 =
        .error (.error ⟨.undeclared "y", none⟩)) := by
  refine ⟨⟨?_, ?_⟩, ⟨?_, ?_⟩, ⟨?_, ?_⟩, ⟨?_, ?_⟩, ⟨?_, ?_⟩, ⟨?_, ?_⟩⟩ <;> with_unfolding_all rfl

end QueryKernel
