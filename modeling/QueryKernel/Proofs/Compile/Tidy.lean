import QueryKernel.Proofs.Compile.Everywhere

/-!
# Updates in compiled trees

Compilation checks at every node which of its operands may update, so that in a compiled tree an
expression updates only if it says so.

What is unrolled is checked only because it is simplified once more, and that it is really simplified follows
from its depth of loops, which compilation never makes larger.
-/

namespace QueryKernel

variable {calls : Calls}

namespace Expr

/-- Operands that are no vacuous ones update all together or not at all. -/
def Uniform (operands : List Expr) : Prop :=
  ∃ updates : Bool, ∀ e ∈ operands, e.isVacuous = false → e.hasUpdates = updates

/-- Updates of the operands are either forwarded or not there.  Operands that forward updates to the same
place agree. -/
def Tidy : Expr → Prop
  | literal _ | contextValue .. | root _ | documents .. | varRef .. | deferred .. => True
  | list operands _ _ => Uniform operands
  | conditional test yes no _ _ => test.hasUpdates = false ∧ Uniform [yes, no]
  | letIn _ bound _ _ => bound.hasUpdates = false
  | forIn _ source _ _ _ => source.hasUpdates = false
  | e => ∀ s ∈ e.parts, s.hasUpdates = false

variable {e e' : Expr}

/-! ## Trees without updates -/

/-- The parts of a tidy expression that does not update do not update either. -/
theorem Tidy.part (tidy : e.Tidy) (quiet : e.hasUpdates = false) {s : Expr} (member : s ∈ e.parts) :
    s.hasUpdates = false := by
  cases e with
  | list operands type location => exact anyUpdates_eq_false_iff.1 quiet s member
  | conditional test yes no type location =>
      rw [hasUpdates, Bool.or_eq_false_iff] at quiet
      rcases List.mem_cons.1 member with rfl | branch
      · exact tidy.1
      · rcases List.mem_cons.1 branch with rfl | last
        · exact quiet.1
        · rw [List.mem_singleton.1 last]
          exact quiet.2
  | letIn var bound body location =>
      rw [hasUpdates, Bool.or_eq_false_iff] at quiet
      rcases List.mem_cons.1 member with rfl | last
      · exact quiet.1
      · rw [List.mem_singleton.1 last]
        exact quiet.2
  | forIn var source body type location =>
      rw [hasUpdates, Bool.or_eq_false_iff] at quiet
      rcases List.mem_cons.1 member with rfl | last
      · exact quiet.1
      · rw [List.mem_singleton.1 last]
        exact quiet.2
  | literal | contextValue | root | documents | varRef | deferred => cases member
  | range | arithmetic | comparison | filter | call | dynamicCall | delete => exact tidy s member

/-- In a tidy tree an expression that does not update has no updates inside. -/
theorem quiet_bears {k : Kind} (tidy : e.Every Tidy) (bears : e.Every (Bears k True))
    (quiet : e.hasUpdates = false) : e.Every (Bears k False) := by
  induction e using byParts with
  | step e parts_ih =>
      refine .node ?_ fun s member => parts_ih s member (tidy.part member) (bears.part member)
        (tidy.here.part quiet member)
      have here := bears.here
      cases e with
      | literal v => exact here
      | delete target location => cases quiet
      | _ => trivial

/-! ## Narrowing and copies -/

theorem tidy_narrow (tidy : e.Every Tidy) (known : SequenceType) : (e.narrow known).Every Tidy := by
  refine tidy.narrow ?_
  have here := tidy.here
  cases e with
  | literal v => trivial
  | _ =>
      simp only [narrow]
      split <;> exact here

variable {ref bind : Nat → Nat → Prop}

theorem alike_isVacuous (alike : Alike ref bind e e') : e'.isVacuous = e.isVacuous := by
  have same : (decide (e'.size? = some 0) && !e'.hasUpdates) =
      (decide (e.size? = some 0) && !e.hasUpdates) := by
    rw [size?, size?, alike_staticType alike, alike_hasUpdates alike]
  cases alike <;> first | rfl | exact same

theorem alike_uniform {es es' : List Expr}
    (parts : ∀ s' ∈ es', ∃ s ∈ es, Alike ref bind s s') (uniform : Uniform es) : Uniform es' := by
  obtain ⟨updates, agree⟩ := uniform
  refine ⟨updates, fun s' member counts => ?_⟩
  obtain ⟨s, original, alike⟩ := parts s' member
  rw [alike_isVacuous alike] at counts
  rw [alike_hasUpdates alike]
  exact agree s original counts

theorem alike_tidy (alike : Alike ref bind e e') (tidy : e.Tidy) : e'.Tidy := by
  have quiet : (∀ s ∈ e.parts, s.hasUpdates = false) → ∀ s' ∈ e'.parts, s'.hasUpdates = false := by
    intro all s' member
    obtain ⟨s, original, same⟩ := alike_part alike member
    rw [alike_hasUpdates same]
    exact all s original
  cases alike with
  | literal | contextValue | root | documents | varRef | deferred => trivial
  | @list operands operands' type location length parts =>
      have whole : Alike ref bind (.list operands type location) (.list operands' type location) :=
        .list length parts
      exact alike_uniform (fun s' member => alike_part whole member) tidy
  | @conditional _ yes no _ yes' no' _ _ condition positive negative =>
      have branches : ∀ s' ∈ [yes', no'], ∃ s ∈ [yes, no], Alike ref bind s s' := by
        intro s' member
        rcases List.mem_cons.1 member with rfl | last
        · exact ⟨yes, List.mem_cons_self, positive⟩
        · rw [List.mem_singleton.1 last]
          exact ⟨no, List.mem_cons_of_mem _ List.mem_cons_self, negative⟩
      exact ⟨(alike_hasUpdates condition).trans tidy.1, alike_uniform branches tidy.2⟩
  | letIn _ _ value _ => exact (alike_hasUpdates value).trans tidy
  | forIn _ _ input _ => exact (alike_hasUpdates input).trans tidy
  | range | arithmetic | comparison | filter | call | dynamicCall | delete => exact quiet tidy

theorem copy_tidy (tidy : e.Every Tidy) (s : Copying) : (e.copy s).1.Every Tidy :=
  (alike_copy e s).every alike_tidy tidy

end Expr

/-! ## Loops in loops -/

namespace Expr

/-- Whether a node is a loop or a fold, as a number. -/
def loops : Expr → Nat
  | forIn .. => 1
  | call f _ _ _ => if f = .foldLeft1 then 1 else 0
  | _ => 0

variable {e e' s : Expr} {n : Nat}

theorem loopDepthAll_le {es : List Expr} : loopDepthAll es ≤ n ↔ ∀ e ∈ es, e.loopDepth ≤ n := by
  induction es with
  | nil => simp [loopDepthAll]
  | cons e rest rest_ih => rw [loopDepthAll, Nat.max_le, rest_ih, List.forall_mem_cons]

theorem loopDepth_le : e.loopDepth ≤ n + e.loops ↔ ∀ s ∈ e.parts, s.loopDepth ≤ n := by
  cases e <;> simp only [loopDepth, loops, parts, loopDepthAll_le, Nat.max_le, List.forall_mem_cons,
    List.not_mem_nil, false_imp_iff, implies_true, Nat.add_le_add_iff_right, Nat.add_zero, Nat.zero_le, and_true]

theorem loopDepth_narrow (e : Expr) (known : SequenceType) : (e.narrow known).loopDepth = e.loopDepth := by
  cases e with
  | literal v => rfl
  | _ =>
      simp only [narrow]
      split <;> rfl

theorem alike_loopDepth {ref bind : Nat → Nat → Prop} (alike : Alike ref bind e e')
    (bounded : e.loopDepth ≤ n) : e'.loopDepth ≤ n := by
  induction e' using byParts generalizing e n with
  | step e' parts_ih =>
      have same : e'.loops = e.loops := by cases alike <;> rfl
      have least : e.loops ≤ e.loopDepth := by cases e <;> simp [loops, loopDepth]
      obtain ⟨m, rfl⟩ : ∃ m, n = m + e.loops := ⟨n - e.loops, by omega⟩
      rw [← same]
      refine loopDepth_le.2 fun s' member => ?_
      obtain ⟨s, original, likewise⟩ := alike_part alike member
      exact parts_ih s' member likewise (loopDepth_le.1 bounded s original)

/-- All nodes are tidy, and at most so many loops are around each other. -/
structure TidyWithin (n : Nat) (e : Expr) : Prop where
  tidy : e.Every Tidy
  depth : e.loopDepth ≤ n

theorem TidyWithin.node (here : e.Tidy) (parts : ∀ s ∈ e.parts, s.TidyWithin n) :
    e.TidyWithin (n + e.loops) :=
  ⟨.node here fun s member => (parts s member).tidy, loopDepth_le.2 fun s member => (parts s member).depth⟩

theorem TidyWithin.plain (none : e.loops = 0) (here : e.Tidy) (parts : ∀ s ∈ e.parts, s.TidyWithin n) :
    e.TidyWithin n := by
  have whole := TidyWithin.node here parts
  rwa [none, Nat.add_zero] at whole

theorem TidyWithin.part (within : e.TidyWithin n) (member : s ∈ e.parts) : s.TidyWithin n :=
  ⟨within.tidy.part member, loopDepth_le.1 (Nat.le_add_right_of_le within.depth) s member⟩

theorem TidyWithin.mono {m : Nat} (within : e.TidyWithin n) (le : n ≤ m) : e.TidyWithin m :=
  ⟨within.tidy, Nat.le_trans within.depth le⟩

theorem TidyWithin.narrow (within : e.TidyWithin n) (known : SequenceType) :
    (e.narrow known).TidyWithin n :=
  ⟨tidy_narrow within.tidy known, by rw [loopDepth_narrow]; exact within.depth⟩

theorem TidyWithin.copy (within : e.TidyWithin n) (s : Copying) : (e.copy s).1.TidyWithin n :=
  ⟨copy_tidy within.tidy s, alike_loopDepth (alike_copy e s) within.depth⟩

theorem literal_tidy (v : Value) : (literal v).TidyWithin n :=
  .plain rfl trivial fun _ member => by cases member

end Expr

namespace Compile

open QueryKernel.Expr (Tidy Uniform TidyWithin literal_tidy)

/-- A result satisfies a condition, from whatever state it comes. -/
abbrev Gives {A : Type} (P : A → Prop) (x : Compile A) : Prop :=
  x.Always (fun _ => True) (fun _ => True) P

/-! ## Single steps -/

theorem Gives.any {A : Type} (x : Compile A) : x.Gives fun _ => True :=
  fun _ _ => ⟨trivial, fun _ _ => trivial, fun _ _ => trivial⟩

theorem Gives.given {A : Type} {P : A → Prop} {x : Compile A} {c c' : CompileContext} (gives : x.Gives P) {a : A}
    (ran : x c = (.ok a, c')) : P a := (gives c trivial).2.1 a (congrArg Prod.fst ran)

theorem Gives.inScope {A : Type} {P : A → Prop} {scope : Scope} {x : Compile A} (gives : x.Gives P) :
    (inScope scope x).Gives P :=
  Always.inScope gives (fun _ _ => trivial) fun _ _ _ _ => trivial

theorem Gives.withFocus {A : Type} {P : A → Prop} {value : Option Value} {x : Compile A}
    (gives : x.Gives P) : (withFocus value x).Gives P :=
  Always.withFocus gives (fun _ _ => trivial) fun _ _ _ _ => trivial

variable {n : Nat}

theorem replace_tidy {before : ExprSummary} {after : Expr} (within : after.TidyWithin n) :
    (replace before after).Gives (TidyWithin n) :=
  (Gives.any _).bind fun _ _ => .pure (within.narrow _)

theorem replaceWith_tidy {e after : Expr} (within : after.TidyWithin n) :
    (replaceWith e after).Gives (TidyWithin n) := replace_tidy within

theorem precompute_tidy (e : Expr) : (precompute calls e).Gives (TidyWithin n) := by
  refine (Gives.any _).bind fun result _ => ?_
  cases result with
  | ok v => exact (Gives.any _).bind fun _ _ => .pure ((literal_tidy v).narrow _)
  | error error =>
      exact (Gives.any _).bind fun _ _ => .pure (.plain rfl trivial fun _ member => by cases member)

theorem copy_tidy {e : Expr} {renames : Renaming} (within : e.TidyWithin n) :
    (copy e renames).Gives fun copied => copied.1.TidyWithin n :=
  .copying (fun s => within.copy s) fun _ _ _ _ => trivial

theorem copy_depth {e : Expr} {renames : Renaming} (shallow : e.loopDepth ≤ n) :
    (copy e renames).Gives fun copied => copied.1.loopDepth ≤ n :=
  .copying (P := (Expr.loopDepth · ≤ n)) (fun s => Expr.alike_loopDepth (e.alike_copy s) shallow)
    fun _ _ _ _ => trivial

theorem requireNoUpdates_gives (description : String) (e : Expr) :
    (requireNoUpdates description e).Gives fun _ => e.hasUpdates = false := by
  unfold requireNoUpdates
  split
  · exact .raise trivial
  · next quiet => exact .pure (Bool.eq_false_iff.2 quiet)

theorem requireNoneUpdates_gives (description : String) (es : List Expr) :
    (requireNoneUpdates description es).Gives fun _ => ∀ e ∈ es, e.hasUpdates = false := by
  induction es with
  | nil => exact .pure fun _ member => by cases member
  | cons e rest rest_ih =>
      exact (requireNoUpdates_gives description e).bind fun _ here =>
        rest_ih.mono fun _ later => List.forall_mem_cons.2 ⟨here, later⟩

theorem requireUniformUpdates_gives (description : String) (operands : List Expr) :
    (requireUniformUpdates description operands).Gives fun _ => Uniform operands := by
  have kept : ∀ e ∈ operands, e.isVacuous = false → e ∈ operands.filter (!·.isVacuous) :=
    fun e member counts => List.mem_filter.2 ⟨member, by simp [counts]⟩
  unfold requireUniformUpdates
  split
  · next none =>
      refine .pure ⟨false, fun e member counts => ?_⟩
      have impossible := kept e member counts
      rw [none] at impossible
      cases impossible
  · next first rest counted =>
      split
      · exact .raise trivial
      · next agree =>
          refine .pure ⟨first.hasUpdates, fun e member counts => ?_⟩
          have inside := kept e member counts
          rw [counted] at inside
          rcases List.mem_cons.1 inside with rfl | other
          · rfl
          · simpa using List.find?_eq_none.1 agree e other

/-! ## Nodes with simplified parts -/

theorem reduceList_tidy {before : ExprSummary} {operands : List Expr} {location : Option Location}
    (within : ∀ e ∈ operands, e.TidyWithin n) :
    (reduceList calls before operands location).Gives (TidyWithin n) := by
  have kept : ∀ e ∈ operands.filter (!·.isEmptyLiteral), e.TidyWithin n :=
    fun e member => within e (List.mem_filter.1 member).1
  refine (requireUniformUpdates_gives _ _).bind fun _ uniform => ?_
  split
  · exact replace_tidy (literal_tidy _)
  · next operand alone => exact replace_tidy (kept operand (by rw [alone]; exact List.mem_cons_self))
  · refine Always.options.bind fun most _ => ?_
    dsimp only
    split
    · exact precompute_tidy _
    · exact .pure (.plain rfl uniform kept)

theorem reduceRange_tidy {first last : Expr} {type : StaticType} {location : Option Location}
    (low : first.TidyWithin n) (high : last.TidyWithin n) :
    (reduceRange calls first last type location).Gives (TidyWithin n) := by
  refine (requireNoUpdates_gives _ first).bind fun _ quiet => ?_
  refine (requireNoUpdates_gives _ last).bind fun _ quiet' => ?_
  dsimp only
  split
  · exact precompute_tidy _
  · exact .pure (.plain rfl (Expr.forall_pair quiet quiet') (Expr.forall_pair low high))

theorem reduceOperation_tidy {e a b : Expr} (none : e.loops = 0)
    (tidied : a.hasUpdates = false → b.hasUpdates = false → e.Tidy)
    (parts : ∀ s ∈ e.parts, s.TidyWithin n) : (reduceOperation calls e a b).Gives (TidyWithin n) := by
  refine (requireNoUpdates_gives _ a).bind fun _ quiet => ?_
  refine (requireNoUpdates_gives _ b).bind fun _ quiet' => ?_
  split
  · exact replaceWith_tidy (literal_tidy _)
  · split
    · exact precompute_tidy _
    · exact .pure (.plain none (tidied quiet quiet') parts)

theorem reduceConditional_tidy {test yes no : Expr} {location : Option Location}
    (quiet : test.hasUpdates = false) (condition : test.TidyWithin n) (positive : yes.TidyWithin n)
    (negative : no.TidyWithin n) :
    (reduceConditional test yes no location).Gives (TidyWithin n) := by
  refine (requireUniformUpdates_gives _ [yes, no]).bind fun _ uniform => ?_
  have whole : (Expr.conditionalOf test yes no location).TidyWithin n :=
    .plain rfl ⟨quiet, uniform⟩ (List.forall_mem_cons.2 ⟨condition, Expr.forall_pair positive negative⟩)
  dsimp only
  split
  · exact .pure whole
  · refine (Gives.any _).bind fun result _ => ?_
    cases result with
    | ok b =>
        refine replaceWith_tidy ?_
        cases b with
        | true => exact positive
        | false => exact negative
    | error e => exact .pure whole

theorem reduceContextValue_tidy (type : StaticType) (location : Option Location) :
    (reduceContextValue type location).Gives (TidyWithin n) := by
  refine (Gives.any _).bind fun c _ => ?_
  split <;> exact .pure (.plain rfl trivial fun _ member => by cases member)

theorem reduceFilter_tidy {before : ExprSummary} {base : Expr} {predicates : List Expr}
    {location : Option Location} (quiet : base.hasUpdates = false) (input : base.TidyWithin n)
    (conditions : ∀ e ∈ predicates, e.TidyWithin n) :
    (reduceFilter calls before base predicates location).Gives (TidyWithin n) := by
  refine (requireNoneUpdates_gives _ predicates).bind fun _ none => ?_
  dsimp only
  split
  · exact replace_tidy (literal_tidy _)
  · split
    · exact replace_tidy input
    · refine Always.options.bind fun most _ => ?_
      split
      · exact precompute_tidy _
      · refine .pure (.plain rfl (List.forall_mem_cons.2 ⟨quiet, fun s member => ?_⟩)
          (List.forall_mem_cons.2 ⟨input, fun s member => ?_⟩))
        · exact none s (List.mem_filter.1 member).1
        · exact conditions s (List.mem_filter.1 member).1

theorem reduceLet_tidy {before : ExprSummary} {var : Variable} {bound body : Expr}
    {location : Option Location} (quiet : bound.hasUpdates = false) (value : bound.TidyWithin n)
    (result : body.TidyWithin n) :
    (reduceLet before var bound body location).Gives (TidyWithin n) := by
  unfold reduceLet
  split
  · exact replace_tidy result
  · exact .pure (.plain rfl quiet (Expr.forall_pair value result))

/-- What is unrolled is no deeper than the body of the loop. -/
theorem unrolledLoop_depth {var : Variable} {body : Expr} {location : Option Location}
    {items : List Item} (shallow : body.loopDepth ≤ n) :
    (unrolledLoop var body location items).Gives fun bindings => (Expr.listOf bindings none).loopDepth ≤ n := by
  refine Always.mono ?_ fun bindings all => Expr.loopDepthAll_le.2 all
  induction items with
  | nil => exact .pure fun _ member => by cases member
  | cons item rest rest_ih =>
      refine (Gives.any _).bind fun copied _ => (copy_depth shallow).bind fun body' given => ?_
      refine rest_ih.bind fun others holds => .pure (List.forall_mem_cons.2 ⟨?_, holds⟩)
      exact Nat.max_le.2 ⟨Nat.zero_le n, given⟩

/-- What is unrolled is simplified once more. -/
def AgainTidy (n : Nat) (again : Expr → Compile Expr) : Prop :=
  ∀ m < n, ∀ e : Expr, e.loopDepth ≤ m → (again e).Gives (TidyWithin m)

theorem reduceFor_tidy {again : Expr → Compile Expr} {m : Nat} (simplifies : AgainTidy m again)
    (less : n < m) {before : ExprSummary} {var : Variable} {source body : Expr}
    {location : Option Location} (quiet : source.hasUpdates = false) (input : source.TidyWithin n)
    (result : body.TidyWithin n) :
    (reduceFor again before var source body location).Gives (TidyWithin (n + 1)) := by
  refine Always.options.bind fun most _ => ?_
  dsimp only
  split
  · have whole : (Expr.forOf var source body location).TidyWithin (n + 1) :=
      .node (e := .forOf var source body location) quiet (Expr.forall_pair input result)
    exact .pure whole
  · refine (unrolledLoop_depth result.depth).bind fun bindings shallow => ?_
    refine (simplifies n less _ shallow).bind fun e given => ?_
    exact replace_tidy (given.mono (Nat.le_succ n))

theorem reduceReference_tidy (var : Variable) (type : StaticType) (location : Option Location) :
    (reduceReference var type location).Gives (TidyWithin n) := by
  refine (Gives.any _).bind fun c _ => ?_
  split
  · exact replaceWith_tidy (literal_tidy _)
  · split <;> exact .pure (.plain rfl trivial fun _ member => by cases member)

theorem reduceHead_tidy {e argument : Expr} (whole : e.TidyWithin n) (within : argument.TidyWithin n) :
    (reduceHead e argument).Gives (TidyWithin n) := by
  unfold reduceHead
  split
  · exact replaceWith_tidy within
  · split
    · next first rest listed =>
        split
        · have inside : first ∈ argument.parts := by
            cases argument with
            | list operands type location =>
                cases listed
                exact List.mem_cons_self
            | _ => cases listed
          exact (copy_tidy (within.part inside)).bind fun copied given => replaceWith_tidy given
        · exact .pure whole
    · exact .pure whole

theorem reduceCount_tidy {e argument : Expr} (whole : e.TidyWithin n) :
    (reduceCount e argument).Gives (TidyWithin n) := by
  unfold reduceCount
  dsimp only
  cases argument.size? with
  | none => exact .pure whole
  | some size =>
      dsimp only
      split
      · exact replaceWith_tidy (literal_tidy _)
      · exact .pure whole

/-- Neither are the calls of a fold deeper than its function. -/
theorem unrolledFold_depth {callee : Expr} (function : callee.loopDepth ≤ n) {items : List Item}
    {result : Expr} (shallow : result.loopDepth ≤ n) :
    (unrolledFold callee result items).Gives fun e => e.loopDepth ≤ n := by
  induction items generalizing result with
  | nil => exact .pure shallow
  | cons item rest rest_ih =>
      refine (copy_depth function).bind fun copied given => rest_ih ?_
      exact Nat.max_le.2 ⟨given, Nat.max_le.2 ⟨shallow, Nat.max_le.2 ⟨Nat.zero_le n, Nat.zero_le n⟩⟩⟩

theorem reduceFold_tidy {again : Expr → Compile Expr} {m : Nat} (simplifies : AgainTidy m again)
    (less : n < m) {e items callee : Expr} (whole : e.TidyWithin (n + 1))
    (function : callee.TidyWithin n) :
    (reduceFold again e items callee).Gives (TidyWithin (n + 1)) := by
  refine Always.options.bind fun most _ => ?_
  dsimp only
  split
  · exact .pure whole
  · split
    · exact .pure whole
    · next first rest _ =>
      have start : (Expr.literal (.one first)).loopDepth ≤ n := Nat.zero_le n
      refine (unrolledFold_depth function.depth start).bind fun calls shallow => ?_
      refine (simplifies n less _ shallow).bind fun e given => ?_
      exact replaceWith_tidy (given.mono (Nat.le_succ n))

/-- Arguments of a fold are less deep than the fold, so that it can be unrolled. -/
theorem reduceCall_tidy {again : Expr → Compile Expr} {k m : Nat} (simplifies : AgainTidy m again)
    {f : BuiltIn} {arguments : List Expr} {location : Option Location}
    (bound : n + (if f = .foldLeft1 then 1 else 0) = k)
    (le : k ≤ m) (within : ∀ e ∈ arguments, e.TidyWithin n) :
    (reduceCall calls again f arguments location).Gives (TidyWithin k) := by
  refine (requireNoneUpdates_gives _ arguments).bind fun _ quiet => ?_
  have whole : (Expr.call f arguments (f.resultType arguments) location).TidyWithin k := by
    rw [← bound]
    exact .node (e := .call f arguments (f.resultType arguments) location) quiet within
  refine Always.options.bind fun most _ => ?_
  dsimp only
  generalize (if f = .error then none else literalItems? arguments) = count
  split
  · exact .broken
  · split
    · exact precompute_tidy _
    · split
      · exact reduceHead_tidy whole ((within _ List.mem_cons_self).mono (by omega))
      · exact reduceCount_tidy whole
      · have deeper : n + 1 = k := bound
        subst deeper
        exact reduceFold_tidy simplifies le whole (within _ (List.mem_cons_of_mem _ List.mem_cons_self))
      · exact .pure whole

end Compile

/-! ## Trees -/

namespace Expr

open Compile

variable {again : Expr → Compile Expr}

theorem optimizeAllWith_tidy {es : List Expr}
    (parts : ∀ e ∈ es, (optimizeWith calls again e).Gives (TidyWithin n)) :
    (optimizeAllWith calls again es).Gives fun es => ∀ e ∈ es, e.TidyWithin n := by
  induction es with
  | nil => exact .pure fun _ member => by cases member
  | cons e rest rest_ih =>
      refine (parts e List.mem_cons_self).bind fun e' here => ?_
      refine (rest_ih fun other member => parts other (List.mem_cons_of_mem _ member)).bind
        fun others holds => .pure (List.forall_mem_cons.2 ⟨here, holds⟩)

theorem optimizeWith_tidy {m : Nat} (simplifies : AgainTidy m again) {e : Expr}
    (depth : e.loopDepth ≤ n) (le : n ≤ m) : (optimizeWith calls again e).Gives (TidyWithin n) := by
  induction e using byParts generalizing n with
  | step e parts_ih =>
    -- The parts of a loop are one loop less deep.
    obtain ⟨k, rfl⟩ : ∃ k, n = k + e.loops := by
      have least : e.loops ≤ e.loopDepth := by cases e <;> simp [loops, loopDepth]
      exact ⟨n - e.loops, by omega⟩
    have part : ∀ s ∈ e.parts, (optimizeWith calls again s).Gives (TidyWithin k) :=
      fun s member => parts_ih s member (loopDepth_le.1 depth s member) (by omega)
    cases e with
    | literal v => exact .pure (literal_tidy v)
    | root | documents | deferred => exact .pure (.plain rfl trivial fun _ member => by cases member)
    | contextValue type location => exact reduceContextValue_tidy type location
    | varRef var type location => exact reduceReference_tidy var type location
    | list operands type location =>
        exact (optimizeAllWith_tidy part).bind fun operands' within => reduceList_tidy within
    | range first last type location =>
        refine (part first (by simp [parts])).bind fun first' low => ?_
        exact (part last (by simp [parts])).bind fun last' high => reduceRange_tidy low high
    | arithmetic op a b type location =>
        refine (part a (by simp [parts])).bind fun a' left => ?_
        exact (part b (by simp [parts])).bind fun b' right =>
          reduceOperation_tidy rfl (forall_pair (p := (·.hasUpdates = false))) (forall_pair left right)
    | comparison op a b type location =>
        refine (part a (by simp [parts])).bind fun a' left => ?_
        exact (part b (by simp [parts])).bind fun b' right =>
          reduceOperation_tidy rfl (forall_pair (p := (·.hasUpdates = false))) (forall_pair left right)
    | conditional test yes no type location =>
        refine (part test (by simp [parts])).bind fun test' condition => ?_
        refine (requireNoUpdates_gives _ test').bind fun _ quiet => ?_
        refine (part yes (by simp [parts])).bind fun yes' positive => ?_
        refine (part no (by simp [parts])).bind fun no' negative => ?_
        exact reduceConditional_tidy quiet condition positive negative
    | filter base predicates type location =>
        refine (part base (by simp [parts])).bind fun base' input => ?_
        refine (requireNoUpdates_gives _ base').bind fun _ quiet => ?_
        refine (Gives.any _).bind fun found _ => ?_
        refine (Gives.withFocus (optimizeAllWith_tidy
          fun e member => part e (by simp [parts, member]))).bind fun predicates' conditions => ?_
        exact reduceFilter_tidy quiet input conditions
    | letIn var bound body location =>
        refine (part bound (by simp [parts])).bind fun bound' value => ?_
        refine (requireNoUpdates_gives _ bound').bind fun _ quiet => ?_
        refine (Gives.inScope (part body (by simp [parts]))).bind fun body' result => ?_
        exact reduceLet_tidy quiet value result
    | forIn var source body type location =>
        refine (part source (by simp [parts])).bind fun source' input => ?_
        refine (requireNoUpdates_gives _ source').bind fun _ quiet => ?_
        split
        · exact replace_tidy (literal_tidy _)
        · refine (Gives.inScope (part body (by simp [parts]))).bind fun body' result => ?_
          exact reduceFor_tidy simplifies le quiet input result
    | call f arguments type location =>
        exact (optimizeAllWith_tidy part).bind fun arguments' within =>
          reduceCall_tidy simplifies rfl le within
    | dynamicCall callee arguments type location =>
        refine (part callee (by simp [parts])).bind fun callee' function => ?_
        refine (optimizeAllWith_tidy
          fun e member => part e (by simp [parts, member])).bind fun arguments' within => ?_
        refine (requireNoUpdates_gives _ callee').bind fun _ quiet => ?_
        refine (requireNoneUpdates_gives _ arguments').bind fun _ none => .pure ?_
        exact .plain rfl (List.forall_mem_cons.2 ⟨quiet, none⟩) (List.forall_mem_cons.2 ⟨function, within⟩)
    | delete target location =>
        refine (part target (by simp [parts])).bind fun target' input => ?_
        refine (requireNoUpdates_gives _ target').bind fun _ quiet => .pure ?_
        exact .plain rfl (List.forall_mem_singleton.2 quiet) (List.forall_mem_singleton.2 input)

theorem optimizeWithin_tidy (depth : Nat) : AgainTidy (depth + 1) (optimizeWithin calls depth) := by
  induction depth with
  | zero => exact fun m less e depth => optimizeWith_tidy (m := 0) nofun depth (by omega)
  | succ depth depth_ih => exact fun m less e depth => optimizeWith_tidy depth_ih depth (by omega)

/-- The nodes of a compiled tree are tidy. -/
theorem optimize_tidy (e : Expr) : (e.optimizeBy calls).Gives fun e => e.Every Tidy :=
  (optimizeWithin_tidy e.loopDepth e.loopDepth (Nat.lt_succ_self _) e (Nat.le_refl _)).mono
    fun _ within => within.tidy

end Expr

end QueryKernel
