import QueryKernel.Proofs.Compile.Fold
import QueryKernel.Proofs.Compile.LoopDepth
import QueryKernel.Proofs.Compile.Undisturbed
import QueryKernel.Proofs.Eval.Fixed
import QueryKernel.Proofs.Eval.Varied

/-!
# Compiled folds and sorts

A fold or a sort of a literal sequence by a literal function item is computed in advance, or unrolled into
nested calls.  What it becomes may be put in its place anywhere in a query, if the function is pure.

The call is made in another context: at compile time neither the focus nor the variables are there that
evaluation would have offered.  A function item that reads them from its body is not protected, and what it
reads may be missing or something else.
-/

namespace QueryKernel

/-! ## Pure functions -/

/-- Calls of the item lead to calls of functions of a class only. -/
def ItemOf.Callable (callable : FunctionItem Expr → Prop) (item : Item) : Prop :=
  ∀ f, item = .function f → callable f

/-- The functions of a class are pure: what they give depends on their arguments only, and they leave contexts
alone. -/
def Calls.Pure (calls : Calls) (callable : FunctionItem Expr → Prop) : Prop :=
  ∀ f, callable f → ∀ arguments : List Value, (∀ v ∈ arguments, v.Valid) →
    ∃ result, (∀ c, calls f arguments c = (result, c)) ∧ ∀ v, result = .ok v → v.Valid

variable {calls : Calls} {callable : FunctionItem Expr → Prop} {callee : Item} {v : Value}

section Pure

variable (pure : calls.Pure callable) (holds : callee.Callable callable)

include pure holds

theorem invoke_fixed {a b : Value} (first : a.Valid) (second : b.Valid) :
    (invoke calls callee [a, b]).IsFixed ValueOf.Valid := by
  cases callee with
  | function f =>
      simp only [invoke]
      split
      · obtain ⟨result, same, valid⟩ := pure f (holds f rfl) [a, b] (by simp [first, second])
        refine ⟨result, ⟨fun c _ => same c, fun c w c' ran => ?_⟩, valid⟩
        rw [same c] at ran
        cases ran
        exact ⟨rfl, rfl⟩
      · exact .fail
  -- Maps and arrays take one argument.
  | map identity entries type => exact .bind (P := fun _ => False) .fail fun _ impossible => impossible.elim
  | array identity members type => exact .bind (P := fun _ => False) .fail fun _ impossible => impossible.elim
  | atom a => exact .fail
  | node n => exact .fail

theorem foldLeft1_fixed (location : Option Location) (v : Value) :
    (foldLeft1 calls location v callee).IsFixed ValueOf.Valid := by
  unfold foldLeft1
  split
  · exact .fail
  · refine .foldWalk (fun total valid item => ?_) _ (ValueOf.holds_one _).1 _
    exact .bind .checkStop fun _ _ => (invoke_fixed pure holds valid (ValueOf.holds_one item).1).locate

theorem comesBefore_fixed (a b : Item) : (comesBefore calls callee a b).IsFixed fun _ => True := by
  refine .bind .checkStop fun _ _ =>
    .bind (invoke_fixed pure holds (ValueOf.holds_one a).1 (ValueOf.holds_one b).1) fun v _ => ?_
  have item : (Modes.ofLiteral v).booleanItem.IsFixed fun _ => True := by
    simp only [Modes.ofLiteral]
    split
    · exact .pure trivial
    · exact .pure trivial
    · split
      · exact .pure trivial
      · exact .fail
  exact .bind item fun _ _ => .ofExcept fun _ _ => trivial

theorem sortWith_fixed (location : Option Location) (v : Value) :
    (sortWith calls location v callee).IsFixed ValueOf.Valid := by
  have asked : ∀ questions : Questions (List Item),
      (questions.run (comesBefore calls callee)).IsFixed fun _ => True := by
    intro questions
    induction questions with
    | done items => exact .pure trivial
    | ask first second next next_ih => exact .bind (comesBefore_fixed pure holds first second) fun b _ => next_ih b
  refine .bind (P := fun _ => True) ?_ fun items _ => .pure (ValueOf.ofItems_holds items).1
  rw [mergeSort_eq_run]
  exact (asked _).locate

end Pure

/-! ## Calls of literals -/

namespace Expr

/-- A fold or a sort of a literal sequence by a literal function item. -/
def higherOrderCall (f : BuiltIn) (v : Value) (callee : Item) (location : Option Location) : Expr :=
  .call f [.literal v, .literal (.one callee)] (f.resultType [.literal v, .literal (.one callee)]) location

variable {f : BuiltIn} {location : Option Location}

theorem toCallee_literal (calls : Calls) (callee : Item) :
    ((literal (.one callee)).modes calls).toCallee =
      if callee.isFunction then pure callee else Eval.raise (.wrongType callee .anyFunction) none := rfl

theorem higherOrderCall_fixed (pure : calls.Pure callable) (holds : callee.Callable callable)
    (higher : f.isHigherOrder = true) (v : Value) (location : Option Location) :
    ((higherOrderCall f v callee location).modes calls).value.IsFixed ValueOf.Valid := by
  have found : ((literal (.one callee)).modes calls).toCallee.IsFixed (· = callee) := by
    rw [toCallee_literal]
    split
    · exact .pure rfl
    · exact .fail
  cases f with
  | foldLeft1 =>
      refine .bind (P := (· = v)) (.pure rfl) fun _ same => .bind found fun _ equal => ?_
      subst same equal
      exact foldLeft1_fixed pure holds location _
  | sortWith =>
      refine .bind (P := (· = v)) (.pure rfl) fun _ same => .bind found fun _ equal => ?_
      subst same equal
      exact sortWith_fixed pure holds location _
  | _ => cases higher

/-- Such a call gives its value, and the single item of it. -/
theorem higherOrderCall_modes (higher : f.isHigherOrder = true) (v : Value) (location : Option Location) :
    (higherOrderCall f v callee location).modes calls =
      .ofValueAndItem location (higherOrderCall f v callee location).isAtMostOne
        ((higherOrderCall f v callee location).modes calls).value
        (do singleOfValue location (← ((higherOrderCall f v callee location).modes calls).value)) := by
  cases f with
  | foldLeft1 => rfl
  | sortWith => rfl
  | _ => cases higher

end Expr

/-! ## Types of results -/

theorem TypeTag.foldl_add_isSubtype {types : List ItemType} {tag : TypeTag} {wider : ItemType}
    (given : tag.type.isSubtype wider = true) (each : ∀ t ∈ types, t.isSubtype wider = true) :
    (types.foldl TypeTag.add tag).type.isSubtype wider = true := by
  induction types generalizing tag with
  | nil => exact given
  | cons t rest rest_ih =>
      obtain ⟨first, others⟩ := List.forall_mem_cons.1 each
      exact rest_ih (ItemType.union_isSubtype given first) others

/-- A type above all items of a sequence is above the type that is found for it. -/
theorem ValueOf.ofItems_type {items : List Item} {wider : ItemType} (filled : items ≠ [])
    (below : ∀ item ∈ items, item.type.isSubtype wider = true) :
    (ValueOf.ofItems items : Value).type.isSubtype wider = true := by
  obtain ⟨first, rest, rfl⟩ := List.exists_cons_of_ne_nil filled
  have tagged : (TypeTag.ofItems (first :: rest)).type.isSubtype wider = true := by
    refine TypeTag.foldl_add_isSubtype (below first List.mem_cons_self) fun t member => ?_
    obtain ⟨item, among, rfl⟩ := List.mem_map.1 member
    exact below item (List.mem_cons_of_mem _ among)
  have holds := Bundle.ofList_holds (first :: rest)
  unfold ValueOf.ofItems
  generalize Bundle.ofList (first :: rest) = bundle at holds ⊢
  cases bundle with
  | flat items =>
      obtain rfl : items = first :: rest := holds.2
      cases rest with
      | nil => exact below first List.mem_cons_self
      | cons second rest => exact tagged
  | rope r => exact tagged

/-- A value has nothing to learn from a type above its own. -/
theorem ValueOf.narrow_above {w : Value} {known : SequenceType} (above : w.type.isSubtype known.type = true) :
    w.narrow known = w := by
  have settled : ¬(known.type ≠ w.type ∧ known.type.isSubtype w.type = true) :=
    fun ⟨different, below⟩ => different (ItemType.isSubtype_antisymm below above)
  cases w with
  | empty | range r => rfl
  | one item =>
      rw [ValueOf.narrow, narrowed?_above rfl above]
      split <;> rfl
  | flat items tag => exact if_neg settled
  | tree rope tag => exact if_neg settled

/-- A sorted sequence has the same items. -/
theorem sortWith_perm {location : Option Location} {w : Value} {c c' : Context}
    (sorted : sortWith calls location v callee c = (.ok w, c')) : ∃ items, w = .ofItems items ∧ items.Perm v.items := by
  have any : LessKeeps (fun _ => True) (fun _ => True) (comesBefore calls callee) :=
    fun _ _ _ _ _ _ _ _ _ => ⟨trivial, trivial⟩
  obtain ⟨items, c₁, merged, made⟩ := Eval.bind_ok_iff.1 sorted
  obtain ⟨rfl, rfl⟩ := Eval.pure_ok_iff.1 made
  exact ⟨items, rfl, (mergeSortWithin_keeps any (fun _ _ => trivial) c items c₁ trivial
    (Eval.locate_ok_iff.1 merged)).2⟩

namespace Expr

open Compile

variable {f : BuiltIn} {location : Option Location} {k : CompileContext} {e' : Expr}

/-- What such a call gives has all that is known of its type, and as many items as that allows. -/
theorem higherOrderCall_typed (higher : f.isHigherOrder = true) (valid : v.Valid) {w : Value} {c c' : Context}
    (ran : ((higherOrderCall f v callee location).modes calls).value c = (.ok w, c')) :
    w.narrow (higherOrderCall f v callee location).sequenceType = w ∧
      ((higherOrderCall f v callee location).isAtMostOne = true → (literal w).isAtMostOne = true) := by
  cases f with
  | foldLeft1 => exact ⟨ValueOf.narrow_above w.type.isSubtype_item, fun few => by cases few⟩
  | sortWith =>
      obtain ⟨_, _, first, called⟩ := Eval.bind_ok_iff.1 ran
      obtain ⟨rfl, rfl⟩ := Eval.pure_ok_iff.1 first
      obtain ⟨_, _, found, sorted⟩ := Eval.bind_ok_iff.1 called
      obtain ⟨items, rfl, perm⟩ := sortWith_perm sorted
      have sized : (ValueOf.ofItems items : Value).size = v.size := by
        rw [(ValueOf.ofItems_holds items).1.size_eq, (ValueOf.ofItems_holds items).2, valid.size_eq, perm.length_eq]
      refine ⟨?_, fun few => ?_⟩
      · cases filled : items with
        | nil => rfl
        | cons item rest =>
            refine ValueOf.narrow_above (ValueOf.ofItems_type (by simp) fun item member => ?_)
            exact valid.covers.above item (perm.mem_iff.1 (filled ▸ member))
      · exact (congrArg (fun n => (Occurrence.ofSize n).atMostOne) sized).trans few
  | _ => cases higher

/-- The forms that a fold or a sort of literals takes. -/
inductive ReducedCall (calls : Calls) (k : CompileContext) (f : BuiltIn) (v : Value) (callee : Item)
    (location : Option Location) : Expr → Prop where
  | computed {w : Value} {context : Context}
      (ran : ((higherOrderCall f v callee location).modes calls).value k.context = (.ok w, context)) :
      ReducedCall calls k f v callee location (.literal (w.narrow (higherOrderCall f v callee location).sequenceType))
  | failing {error error' : Error} {context : Context} {place : Option Location}
      (ran : ((higherOrderCall f v callee location).modes calls).value k.context = (.error (.error error), context)) :
      ReducedCall calls k f v callee location
        (.deferred error' (.ofSequenceType (higherOrderCall f v callee location).sequenceType) place)
  | unrolled {first : Item} {rest : List Item} (fold : f = .foldLeft1) (items : v.items = first :: rest) :
      ReducedCall calls k f v callee location (callsOver (.literal (.one callee)) (.literal (.one first)) rest)
  | kept : ReducedCall calls k f v callee location (higherOrderCall f v callee location)

theorem reduceFold_made {depth : Nat} {k' : CompileContext}
    (made : reduceFold (optimizeWithin calls depth) (higherOrderCall .foldLeft1 v callee location) (.literal v)
      (.literal (.one callee)) k = (.ok e', k')) : ReducedCall calls k .foldLeft1 v callee location e' := by
  by_cases few : v.size ≤ k.context.options.unrollLimit
  · cases items : v.items with
    | nil =>
        have short : (literal v).literal?.filter (fun v => decide (v.size ≤ k.context.options.unrollLimit)) =
            some v := by simp [literal?, Option.filter, few]
        unfold reduceFold at made
        simp only [bind_apply, Compile.options, short, items] at made
        rw [← (pure_ok_iff.1 made).1]
        exact .kept
    | cons first rest =>
        obtain ⟨k₁, unrolled⟩ := reduceFold_given (.literal (.one callee)) few items depth location
        cases made.symm.trans unrolled
        exact .unrolled rfl items
  · have long : (literal v).literal?.filter (fun v => decide (v.size ≤ k.context.options.unrollLimit)) = none := by
      simp [literal?, Option.filter, few]
    unfold reduceFold at made
    simp only [bind_apply, Compile.options, long] at made
    rw [← (pure_ok_iff.1 made).1]
    exact .kept

theorem higherOrderCall_made (higher : f.isHigherOrder = true) {k' : CompileContext}
    (made : (higherOrderCall f v callee location).optimizeBy calls k = (.ok e', k')) :
    ReducedCall calls k f v callee location e' := by
  have shallow : (higherOrderCall f v callee location).loopDepth ≤ 2 := by
    simp only [higherOrderCall, loopDepth, loopDepthAll]
    split <;> decide
  rw [optimize_eq, ← optimizeWithin_eq shallow] at made
  have silent : ∀ s ∈ [literal v, literal (.one callee)], s.hasUpdates = false := forall_pair rfl rfl
  -- The arguments are left as they are.
  replace made : reduceCall calls (optimizeWithin calls 1) f [literal v, literal (.one callee)] location k =
    (.ok e', k') := made
  unfold reduceCall at made
  have other : f ≠ .error := fun same => by rw [same] at higher; cases higher
  simp only [bind_apply, requireNoneUpdates_of_quiet silent, Compile.options, if_neg other] at made
  split at made
  · cases made
  · split at made
    · obtain ⟨w, context, ran, rfl⟩ | ⟨error, context, ran, rfl⟩ := precompute_made made
      · exact .computed ran
      · exact .failing ran
    · cases f with
      | foldLeft1 => exact reduceFold_made made
      | sortWith =>
          rw [← (pure_ok_iff.1 made).1]
          exact .kept
      | _ => cases higher

/-- A literal in place of a fold or a sort that gives no other value. -/
theorem standsIn_literal (higher : f.isHigherOrder = true) {w : Value} (valid : w.Valid)
    (value : ((higherOrderCall f v callee location).modes calls).value.SameUnless .anything Eq (pure w))
    (few : (higherOrderCall f v callee location).isAtMostOne = true → (literal w).isAtMostOne = true) :
    (higherOrderCall f v callee location).StandsIn .anything calls calls (literal w) := by
  refine ⟨?_, ?_⟩
  · rw [higherOrderCall_modes higher]
    exact Modes.literal_inPlace value valid location _
  · cases known : (higherOrderCall f v callee location).isAtMostOne with
    | true => exact .inl (few known)
    | false =>
        cases single : (literal w).isAtMostOne with
        | false => exact .inl rfl
        | true =>
            -- At most one item is what decides about the boolean value.
            have fewer : w.size ≤ 1 := by
              have most := (SequenceType.isAtMostOne_iff _).1 single
              rw [show (literal w).sequenceType.most = min w.size 2 from Occurrence.most_ofSize _] at most
              omega
            have alone : w.get? 1 = none := by
              rw [valid.get?_eq]
              exact List.getElem?_eq_none (valid.size_eq ▸ fewer)
            exact .inr ⟨rfl, fun place => Modes.booleanItem_ofLiteral alone ▸ Modes.booleanItem_ofValue valid place⟩

theorem standsIn_failing (higher : f.isHigherOrder = true) {failure : Failure}
    (fixed : ((higherOrderCall f v callee location).modes calls).value.Fixed (.error failure))
    (error : Error) (place : Option Location) :
    (higherOrderCall f v callee location).StandsIn .anything calls calls
      (.deferred error (.ofSequenceType (higherOrderCall f v callee location).sequenceType) place) := by
  refine ⟨?_, .inl rfl⟩
  rw [higherOrderCall_modes higher]
  exact Modes.anything_inPlace fixed.never location _ _

variable (calls) in
theorem callsOver_modes (function result : Expr) (item : Item) (rest : List Item) :
    (callsOver function result (item :: rest)).isAtMostOne = false ∧
      (callsOver function result (item :: rest)).modes calls =
        .ofValueAndItem none false ((callsOver function result (item :: rest)).modes calls).value
          (do singleOfValue none (← ((callsOver function result (item :: rest)).modes calls).value)) := by
  induction rest generalizing result item with
  | nil => exact ⟨rfl, rfl⟩
  | cons next rest rest_ih => exact rest_ih (.dynamicCallOf function [result, .literal (.one item)] none) next

/-- Nested calls in place of a fold. -/
theorem standsIn_unrolled (valid : v.Valid) {first : Item} {rest : List Item} (items : v.items = first :: rest) :
    (higherOrderCall .foldLeft1 v callee location).StandsIn .anything calls calls
      (callsOver (.literal (.one callee)) (.literal (.one first)) rest) := by
  have value : ((higherOrderCall .foldLeft1 v callee location).modes calls).value.SameUnless .anything Eq
      ((callsOver (.literal (.one callee)) (.literal (.one first)) rest).modes calls).value :=
    Eval.sameUnless_anything fun c w c' ran =>
      callsOver_of_fold (k := .start (.initial {})) valid (.literal _) items ran
  cases rest with
  | nil => exact standsIn_literal rfl (ValueOf.holds_one first).1 value fun few => by cases few
  | cons item rest =>
      obtain ⟨many, modes⟩ := callsOver_modes calls (.literal (.one callee)) (.literal (.one first)) item rest
      refine ⟨?_, .inl many⟩
      rw [higherOrderCall_modes rfl, modes]
      have anywhere : Excuse.anything.Places location none := .inr fun _ _ => trivial
      exact Modes.ofValueAndItem_sameUnless anywhere _ value
        (value.followed fun w => singleOfValue_sameUnless anywhere w)

/-- A fold or a sort of a literal sequence by a literal function item of a class, and what it has been compiled to
somewhere. -/
inductive CompiledCall (calls : Calls) (callable : FunctionItem Expr → Prop) : Expr → Expr → Prop where
  | mk {f : BuiltIn} {v : Value} {callee : Item} {location : Option Location} {k k' : CompileContext} {e' : Expr}
      (higher : f.isHigherOrder = true) (valid : v.Valid) (holds : callee.Callable callable)
      (running : k.context.stopCause? = none)
      (made : (higherOrderCall f v callee location).optimizeBy calls k = (.ok e', k')) :
      CompiledCall calls callable (higherOrderCall f v callee location) e'

/-- What such a call has been compiled to stands for the call everywhere. -/
theorem CompiledCall.standsIn (pure : calls.Pure callable) {e : Expr} (compiled : CompiledCall calls callable e e') :
    e.StandsIn .anything calls calls e' := by
  obtain ⟨higher, valid, holds, running, made⟩ := compiled
  next f v callee location k k' =>
  obtain ⟨result, fixed, given⟩ := higherOrderCall_fixed pure holds higher v location
  cases higherOrderCall_made higher made with
  | computed ran =>
      obtain ⟨rfl, -⟩ := fixed.given _ _ _ ran
      obtain ⟨narrowed, few⟩ := higherOrderCall_typed higher valid ran
      rw [narrowed]
      exact standsIn_literal higher (given _ rfl) fixed.sameUnless few
  | failing ran =>
      have failed := fixed.running k.context running
      rw [ran] at failed
      cases failed
      exact standsIn_failing higher fixed _ _
  | unrolled fold items =>
      subst fold
      exact standsIn_unrolled valid items
  | kept => exact ⟨.refl _, .inl rfl⟩

end Expr

/-! ## Queries -/

open QueryKernel.Expr

/-- In any query folds and sorts of literals may be replaced by what they have been compiled to, each wherever that
was.  If the functions are pure, what has a result without compilation has the same with it, in the bodies of
bindings and loops and in predicates as well. -/
theorem higherOrder_calls_compiled (pure : calls.Pure callable) {e e' : Expr}
    (varied : e.Varied (CompiledCall calls callable) Eq e') (c c' : Context) :
    (∀ v, e.evaluateBy calls c = (.ok v, c') → e'.evaluateBy calls c = (.ok v, c')) ∧
      (∀ item, e.evaluateFirstBy calls c = (.ok item, c') → e'.evaluateFirstBy calls c = (.ok item, c')) ∧
      ∀ b, e.evaluateBooleanBy calls c = (.ok b, c') → e'.evaluateBooleanBy calls c = (.ok b, c') := by
  have called : calls.SameUnless .anything calls := fun _ _ => .refl _
  have bound : ∀ {var var' : Variable}, var = var' → ∀ location v,
      (bindVariable var location v).SameUnless .anything Eq (bindVariable var' location v) := by
    rintro var _ rfl location v
    exact .refl _
  have modes : (e.modes calls).SameUnless .anything (e'.modes calls) :=
    (varied.standsIn called (fun compiled => compiled.standsIn pure) bound).modes
  have first : e.evaluateFirstBy calls |>.SameUnless .anything Eq (e'.evaluateFirstBy calls) :=
    .followed (.refl _) fun _ => modes.stream.bind fun s t related =>
      related.ask (.pure rfl) fun item s t _ => .pure rfl
  exact ⟨fun _ ran => (Eval.SameUnless.followed (.refl _) fun _ => modes.value).leads ran, fun _ ran => first.leads ran,
    fun _ ran => (Eval.SameUnless.followed (.refl _) fun _ => modes.boolean).leads ran⟩

theorem firstArgument_pure (callable : FunctionItem Expr → Prop) : firstArgument.Pure callable := by
  refine fun f _ arguments valid => ⟨.ok (arguments.headD .empty), fun c => rfl, fun v same => ?_⟩
  cases same
  cases arguments with
  | nil => trivial
  | cons v rest => exact valid v List.mem_cons_self

/-- `$d` -/
def inputVariable : Variable := ⟨0, "d", none⟩

/-- `for $x in $d return ($x, …)` -/
def besideEach (e : Expr) : Expr :=
  .forIn ⟨1, "x", none⟩ (.varRefOf inputVariable none)
    (.list [.varRefOf ⟨1, "x", none⟩ none, e] (.ofSequenceType (.many .item)) none) (.ofSequenceType (.many .item)) none

/-- The start of a query on two numbers. -/
def twoNumbers : Context := (Context.initial {}).bind inputVariable (.ofItems [.integer 7, .integer 8])

/-- The first of three numbers, found in advance, stands beside each number. -/
theorem besideEach_compiled :
    let call := higherOrderCall .foldLeft1 (.ofItems [.integer 1, .integer 2, .integer 3])
      (.function keepFirst) none
    ∃ v c', (besideEach call).evaluateBy firstArgument twoNumbers = (.ok v, c') ∧
      v.items = [.integer 7, .integer 1, .integer 8, .integer 1] ∧
      (besideEach (.literal (.integer 1))).evaluateBy firstArgument twoNumbers = (.ok v, c') := by
  intro call
  let k : CompileContext := .start (.initial {})
  have made : call.optimizeBy firstArgument k = (.ok (.literal (.integer 1)), (call.optimizeBy firstArgument k).2) :=
    Prod.ext (by with_unfolding_all rfl) rfl
  have compiled : CompiledCall firstArgument (fun _ => True) call (.literal (.integer 1)) :=
    .mk rfl (ValueOf.ofItems_holds _).1 (fun _ _ => trivial) rfl made
  have parts : ∀ pair ∈ [(varRefOf ⟨1, "x", none⟩ none, varRefOf ⟨1, "x", none⟩ none),
      (call, .literal (.integer 1))], pair.1.Varied (CompiledCall firstArgument fun _ => True) Eq pair.2 :=
    List.forall_mem_cons.2 ⟨.varRef rfl rfl, List.forall_mem_singleton.2 (.part compiled)⟩
  have varied : (besideEach call).Varied (CompiledCall firstArgument fun _ => True) Eq
      (besideEach (.literal (.integer 1))) := .forIn rfl (.varRef rfl rfl) (.list parts)
  have ran : ((besideEach call).evaluateBy firstArgument twoNumbers).1 = .ok (.ofItems
      [.integer 7, .integer 1, .integer 8, .integer 1]) := by with_unfolding_all rfl
  have whole : (besideEach call).evaluateBy firstArgument twoNumbers = (.ok _, _) := Prod.ext ran rfl
  exact ⟨_, _, whole, rfl, (higherOrder_calls_compiled (firstArgument_pure _) varied _ _).1 _ whole⟩

/-- `for $x in $d return fold-left1((1, 2), function($a, $b) { $x })` -/
def foldLoop : Expr :=
  let x : Variable := ⟨1, "x", none⟩
  let giveLoop : FunctionItem Expr :=
    ⟨0, none, [⟨2, "a", none⟩, ⟨3, "b", none⟩], .varRefOf x none, .anyFunction⟩
  .forOf x (.varRefOf inputVariable none)
    (higherOrderCall .foldLeft1 (.ofItems [.integer 1, .integer 2]) (.function giveLoop) none) none

/-- A function that gives the variable of the loop around it finds none when it is called in advance. -/
theorem foldLoop_fails_compiled :
    (∃ r, (foldLoop.run.value twoNumbers).1 = .ok r ∧ r.items = [.integer 7, .integer 8]) ∧
      ∃ e, (foldLoop.compile twoNumbers).1 = .ok e ∧
        (e.evaluate (foldLoop.compile twoNumbers).2).1 = .error (.error ⟨.undeclared "x", none⟩) :=
  ⟨⟨_, by with_unfolding_all rfl, by with_unfolding_all rfl⟩, _, by with_unfolding_all rfl,
    by with_unfolding_all rfl⟩

end QueryKernel
