import QueryKernel.Proofs.Compile.Tidy

/-!
# Depth of loops

Compilation does not put more loops and folds around each other than there were.  What is unrolled can be much larger
than the loop, and is simplified once more; but it is less deep than the loop or the fold that it comes from, and this
is why simplifying ends.

Everything rests on `Expr.optimizeWith_congr`: two ways to simplify what is unrolled from a tree cannot be told
apart if they agree on all less deep trees.  So the limit that `Expr.optimize` takes from the depth of a tree is
never reached.
-/

namespace QueryKernel

variable {calls : Calls}

namespace Compile

open QueryKernel.Expr (TidyWithin)

variable {again again' : Expr → Compile Expr} {n : Nat}

theorem Gives.bind_congr {A B : Type} {P : A → Prop} {x : Compile A} {f g : A → Compile B} (gives : x.Gives P)
    (same : ∀ a, P a → f a = g a) : (x >>= f) = (x >>= g) := by
  funext c
  rw [bind_apply, bind_apply]
  cases ran : x c with
  | mk result c' =>
      cases result with
      | ok a => exact congrFun (same a (gives.given ran)) c'
      | error e => rfl

theorem exists_of_isOk {A : Type} {x : Compile A} {k : CompileContext} (succeeds : (x k).1.isOk = true) :
    ∃ a k', x k = (.ok a, k') := by
  cases ran : x k with
  | mk result k' =>
      rw [ran] at succeeds
      cases result with
      | ok a => exact ⟨a, k', rfl⟩
      | error e => cases succeeds

/-! ## Loops and folds -/

theorem reduceFor_congr (agree : ∀ e : Expr, e.loopDepth ≤ n → again e = again' e) {before : ExprSummary}
    {var : Variable} {source body : Expr} {location : Option Location} (shallow : body.loopDepth ≤ n) :
    reduceFor again before var source body location = reduceFor again' before var source body location := by
  refine (Gives.any _).bind_congr fun most _ => ?_
  dsimp only
  split
  · rfl
  · refine (unrolledLoop_depth shallow).bind_congr fun bindings listed => ?_
    rw [agree _ listed]

theorem reduceFold_congr (agree : ∀ e : Expr, e.loopDepth ≤ n → again e = again' e) {e items callee : Expr}
    (shallow : callee.loopDepth ≤ n) : reduceFold again e items callee = reduceFold again' e items callee := by
  refine (Gives.any _).bind_congr fun most _ => ?_
  dsimp only
  split
  · rfl
  · split
    · rfl
    · next first rest _ =>
      have start : (Expr.literal (.one first)).loopDepth ≤ n := Nat.zero_le n
      refine (unrolledFold_depth shallow start).bind_congr fun calls nested => ?_
      rw [agree _ nested]

/-- Only a fold is unrolled, and it is deeper than its arguments. -/
theorem reduceCall_congr {f : BuiltIn}
    (agree : ∀ e : Expr, e.loopDepth < n + (if f = .foldLeft1 then 1 else 0) → again e = again' e)
    {arguments : List Expr} {location : Option Location} (shallow : ∀ e ∈ arguments, e.loopDepth ≤ n) :
    reduceCall calls again f arguments location = reduceCall calls again' f arguments location := by
  refine (Gives.any _).bind_congr fun _ _ => (Gives.any _).bind_congr fun most _ => ?_
  dsimp only
  generalize (if f = .error then none else literalItems? arguments) = count
  split
  · rfl
  · split
    · rfl
    · split
      · rfl
      · rfl
      · exact reduceFold_congr (fun e least => agree e (Nat.lt_succ_of_le least))
          (shallow _ (List.mem_cons_of_mem _ List.mem_cons_self))
      · rfl

end Compile

/-! ## Trees -/

namespace Expr

open Compile

variable {again again' : Expr → Compile Expr} {n : Nat}

theorem optimizeAllWith_congr {es : List Expr}
    (parts : ∀ e ∈ es, optimizeWith calls again e = optimizeWith calls again' e) :
    optimizeAllWith calls again es = optimizeAllWith calls again' es := by
  induction es with
  | nil => rfl
  | cons e rest rest_ih =>
      rw [optimizeAllWith, optimizeAllWith, parts e List.mem_cons_self,
        rest_ih fun other member => parts other (List.mem_cons_of_mem _ member)]

/-- What is unrolled from a tree is less deep than the tree. -/
theorem optimizeWith_congr (simplifies : AgainTidy n again)
    (agree : ∀ e : Expr, e.loopDepth < n → again e = again' e) {e : Expr} (depth : e.loopDepth ≤ n) :
    optimizeWith calls again e = optimizeWith calls again' e := by
  induction e using byParts with
  | step e parts_ih =>
    -- The parts of a loop are one loop less deep.
    obtain ⟨k, rfl⟩ : ∃ k, n = k + e.loops := by
      have least : e.loops ≤ e.loopDepth := by cases e <;> simp [loops, loopDepth]
      exact ⟨n - e.loops, by omega⟩
    have shallow : ∀ s ∈ e.parts, s.loopDepth ≤ k := loopDepth_le.1 depth
    have same : ∀ s ∈ e.parts, optimizeWith calls again s = optimizeWith calls again' s :=
      fun s member => parts_ih s member (Nat.le_add_right_of_le (shallow s member))
    have within : ∀ s ∈ e.parts, (optimizeWith calls again s).Gives (TidyWithin k) :=
      fun s member => optimizeWith_tidy simplifies (shallow s member) (Nat.le_add_right k _)
    cases e with
    | literal | contextValue | root | documents | varRef | deferred => rfl
    | list operands type location =>
        have listed : optimizeAllWith calls again operands = optimizeAllWith calls again' operands :=
          optimizeAllWith_congr same
        rw [optimizeWith, optimizeWith, listed]
    | range a b | arithmetic op a b | comparison op a b | letIn var a b =>
        rw [optimizeWith, optimizeWith, same a (by simp [parts]), same b (by simp [parts])]
    | conditional test yes no type location =>
        rw [optimizeWith, optimizeWith, same test (by simp [parts]), same yes (by simp [parts]),
          same no (by simp [parts])]
    | filter base predicates type location =>
        rw [optimizeWith, optimizeWith, same base (by simp [parts]),
          optimizeAllWith_congr fun e member => same e (by simp [parts, member])]
    | dynamicCall callee arguments type location =>
        rw [optimizeWith, optimizeWith, same callee (by simp [parts]),
          optimizeAllWith_congr fun e member => same e (by simp [parts, member])]
    | delete target location => rw [optimizeWith, optimizeWith, same target (by simp [parts])]
    | forIn var source body type location =>
        rw [optimizeWith, optimizeWith, ← same source (by simp [parts]), ← same body (by simp [parts])]
        refine (Gives.any _).bind_congr fun source' _ => (Gives.any _).bind_congr fun _ _ => ?_
        split
        · rfl
        · refine (Gives.inScope (within body (by simp [parts]))).bind_congr fun body' result => ?_
          exact reduceFor_congr (fun e least => agree e (Nat.lt_succ_of_le least)) result.depth
    | call f arguments type location =>
        have listed : optimizeAllWith calls again arguments = optimizeAllWith calls again' arguments :=
          optimizeAllWith_congr same
        rw [optimizeWith, optimizeWith, ← listed]
        refine (optimizeAllWith_tidy within).bind_congr fun arguments' results => ?_
        exact reduceCall_congr agree fun e member => (results e member).depth

theorem optimize_again (n : Nat) : AgainTidy n (optimizeBy calls) := fun _ _ e depth =>
  (optimizeWithin_tidy e.loopDepth e.loopDepth (Nat.lt_succ_self _) e (Nat.le_refl _)).mono
    fun _ within => within.mono depth

/-- A limit that is at least the depth makes no difference. -/
theorem optimizeWithin_eq {depth : Nat} {e : Expr} (enough : e.loopDepth ≤ depth) :
    e.optimizeWithin calls depth = e.optimizeWith calls (optimizeBy calls) := by
  induction depth using Nat.strongRecOn generalizing e with
  | ind depth depth_ih =>
      cases depth with
      | zero =>
          refine (optimizeWith_congr (optimize_again 0) (fun e least => ?_) enough).symm
          exact absurd least (Nat.not_lt_zero _)
      | succ depth =>
          refine (optimizeWith_congr (optimize_again (depth + 1)) (fun e least => ?_) enough).symm
          have shallow := Nat.le_of_lt_succ least
          rw [depth_ih depth (Nat.lt_succ_self depth) shallow, optimizeBy,
            depth_ih e.loopDepth least (Nat.le_refl _)]

/-- Simplifying goes on with the same, as if there were no limit. -/
theorem optimize_eq (e : Expr) : e.optimizeBy calls = e.optimizeWith calls (optimizeBy calls) :=
  optimizeWithin_eq (Nat.le_refl _)

/-- Loops do not get deeper, and whatever is handed back to be simplified once more is less deep than the expression
that is being simplified: what becomes of other trees makes no difference. -/
theorem optimize_never_deepens (calls : Calls) (e : Expr) :
    (∀ k e' k', e.optimizeBy calls k = (.ok e', k') → e'.loopDepth ≤ e.loopDepth) ∧
      (∀ other : Expr → Compile Expr,
        e.optimizeBy calls = e.optimizeWith calls fun u =>
          if u.loopDepth < e.loopDepth then u.optimizeBy calls else other u) ∧
      (∀ var source body type location, e = .forIn var source body type location →
        ∀ items k bindings k', unrolledLoop var body location items k = (.ok bindings, k') →
          (listOf bindings none).loopDepth < e.loopDepth) ∧
      ∀ items callee type location, e = .call .foldLeft1 [items, callee] type location →
        ∀ first rest k calls k', unrolledFold callee (.literal (.one first)) rest k = (.ok calls, k') →
          calls.loopDepth < e.loopDepth := by
  refine ⟨fun k e' k' optimized => ?_, fun other => ?_, ?_, ?_⟩
  · have within : (e.optimizeBy calls).Gives (TidyWithin e.loopDepth) :=
      optimize_again (e.loopDepth + 1) e.loopDepth (Nat.lt_succ_self _) e (Nat.le_refl _)
    exact (within.given optimized).depth
  · rw [optimize_eq e]
    exact optimizeWith_congr (optimize_again _) (fun u less => (if_pos less).symm) (Nat.le_refl _)
  · rintro var source body type location rfl items k bindings k' unrolled
    have shallow := (unrolledLoop_depth (Nat.le_refl body.loopDepth)).given unrolled
    exact Nat.lt_succ_of_le (Nat.le_trans shallow (Nat.le_max_right _ _))
  · rintro items callee type location rfl first rest k calls k' unrolled
    have start : (literal (.one first)).loopDepth ≤ callee.loopDepth := Nat.zero_le _
    have shallow := (unrolledFold_depth (Nat.le_refl _) start).given unrolled
    have listed : callee.loopDepth ≤ loopDepthAll [items, callee] :=
      loopDepthAll_le.1 (Nat.le_refl _) callee (List.mem_cons_of_mem _ List.mem_cons_self)
    exact Nat.lt_succ_of_le (Nat.le_trans shallow listed)

/-- `fold-left1(($x, 7), $f)` -/
def foldOfPair (x : Variable) : Expr :=
  let items : Expr := .listOf [.varRefOf x none, .literal (.integer 7)] none
  let callee : Expr := .varRefOf ⟨1, "f", none⟩ none
  .call .foldLeft1 [items, callee] (BuiltIn.foldLeft1.resultType [items, callee]) none

/-- `for $x in (1, 2) return fold-left1(($x, 7), $f)` -/
def foldInLoop : Expr :=
  let x : Variable := ⟨0, "x", none⟩
  .forOf x (.literal (.ofItems [.integer 1, .integer 2])) (foldOfPair x) none

/-- The items of the fold are known only in what the loop becomes, so that unrolling it has to wait for that. -/
theorem foldInLoop_never_deepens :
    foldInLoop.loopDepth = 2 ∧
      (∃ e' k', foldInLoop.optimize (.start (.initial {})) = (.ok e', k') ∧ e'.loopDepth ≤ 2) ∧
      (∃ bindings k', unrolledLoop ⟨0, "x", none⟩ (foldOfPair ⟨0, "x", none⟩) none [.integer 1, .integer 2]
        (.start (.initial {})) = (.ok bindings, k') ∧ (listOf bindings none).loopDepth < 2) ∧
      ∃ calls k', unrolledFold (.varRefOf ⟨1, "f", none⟩ none) (.literal (.one (.integer 1))) [.integer 7]
        (.start (.initial {})) = (.ok calls, k') ∧ calls.loopDepth < 1 := by
  obtain ⟨bounded, -, loop, -⟩ := optimize_never_deepens (callsWithin callDepth) foldInLoop
  obtain ⟨-, -, -, fold⟩ := optimize_never_deepens (callsWithin callDepth) (foldOfPair ⟨0, "x", none⟩)
  have simplifies : (foldInLoop.optimize (.start (.initial {}))).1.isOk = true := by decide +kernel
  obtain ⟨e', k, optimized⟩ := exists_of_isOk simplifies
  have unrolled := loop _ _ _ _ _ rfl [.integer 1, .integer 2] (.start (.initial {})) _ _ rfl
  have called := fold _ _ _ _ rfl (.integer 1) [.integer 7] (.start (.initial {})) _ _ rfl
  exact ⟨rfl, ⟨e', k, optimized, bounded _ e' k optimized⟩, ⟨_, _, rfl, unrolled⟩, ⟨_, _, rfl, called⟩⟩

end Expr

end QueryKernel
