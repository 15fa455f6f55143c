import QueryKernel.Proofs.Compile.Declared
import QueryKernel.Proofs.Compile.Narrowed

/-!
# Unrolled folds

A fold over few literal items is unrolled into nested calls.  Where the fold has a result, the calls have
the same and leave the same context behind, whatever function items do.

The order of evaluation is another one.  A fold finds its function once and calls it in turn; nested calls find
it once for each item, all before the first call is made, and ask for the innermost result first.  This comes to
the same because finding a literal or a variable changes nothing.  What is missing from the calls is the
question, asked between the items of a fold, whether to stop.

## Definitions

* `Expr.IsGiven` has the function arguments that are literals or variables bound outside.
* `callsOver` are the calls into which a fold is unrolled.
* `Failure.SameButPlace` compares failures that may have a place.
-/

namespace QueryKernel

/-- A literal, or a variable that is not declared in the query. -/
inductive Expr.IsGiven (k : CompileContext) : Expr → Prop where
  | literal (v : Value) : IsGiven k (.literal v)
  | external {var : Variable} {type : StaticType} {location : Option Location}
      (noValue : k.variableValue? var.id = none) (noType : k.variableType? var.id = none) :
      IsGiven k (.varRef var type location)

/-- Calls of a function nested over items. -/
def callsOver (callee result : Expr) (items : List Item) : Expr :=
  items.foldl (fun result item => .dynamicCallOf callee [result, .literal (.one item)] none) result

/-- A failure, possibly with a place where the other one has none. -/
def Failure.SameButPlace (failure failure' : Failure) : Prop :=
  failure = failure' ∨ ∃ e location, failure' = .error e ∧ failure = .error (e.locate location)

theorem ErrorOf.locate_none (e : Error) : e.locate none = e := by
  obtain ⟨cause, location⟩ := e
  cases location <;> rfl

variable {calls : Calls} {k : CompileContext} {callee : Expr}

/-! ## Finding the function -/

variable (calls) in
/-- Finding the function changes nothing. -/
theorem toCallee_steady (given : callee.IsGiven k) (c : Context) :
    ((callee.modes calls).toCallee c).2 = c := by
  have steady : (callee.modes calls).Always (· = c) .any := by
    cases given with
    | literal v => exact .ofLiteral Kind.any_lawful trivial
    | external =>
        refine .ofValue Kind.any_lawful (Eval.Always.context.bind fun d _ => ?_)
        split
        · exact .pure trivial
        · exact .raise
  exact (steady.toCallee c rfl).1

/-- So it may as well be found once. -/
theorem toCallee_twice {α : Type} (given : callee.IsGiven k) (f : Item → Item → Eval α) :
    ((callee.modes calls).toCallee >>= fun first => (callee.modes calls).toCallee >>= fun second => f first second) =
      (callee.modes calls).toCallee >>= fun found => f found found := by
  funext c
  have steady := toCallee_steady calls given c
  simp only [Eval.bind_apply]
  cases found : (callee.modes calls).toCallee c with
  | mk result c₁ =>
      rw [found] at steady
      obtain rfl : c₁ = c := steady
      cases result with
      | error e => rfl
      | ok item => simp only [found]

/-! ## Nested calls -/

/-- The function is called for one item after another, with the result so far as first argument. -/
def callEach (calls : Calls) (callee : Item) (location : Option Location) : Value → List Item → Eval Value :=
  Eval.foldList fun total item => (invoke calls callee [total, .one item]).locate location

theorem pairCall_eq (result : Expr) (item : Item) :
    ((Expr.dynamicCallOf callee [result, .literal (.one item)] none).modes calls).value =
      (callee.modes calls).toCallee >>= fun found =>
        (result.modes calls).value >>= fun total => (invoke calls found [total, .one item]).locate none := by
  show dynamicValue calls _ _ none = _
  refine congrArg _ (funext fun found => ?_)
  show (Eval.foldList _ _ (Expr.modesAll calls [result, .literal (.one item)]) >>= _) = _
  rw [Expr.modesAll, Eval.foldList_cons, Eval.bind_assoc, Eval.bind_assoc]
  rfl

/-- The calls find the function, then the first result, and are made one after another. -/
theorem callsOver_value (given : callee.IsGiven k) (result : Expr) (item : Item) (rest : List Item) :
    ((callsOver callee result (item :: rest)).modes calls).value =
      (callee.modes calls).toCallee >>= fun found =>
        (result.modes calls).value >>= fun total => callEach calls found none total (item :: rest) := by
  induction rest generalizing result item with
  | nil =>
      refine (pairCall_eq result item).trans ?_
      refine congrArg _ (funext fun found => congrArg _ (funext fun total => ?_))
      exact (Eval.bind_pure _).symm
  | cons next rest rest_ih =>
      show ((callsOver callee (.dynamicCallOf callee [result, .literal (.one item)] none)
        (next :: rest)).modes calls).value = _
      rw [rest_ih, pairCall_eq]
      simp only [Eval.bind_assoc]
      rw [toCallee_twice given]
      rfl

/-! ## The fold -/

/-- The calls of a fold, with the question whether to stop before each of them. -/
def polledEach (calls : Calls) (callee : Item) (location : Option Location) : Value → List Item → Eval Value :=
  Eval.foldList fun total item => do
    Eval.checkStop
    (invoke calls callee [total, .one item]).locate location

theorem foldLeft1_eq {location : Option Location} {v : Value} (valid : v.Valid) {first : Item} {rest : List Item}
    (items : v.items = first :: rest) (callee : Item) :
    foldLeft1 calls location v callee = polledEach calls callee location (.one first) rest := by
  unfold foldLeft1
  obtain ⟨item, reads⟩ := valid.walk_reads.next
  generalize v.walk.next = step at item reads
  obtain ⟨found, walk⟩ := step
  rw [items, List.head?_cons] at item
  rw [items, List.tail_cons] at reads
  dsimp only at item reads
  subst item
  have whole : rest.take v.size = rest := by
    rw [valid.size_eq, items]
    exact List.take_of_length_le (Nat.le_succ _)
  dsimp only
  rw [Eval.foldWalk_eq _ _ reads, whole]
  rfl

/-- A fold that succeeds is those calls, with nothing to stop them in between. -/
theorem callEach_of_fold {location : Option Location} {callee : Item} {items : List Item} {total v : Value}
    {c c' : Context} (folded : polledEach calls callee location total items c = (.ok v, c')) :
    callEach calls callee none total items c = (.ok v, c') := by
  induction items generalizing total c with
  | nil => exact folded
  | cons item rest rest_ih =>
      rw [polledEach, Eval.foldList_cons, Eval.bind_ok_iff] at folded
      obtain ⟨next, c₁, called, others⟩ := folded
      obtain ⟨_, c₂, checked, invoked⟩ := Eval.bind_ok_iff.1 called
      obtain ⟨-, rfl⟩ := Eval.checkStop_ok_iff.1 checked
      rw [callEach, Eval.foldList_cons, Eval.bind_ok_iff]
      refine ⟨next, c₁, ?_, rest_ih others⟩
      exact Eval.locate_ok_iff.2 (Eval.locate_ok_iff.1 invoked)

theorem foldLeft1_cons {location : Option Location} {v w : Value} {callee : Item} (valid : v.Valid) {first : Item}
    {rest : List Item} (items : v.items = first :: rest) {c c' : Context}
    (folded : foldLeft1 calls location v callee c = (.ok w, c')) :
    callEach calls callee none (.one first) rest c = (.ok w, c') := by
  rw [foldLeft1_eq valid items] at folded
  exact callEach_of_fold folded

/-- A fold that fails has made some of the calls and is then told to stop, or the calls fail in the same way. -/
theorem callEach_of_failed {location : Option Location} {callee : Item} {items : List Item} {total : Value}
    {failure : Failure} {c c' : Context}
    (failed : polledEach calls callee location total items c = (.error failure, c')) :
    (∃ before item after w, items = before ++ item :: after ∧
      callEach calls callee none total before c = (.ok w, c') ∧ Eval.checkStop c' = (.error failure, c')) ∨
    ∃ failure', callEach calls callee none total items c = (.error failure', c') ∧
      failure.SameButPlace failure' := by
  induction items generalizing total c with
  | nil => cases failed
  | cons item rest rest_ih =>
      rw [polledEach, Eval.foldList_cons, Eval.bind_apply, Eval.bind_apply] at failed
      -- A fold asks before each call whether to stop; the nested calls do not.
      cases asked : Eval.checkStop c with
      | mk answer c₀ =>
          rw [asked] at failed
          cases answer with
          | error refusal =>
              cases failed
              obtain rfl : c' = c := by
                unfold Eval.checkStop at asked
                split at asked <;> cases asked
                rfl
              exact .inl ⟨[], item, rest, total, rfl, rfl, asked⟩
          | ok =>
              obtain rfl := (Eval.checkStop_ok_iff.1 asked).2
              dsimp only [Eval.locate] at failed
              have step : ∀ items, callEach calls callee none total (item :: items) =
                  (invoke calls callee [total, .one item]).locate none >>= fun next =>
                    callEach calls callee none next items := fun items => Eval.foldList_cons ..
              cases called : invoke calls callee [total, .one item] c₀ with
              | mk result c₁ =>
                  rw [called] at failed
                  cases result with
                  | ok next =>
                      have made : (invoke calls callee [total, .one item]).locate none c₀ = (.ok next, c₁) :=
                        Eval.locate_ok_iff.2 called
                      simp only [step, Eval.bind_apply, made]
                      refine (rest_ih failed).imp_left ?_
                      rintro ⟨before, last, after, w, rfl, reached, refused⟩
                      refine ⟨item :: before, last, after, w, rfl, ?_, refused⟩
                      simp only [step, Eval.bind_apply, made]
                      exact reached
                  | error e =>
                      rw [step, Eval.bind_apply]
                      dsimp only [Eval.locate]
                      rw [called]
                      cases e with
                      | error e =>
                          cases failed
                          refine .inr ⟨_, rfl, .inr ⟨e.locate none, location, rfl, ?_⟩⟩
                          rw [ErrorOf.locate_none]
                      | fault fault =>
                          cases failed
                          exact .inr ⟨_, rfl, .inl rfl⟩
                      | callsTooDeep =>
                          cases failed
                          exact .inr ⟨_, rfl, .inl rfl⟩

/-! ## Compilation -/

open Compile

theorem copy_given (given : callee.IsGiven k) (k' : CompileContext) :
    Compile.copy callee [] k' = (.ok (callee, []), k') := by
  cases given with
  | literal v => rfl
  | external => rfl

theorem unrolledFold_given (given : callee.IsGiven k) (result : Expr) (items : List Item) (k' : CompileContext) :
    unrolledFold callee result items k' = (.ok (callsOver callee result items), k') := by
  induction items generalizing result with
  | nil => rfl
  | cons item rest rest_ih =>
      simp only [unrolledFold, bind_apply, copy_given given]
      exact rest_ih _

theorem optimize_given (again : Expr → Compile Expr) (given : callee.IsGiven k) :
    callee.optimizeWith calls again k = (.ok callee, k) := by
  cases given with
  | literal v => rfl
  | external noValue noType =>
      rw [Expr.optimizeWith, reduceReference, bind_apply, state]
      simp only [noValue, noType]
      rfl

theorem hasUpdates_given (given : callee.IsGiven k) : callee.hasUpdates = false := by
  cases given <;> rfl

/-- The calls are as simple as they get. -/
theorem optimize_callsOver (again : Expr → Compile Expr) (given : callee.IsGiven k) {result : Expr}
    (items : List Item) (quiet : result.hasUpdates = false)
    (kept : result.optimizeWith calls again k = (.ok result, k)) :
    (callsOver callee result items).optimizeWith calls again k = (.ok (callsOver callee result items), k) := by
  induction items generalizing result with
  | nil => exact kept
  | cons item rest rest_ih =>
      refine rest_ih rfl ?_
      have arguments : Expr.optimizeAllWith calls again [result, .literal (.one item)] k =
          (.ok [result, .literal (.one item)], k) := by
        simp only [Expr.optimizeAllWith, bind_apply, kept, Expr.optimizeWith]
        rfl
      have silent : ∀ s ∈ [result, .literal (.one item)], s.hasUpdates = false :=
        Expr.forall_pair quiet rfl
      have function : requireNoUpdates (Expr.dynamicCallOf callee [result, .literal (.one item)] none).description
          callee k = (.ok (), k) := by
        rw [requireNoUpdates, hasUpdates_given given]
        rfl
      show Expr.optimizeWith calls again (.dynamicCall _ _ _ none) k = _
      rw [Expr.optimizeWith]
      refine bind_ok_iff.2 ⟨_, k, optimize_given again given, bind_ok_iff.2 ⟨_, k, arguments, ?_⟩⟩
      exact bind_ok_iff.2 ⟨(), k, function, bind_ok_iff.2 ⟨(), k, requireNoneUpdates_of_quiet silent, rfl⟩⟩

theorem narrow_item (item : Item) : (Expr.literal (.one item)).narrow .anything = .literal (.one item) := by
  show Expr.literal ((ValueOf.one item).narrow .anything) = _
  rw [ValueOf.narrow, narrowed?_anything]
  split <;> rfl

theorem narrow_callsOver {result : Expr} (kept : result.narrow .anything = result) (items : List Item) :
    (callsOver callee result items).narrow .anything = callsOver callee result items := by
  induction items generalizing result with
  | nil => exact kept
  | cons item rest rest_ih =>
      refine rest_ih ?_
      simp only [Expr.dynamicCallOf, Expr.narrow, narrowed?_anything]

theorem reduceFold_given {v : Value} (given : callee.IsGiven k) (few : v.size ≤ k.context.options.unrollLimit)
    {first : Item} {rest : List Item} (items : v.items = first :: rest) (depth : Nat) (location : Option Location) :
    ∃ k', reduceFold (Expr.optimizeWithin calls depth) (.call .foldLeft1 [.literal v, callee]
      (.ofSequenceType .anything) location) (.literal v) callee k =
        (.ok (callsOver callee (.literal (.one first)) rest), k') := by
  have short : (Expr.literal v).literal?.filter (fun v => decide (v.size ≤ k.context.options.unrollLimit)) =
      some v := by simp [Expr.literal?, Option.filter, few]
  have simplified : Expr.optimizeWithin calls depth (callsOver callee (.literal (.one first)) rest) k =
      (.ok (callsOver callee (.literal (.one first)) rest), k) := by
    cases depth with
    | zero => exact optimize_callsOver _ given rest rfl rfl
    | succ depth => exact optimize_callsOver _ given rest rfl rfl
  have whole : (callsOver callee (.literal (.one first)) rest).narrow .anything =
      callsOver callee (.literal (.one first)) rest := narrow_callsOver (narrow_item first) rest
  obtain ⟨k', replaced⟩ := replaceWith_ok (.call .foldLeft1 [.literal v, callee] (.ofSequenceType .anything) location)
    (callsOver callee (.literal (.one first)) rest) k
  refine ⟨k', ?_⟩
  unfold reduceFold
  simp only [bind_apply, options, short, items, unrolledFold_given given, simplified, replaced]
  exact congrArg (fun e => (Except.ok e, k')) whole

theorem foldLeft1_call_value {v : Value} {type : StaticType} {location : Option Location} :
    ((Expr.call .foldLeft1 [.literal v, callee] type location).modes calls).value =
      (callee.modes calls).toCallee >>= fun found => foldLeft1 calls location v found := rfl

/-- The result of a fold is that of the calls, which leave the same context behind. -/
theorem callsOver_of_fold {v w : Value} (valid : v.Valid) (given : callee.IsGiven k) {first : Item}
    {rest : List Item} (items : v.items = first :: rest) {type : StaticType} {location : Option Location}
    {calls : Calls} {c c' : Context}
    (ran : ((Expr.call .foldLeft1 [.literal v, callee] type location).modes calls).value c = (.ok w, c')) :
    ((callsOver callee (.literal (.one first)) rest).modes calls).value c = (.ok w, c') := by
  rw [foldLeft1_call_value] at ran
  obtain ⟨found, c₁, function, folded⟩ := Eval.bind_ok_iff.1 ran
  have steady := toCallee_steady calls given c
  rw [function] at steady
  -- Looking up the callee leaves the context as it is.
  obtain rfl : c₁ = c := steady
  have called := foldLeft1_cons valid items folded
  cases rest with
  | nil => exact called
  | cons item rest =>
      rw [callsOver_value given]
      exact Eval.bind_ok_iff.2 ⟨found, c₁, function, called⟩

/-- The fold is told to stop between its calls: those before some item have been made. -/
def StoppedBetween (calls : Calls) (callee : Expr) (first : Item) (rest : List Item) (failure : Failure)
    (c c' : Context) : Prop :=
  ∃ before item after w, rest = before ++ item :: after ∧
    ((callsOver callee (.literal (.one first)) before).modes calls).value c = (.ok w, c') ∧
    Eval.checkStop c' = (.error failure, c')

/-- Where a fold over two or more items fails the calls fail as well, unless it was told to stop between them. -/
theorem callsOver_fails_of_fold {v : Value} (valid : v.Valid) (given : callee.IsGiven k) {first item : Item}
    {rest : List Item} (items : v.items = first :: item :: rest) {type : StaticType} {location : Option Location}
    {calls : Calls} {c c' : Context} {failure : Failure}
    (failed : ((Expr.call .foldLeft1 [.literal v, callee] type location).modes calls).value c =
      (.error failure, c')) :
    StoppedBetween calls callee first (item :: rest) failure c c' ∨ ∃ failure',
      ((callsOver callee (.literal (.one first)) (item :: rest)).modes calls).value c = (.error failure', c') ∧
        failure.SameButPlace failure' := by
  rw [foldLeft1_call_value, Eval.bind_apply] at failed
  rw [callsOver_value given, Eval.bind_apply]
  cases function : (callee.modes calls).toCallee c with
  | mk result c₁ =>
      rw [function] at failed
      cases result with
      | error e =>
          cases failed
          exact .inr ⟨_, rfl, .inl rfl⟩
      | ok found =>
          dsimp only at failed ⊢
          have steady := toCallee_steady calls given c
          rw [function] at steady
          obtain rfl : c₁ = c := steady
          rw [foldLeft1_eq valid items] at failed
          refine (callEach_of_failed failed).imp_left ?_
          rintro ⟨before, last, after, w, split, reached, refused⟩
          refine ⟨before, last, after, w, split, ?_, refused⟩
          cases before with
          | nil => exact reached
          | cons next before =>
              rw [callsOver_value given]
              exact Eval.bind_ok_iff.2 ⟨found, c₁, function, reached⟩

/-- A fold over few literal items, by a literal or a variable bound outside, becomes nested calls.  Whatever
the function does, and wherever it is evaluated: if the fold has a result, the calls have it too and leave the
same context behind, so that the function has been called on the same arguments; and if the fold fails, over
two or more items, then the calls fail there as well, unless the fold has been told to stop between them. -/
theorem unrolled_fold_is_fold {v : Value} (valid : v.Valid) (filled : v.items ≠ [])
    (given : callee.IsGiven k) (few : v.size ≤ k.context.options.unrollLimit) (compiling : Calls) (depth : Nat)
    (location : Option Location) :
    ∃ first rest, v.items = first :: rest ∧
      let fold : Expr := .call .foldLeft1 [.literal v, callee] (.ofSequenceType .anything) location
      let unrolled := callsOver callee (.literal (.one first)) rest
      (∃ k', reduceFold (Expr.optimizeWithin compiling depth) fold (.literal v) callee k = (.ok unrolled, k')) ∧
      ∀ calls c,
        (∀ w c', (fold.modes calls).value c = (.ok w, c') → (unrolled.modes calls).value c = (.ok w, c')) ∧
        (2 ≤ v.size → ∀ failure c', (fold.modes calls).value c = (.error failure, c') →
          StoppedBetween calls callee first rest failure c c' ∨ ∃ failure',
            (unrolled.modes calls).value c = (.error failure', c') ∧ failure.SameButPlace failure') := by
  obtain ⟨first, rest, items⟩ := List.exists_cons_of_ne_nil filled
  refine ⟨first, rest, items, reduceFold_given given few items depth location, fun calls c => ⟨?_, ?_⟩⟩
  · exact fun w c' ran => callsOver_of_fold valid given items ran
  · intro several failure c' failed
    cases rest with
    | nil =>
        rw [valid.size_eq, items] at several
        exact absurd several (by simp)
    | cons item rest => exact callsOver_fails_of_fold valid given items failed

/-- `$f` -/
def functionVariable : Variable := ⟨7, "f", none⟩

/-- `fold-left1((1, 2, 3), $f)` -/
def foldByVariable : Expr :=
  .call .foldLeft1 [.literal (.ofItems [.integer 1, .integer 2, .integer 3]), .varRefOf functionVariable none]
    (.ofSequenceType .anything) none

/-- `$f($f(1, 2), 3)` -/
def unrolledByVariable : Expr :=
  callsOver (.varRefOf functionVariable none) (.literal (.integer 1)) [.integer 2, .integer 3]

/-- The start of a query in which `$f` gives its first argument. -/
def keepingFirst : Context := (Context.initial {}).bind functionVariable (.one (.function keepFirst))

/-- Both give the first number. -/
theorem foldByVariable_unrolled :
    (unrolledByVariable.run.value keepingFirst).1 = .ok (.integer 1) := by
  have numbers : (ValueOf.ofItems [.integer 1, .integer 2, .integer 3] : Value).Valid :=
    (ValueOf.ofItems_holds _).1
  have given : (Expr.varRefOf functionVariable none).IsGiven (.start (.initial {})) := .external rfl rfl
  have folded : foldByVariable.run.value keepingFirst = (.ok (.integer 1), (foldByVariable.run.value keepingFirst).2) :=
    Prod.ext (by with_unfolding_all rfl) rfl
  obtain ⟨first, rest, items, -, agree⟩ :=
    unrolled_fold_is_fold numbers (fun none => by cases none) given (by decide +kernel) (callsWithin callDepth) 0
      none
  cases items
  have unrolled : unrolledByVariable.run.value keepingFirst = _ := (agree _ keepingFirst).1 _ _ folded
  rw [unrolled]

/-- A fold that is to stop gives nothing, but the calls give the first number: they never ask. -/
theorem unrolled_fold_not_stopped :
    (foldByVariable.run.value { keepingFirst with cancelled := true }).1 =
        .error (.error ⟨.stopped "Query was cancelled.", none⟩) ∧
      (unrolledByVariable.run.value { keepingFirst with cancelled := true }).1 = .ok (.integer 1) :=
  ⟨by with_unfolding_all rfl, by with_unfolding_all rfl⟩

end QueryKernel
