import QueryKernel.Proofs.Eval.Calls

/-!
# Sorting with a function

Sorting with a function item is stable and loses no items, and fails with the first comparison that fails.

The function may answer anything: it may contradict itself, answer another time in another way, or fail.  So
sorting is taken apart into the questions that it asks and what it does with the answers.  Whatever they are, it
ends with a permutation; and if they are those of an order, the result is what the order makes of the questions,
without any context.

## Definitions

* `Questions` are trees of comparisons, `Questions.run` asks a comparison that may fail, and `Questions.asked`
  lists what it is asked, with the outcomes.
* `sorting` has the questions of a merge sort.
* `StrictWeak` says that an order of items is strict and weak, and `tied` that two items are equal in it.
-/

namespace QueryKernel

/-! ## Trees of questions -/

/-- A computation that asks whether one item comes before another one, and goes on by the answer. -/
inductive Questions (A : Type) where
  | done (a : A)
  | ask (first second : Item) (next : Bool → Questions A)

/-- A question with its outcome. -/
structure Asked where
  first : Item
  second : Item
  outcome : Except Failure Bool

namespace Questions

variable {A B : Type}

/-- The questions of a computation, and then those that its result leads to. -/
def andThen (f : A → Questions B) : Questions A → Questions B
  | done a => f a
  | ask first second next => ask first second fun before => (next before).andThen f

/-- Asks a comparison.  Its first failure ends the computation. -/
def run (less : Item → Item → Eval Bool) : Questions A → Eval A
  | done a => pure a
  | ask first second next => less first second >>= fun before => (next before).run less

/-- What a comparison is asked, in order. -/
def asked (less : Item → Item → Eval Bool) : Questions A → Context → List Asked
  | done _, _ => []
  | ask first second next, c =>
      match less first second c with
      | (.ok before, c) => ⟨first, second, .ok before⟩ :: (next before).asked less c
      | (.error e, _) => [⟨first, second, .error e⟩]

/-- The result when an order gives the answers. -/
def answeredBy (lt : Item → Item → Bool) : Questions A → A
  | done a => a
  | ask first second next => (next (lt first second)).answeredBy lt

/-- Whatever the answers are, something is true of the result. -/
def Surely (P : A → Prop) : Questions A → Prop
  | done a => P a
  | ask _ _ next => ∀ before, (next before).Surely P

variable {less : Item → Item → Eval Bool} {lt : Item → Item → Bool} {P : A → Prop} {q : Questions A}
  {c c' : Context}

theorem run_andThen (q : Questions A) (f : A → Questions B) :
    (q.andThen f).run less = q.run less >>= fun a => (f a).run less := by
  induction q with
  | done a => rfl
  | ask first second next next_ih =>
      simp only [andThen, run, Eval.bind_assoc]
      exact congrArg _ (funext next_ih)

theorem answeredBy_andThen (q : Questions A) (f : A → Questions B) :
    (q.andThen f).answeredBy lt = (f (q.answeredBy lt)).answeredBy lt := by
  induction q with
  | done a => rfl
  | ask first second next next_ih => exact next_ih (lt first second)

theorem Surely.mono {R : A → Prop} (surely : q.Surely P) (implies : ∀ a, P a → R a) : q.Surely R := by
  induction q with
  | done a => exact implies a surely
  | ask first second next next_ih => exact fun before => next_ih before (surely before)

theorem Surely.andThen {Q : B → Prop} {f : A → Questions B} (surely : q.Surely P)
    (others : ∀ a, P a → (f a).Surely Q) : (q.andThen f).Surely Q := by
  induction q with
  | done a => exact others a surely
  | ask first second next next_ih => exact fun before => next_ih before (surely before)

theorem Surely.answeredBy (surely : q.Surely P) (lt : Item → Item → Bool) : P (q.answeredBy lt) := by
  induction q with
  | done a => exact surely
  | ask first second next next_ih => exact next_ih _ (surely _)

theorem Surely.run {a : A} (surely : q.Surely P) (ran : q.run less c = (.ok a, c')) : P a := by
  induction q generalizing c with
  | done b =>
      obtain ⟨rfl, -⟩ := Eval.pure_ok_iff.1 ran
      exact surely
  | ask first second next next_ih =>
      obtain ⟨before, c₁, _, others⟩ := Eval.bind_ok_iff.1 ran
      exact next_ih before (surely before) others

/-! ## What is asked decides what comes of it -/

theorem run_ok_of_asked (answered : ∀ question ∈ q.asked less c, ∃ before, question.outcome = .ok before) :
    ∃ a c', q.run less c = (.ok a, c') := by
  induction q generalizing c with
  | done a => exact ⟨a, c, rfl⟩
  | ask first second next next_ih =>
      simp only [asked] at answered
      simp only [run, Eval.bind_apply]
      cases compared : less first second c with
      | mk outcome c₁ =>
          rw [compared] at answered
          cases outcome with
          | ok before => exact next_ih before fun question later => answered question (List.mem_cons_of_mem _ later)
          | error e =>
              obtain ⟨before, impossible⟩ := answered _ List.mem_cons_self
              cases impossible

theorem run_answeredBy (agree : ∀ question ∈ q.asked less c,
    question.outcome = .ok (lt question.first question.second)) :
    ∃ c', q.run less c = (.ok (q.answeredBy lt), c') := by
  induction q generalizing c with
  | done a => exact ⟨c, rfl⟩
  | ask first second next next_ih =>
      simp only [asked] at agree
      simp only [run, Eval.bind_apply]
      cases compared : less first second c with
      | mk outcome c₁ =>
          rw [compared] at agree
          cases outcome with
          | ok before =>
              have given : before = lt first second := Except.ok.inj (agree _ List.mem_cons_self)
              subst given
              exact next_ih _ fun question later => agree question (List.mem_cons_of_mem _ later)
          | error e => cases agree _ List.mem_cons_self

/-- A question that fails is the last one, and its failure is that of the computation. -/
theorem run_of_asked_failure {question : Asked} (member : question ∈ q.asked less c) {e : Failure}
    (failed : question.outcome = .error e) :
    (q.asked less c).getLast? = some question ∧ ∃ c', q.run less c = (.error e, c') := by
  induction q generalizing c with
  | done a => cases member
  | ask first second next next_ih =>
      simp only [asked] at member ⊢
      simp only [run, Eval.bind_apply]
      cases compared : less first second c with
      | mk outcome c₁ =>
          rw [compared] at member
          cases outcome with
          | ok before =>
              rcases List.mem_cons.1 member with rfl | later
              · cases failed
              · obtain ⟨last, ended⟩ := next_ih before later
                exact ⟨by rw [List.getLast?_cons, last]; rfl, ended⟩
          | error e' =>
              obtain rfl := List.mem_singleton.1 member
              cases failed
              exact ⟨rfl, c₁, rfl⟩

end Questions

/-! ## The questions of a merge sort -/

/-- Merges two lists.  The first item of the second one is taken if it comes before that of the first one. -/
def merging : List Item → List Item → Questions (List Item)
  | [], right => .done right
  | left, [] => .done left
  | a :: left, b :: right => .ask b a fun before =>
      if before then (merging (a :: left) right).andThen fun rest => .done (b :: rest)
      else (merging left (b :: right)).andThen fun rest => .done (a :: rest)
termination_by left right => left.length + right.length

/-- Sorts the halves of a list and merges them. -/
def sorting (items : List Item) : Questions (List Item) :=
  if items.length ≤ 1 then .done items
  else
    (sorting (items.take (items.length / 2))).andThen fun left =>
      (sorting (items.drop (items.length / 2))).andThen fun right => merging left right
termination_by items.length
decreasing_by
  · rw [List.length_drop]
    omega
  · rw [List.length_take]
    omega

section Run

variable {less : Item → Item → Eval Bool}

theorem merging_nil_right (left : List Item) : merging left [] = .done left := by
  cases left <;> rw [merging]
  exact nofun

theorem reverse_cons_append (a : Item) (merged rest : List Item) :
    merged.reverse ++ a :: rest = (a :: merged).reverse ++ rest := by
  rw [List.reverse_cons, List.append_assoc, List.singleton_append]

theorem takeLess_eq_run {a : Item} {left : List Item}
    (others : ∀ merged right, mergeSorted less merged left right =
      (merging left right).run less >>= fun rest => pure (merged.reverse ++ rest)) (merged right : List Item) :
    (takeLess less a merged right >>= fun taken => mergeSorted less (a :: taken.1) left taken.2) =
      (merging (a :: left) right).run less >>= fun rest => pure (merged.reverse ++ rest) := by
  induction right generalizing merged with
  | nil =>
      rw [merging_nil_right]
      show mergeSorted less (a :: merged) left [] = pure (merged.reverse ++ a :: left)
      rw [others, merging_nil_right, reverse_cons_append]
      rfl
  | cons b right right_ih =>
      rw [takeLess_cons, merging, Questions.run, Eval.bind_assoc, Eval.bind_assoc]
      -- Both ask the same question next, and the answer says which list the next item comes from.
      refine congrArg _ (funext fun before => ?_)
      cases before with
      | true =>
          rw [if_pos rfl, if_pos rfl, right_ih, Questions.run_andThen, Eval.bind_assoc]
          refine congrArg _ (funext fun rest => ?_)
          rw [← reverse_cons_append]
          rfl
      | false =>
          rw [if_neg Bool.false_ne_true, if_neg Bool.false_ne_true, Questions.run_andThen, Eval.bind_assoc]
          show mergeSorted less (a :: merged) left (b :: right) = _
          rw [others]
          refine congrArg _ (funext fun rest => ?_)
          rw [← reverse_cons_append]
          rfl

theorem mergeSorted_eq_run (merged left right : List Item) :
    mergeSorted less merged left right =
      (merging left right).run less >>= fun rest => pure (merged.reverse ++ rest) := by
  induction left generalizing merged right with
  | nil =>
      rw [merging]
      rfl
  | cons a left left_ih =>
      rw [mergeSorted_cons]
      exact takeLess_eq_run left_ih merged right

theorem mergeSortWithin_eq_run {most : Nat} {items : List Item} (enough : items.length ≤ most) :
    mergeSortWithin less most items = (sorting items).run less := by
  induction most generalizing items with
  | zero =>
      rw [sorting, if_pos (Nat.le_succ_of_le enough)]
      rfl
  | succ most most_ih =>
      rw [sorting, mergeSortWithin]
      split
      · rfl
      · have first : (items.take (items.length / 2)).length ≤ most := by
          rw [List.length_take]
          omega
        have second : (items.drop (items.length / 2)).length ≤ most := by
          rw [List.length_drop]
          omega
        have merged : ∀ left right, mergeSorted less [] left right = (merging left right).run less := by
          intro left right
          rw [mergeSorted_eq_run]
          exact Eval.bind_pure _
        simp only [Questions.run_andThen, ← most_ih first, ← most_ih second, ← merged]

/-- Sorting asks the questions of a merge sort. -/
theorem mergeSort_eq_run (items : List Item) : mergeSort less items = (sorting items).run less :=
  mergeSortWithin_eq_run (Nat.le_refl _)

end Run

/-! ## No item is lost -/

theorem merging_perm (left right : List Item) : (merging left right).Surely (·.Perm (left ++ right)) := by
  fun_induction merging left right with
  | case1 right => exact .refl _
  | case2 left => exact .of_eq (List.append_nil left).symm
  | case3 a left b right right_ih left_ih =>
      intro before
      cases before with
      | true => exact right_ih.andThen fun rest permuted => (permuted.cons b).trans List.perm_middle.symm
      | false => exact left_ih.andThen fun rest permuted => permuted.cons a

theorem sorting_perm (items : List Item) : (sorting items).Surely (·.Perm items) := by
  fun_induction sorting items with
  | case1 items short => exact .refl items
  | case2 items long second_ih first_ih =>
      refine first_ih.andThen fun left first => second_ih.andThen fun right second => ?_
      have joined := first.append second
      rw [List.take_append_drop] at joined
      exact (merging_perm left right).mono fun merged permuted => permuted.trans joined

/-! ## Items are put in order, and equal ones stay in theirs -/

/-- The order of some items is strict and weak: those that are not ordered are equal in it. -/
structure StrictWeak (lt : Item → Item → Bool) (items : List Item) : Prop where
  irrefl : ∀ a ∈ items, lt a a = false
  trans : ∀ a ∈ items, ∀ b ∈ items, ∀ d ∈ items, lt a b = true → lt b d = true → lt a d = true
  tie : ∀ a ∈ items, ∀ b ∈ items, ∀ d ∈ items, lt a b = false → lt b a = false → lt b d = false →
    lt d b = false → lt a d = false

/-- Whether two items are equal in an order. -/
def tied (lt : Item → Item → Bool) (a b : Item) : Bool := !lt a b && !lt b a

/-- No item comes after one that it is before. -/
abbrev Ascending (lt : Item → Item → Bool) (items : List Item) : Prop :=
  items.Pairwise fun a b => lt b a = false

section Ordered

variable {lt : Item → Item → Bool} {all : List Item}

theorem tied_iff {a b : Item} : tied lt a b = true ↔ lt a b = false ∧ lt b a = false := by
  simp [tied]

theorem StrictWeak.asymm (weak : StrictWeak lt all) {a b : Item} (left : a ∈ all) (right : b ∈ all)
    (before : lt a b = true) : lt b a = false := by
  cases after : lt b a with
  | false => rfl
  | true =>
      have circle := weak.trans a left b right a left before after
      rw [weak.irrefl a left] at circle
      cases circle

/-- What is not before is at least as far back as anything in between. -/
theorem StrictWeak.not_before (weak : StrictWeak lt all) {a b d : Item} (first : a ∈ all) (second : b ∈ all)
    (third : d ∈ all) (left : lt a b = false) (right : lt b d = false) : lt a d = false := by
  cases before : lt a d with
  | false => rfl
  | true =>
      cases back : lt b a with
      | true =>
          rw [weak.trans b second a first d third back before] at right
          cases right
      | false =>
          cases ahead : lt d b with
          | true =>
              rw [weak.trans a first d third b second before ahead] at left
              cases left
          | false =>
              rw [weak.tie a first b second d third left back right ahead] at before
              cases before

/-- No item of a sorted list is before its first one. -/
theorem StrictWeak.least (weak : StrictWeak lt all) {a d : Item} {rest : List Item} (first : a ∈ all)
    (sorted : Ascending lt (a :: rest)) (member : d ∈ a :: rest) : lt d a = false := by
  rcases List.mem_cons.1 member with rfl | later
  · exact weak.irrefl _ first
  · exact List.rel_of_pairwise_cons sorted later

theorem merging_ascending (weak : StrictWeak lt all) {left right : List Item} (ofLeft : left ⊆ all)
    (ofRight : right ⊆ all) (leftSorted : Ascending lt left) (rightSorted : Ascending lt right) :
    Ascending lt ((merging left right).answeredBy lt) := by
  fun_induction merging left right with
  | case1 right => exact rightSorted
  | case2 left => exact leftSorted
  | case3 a left b right right_ih left_ih =>
      obtain ⟨first, firstOthers⟩ := List.cons_subset.1 ofLeft
      obtain ⟨second, secondOthers⟩ := List.cons_subset.1 ofRight
      rw [Questions.answeredBy]
      cases before : lt b a with
      | true =>
          rw [if_pos rfl, Questions.answeredBy_andThen]
          refine List.pairwise_cons.2 ⟨fun d member => ?_, right_ih ofLeft secondOthers leftSorted rightSorted.tail⟩
          rcases List.mem_append.1 (((merging_perm _ _).answeredBy lt).mem_iff.1 member) with inLeft | inRight
          · exact weak.not_before (ofLeft inLeft) first second (weak.least first leftSorted inLeft)
              (weak.asymm second first before)
          · exact List.rel_of_pairwise_cons rightSorted inRight
      | false =>
          rw [if_neg Bool.false_ne_true, Questions.answeredBy_andThen]
          refine List.pairwise_cons.2 ⟨fun d member => ?_, left_ih firstOthers ofRight leftSorted.tail rightSorted⟩
          rcases List.mem_append.1 (((merging_perm _ _).answeredBy lt).mem_iff.1 member) with inLeft | inRight
          · exact List.rel_of_pairwise_cons leftSorted inLeft
          · exact weak.not_before (ofRight inRight) second first (weak.least second rightSorted inRight) before

/-- Merging keeps equal items in order, those of the first list first. -/
theorem merging_stable (weak : StrictWeak lt all) {left right : List Item} (ofLeft : left ⊆ all)
    (ofRight : right ⊆ all) (leftSorted : Ascending lt left) (rightSorted : Ascending lt right) {x : Item}
    (given : x ∈ all) : ((merging left right).answeredBy lt).filter (tied lt x) =
      left.filter (tied lt x) ++ right.filter (tied lt x) := by
  fun_induction merging left right with
  | case1 right => rfl
  | case2 left => exact (List.append_nil _).symm
  | case3 a left b right right_ih left_ih =>
      obtain ⟨first, firstOthers⟩ := List.cons_subset.1 ofLeft
      obtain ⟨second, secondOthers⟩ := List.cons_subset.1 ofRight
      rw [Questions.answeredBy]
      cases before : lt b a with
      | true =>
          rw [if_pos rfl, Questions.answeredBy_andThen]
          have others := right_ih ofLeft secondOthers leftSorted rightSorted.tail
          by_cases same : tied lt x b = true
          · -- All items of the first list come after the one that is taken, so that none is equal to it.
            have none : (a :: left).filter (tied lt x) = [] := by
              refine List.filter_eq_nil_iff.2 fun d member both => ?_
              have notAfter : lt b d = false :=
                weak.not_before second given (ofLeft member) (tied_iff.1 same).2 (tied_iff.1 both).1
              have reached := weak.not_before second (ofLeft member) first notAfter
                (weak.least first leftSorted member)
              rw [before] at reached
              cases reached
            rw [none] at others ⊢
            simp only [Questions.answeredBy, List.filter_cons, same, others, if_true, List.nil_append]
          · simp only [Questions.answeredBy, List.filter_cons, same, Bool.false_eq_true, if_false] at others ⊢
            exact others
      | false =>
          rw [if_neg Bool.false_ne_true, Questions.answeredBy_andThen]
          have others := left_ih firstOthers ofRight leftSorted.tail rightSorted
          rw [Questions.answeredBy]
          by_cases same : tied lt x a = true
          · rw [List.filter_cons_of_pos same, List.filter_cons_of_pos same, others, List.cons_append]
          · rw [List.filter_cons_of_neg same, List.filter_cons_of_neg same, others]

theorem sorting_ordered (weak : StrictWeak lt all) {items : List Item} (subset : items ⊆ all) :
    Ascending lt ((sorting items).answeredBy lt) ∧
      ∀ x ∈ all, ((sorting items).answeredBy lt).filter (tied lt x) = items.filter (tied lt x) := by
  fun_induction sorting items with
  | case1 items short =>
      refine ⟨?_, fun x _ => rfl⟩
      show Ascending lt items
      rcases items with _ | ⟨a, _ | ⟨b, rest⟩⟩
      · exact List.Pairwise.nil
      · exact List.pairwise_singleton _ a
      · exact absurd short (by simp)
  | case2 items long second_ih first_ih =>
      obtain ⟨leftSorted, leftStable⟩ := first_ih (List.Subset.trans (List.take_subset _ _) subset)
      obtain ⟨rightSorted, rightStable⟩ := second_ih (List.Subset.trans (List.drop_subset _ _) subset)
      have ofLeft := List.Subset.trans
        ((sorting_perm (items.take (items.length / 2))).answeredBy lt).subset
        (List.Subset.trans (List.take_subset _ _) subset)
      have ofRight := List.Subset.trans
        ((sorting_perm (items.drop (items.length / 2))).answeredBy lt).subset
        (List.Subset.trans (List.drop_subset _ _) subset)
      rw [Questions.answeredBy_andThen, Questions.answeredBy_andThen]
      refine ⟨merging_ascending weak ofLeft ofRight leftSorted rightSorted, fun x given => ?_⟩
      rw [merging_stable weak ofLeft ofRight leftSorted rightSorted given, leftStable x given,
        rightStable x given, ← List.filter_append, List.take_append_drop]

end Ordered

/-! ## Sorting with a function -/

theorem sortWith_of_run {calls : Calls} {callee : Item} {location : Option Location} {v : Value} {c c' : Context}
    {sorted : List Item} (ran : (sorting v.items).run (comesBefore calls callee) c = (.ok sorted, c')) :
    sortWith calls location v callee c = (.ok (.ofItems sorted), c') := by
  rw [← mergeSort_eq_run] at ran
  exact Eval.bind_ok_iff.2 ⟨sorted, c', Eval.locate_ok_iff.2 ran, rfl⟩

/-- Sorting asks a function what a merge sort asks.  If no question fails the result has the same items, and if
the answers are those of a strict weak order they are in this order, and equal ones are in the order in which
they were.  A question that fails is the last one, and sorting fails in the same way. -/
theorem sortWith_stable (calls : Calls) (callee : Item) (location : Option Location) (v : Value) (c : Context) :
    let questions := (sorting v.items).asked (comesBefore calls callee) c
    mergeSort (comesBefore calls callee) v.items = (sorting v.items).run (comesBefore calls callee) ∧
    ((∀ question ∈ questions, ∃ before, question.outcome = .ok before) →
      ∃ r c', sortWith calls location v callee c = (.ok r, c') ∧ r.items.Perm v.items ∧
        ∀ lt, StrictWeak lt v.items →
          (∀ question ∈ questions, question.outcome = .ok (lt question.first question.second)) →
          Ascending lt r.items ∧ ∀ x ∈ v.items, r.items.filter (tied lt x) = v.items.filter (tied lt x)) ∧
    ∀ question ∈ questions, ∀ e, question.outcome = .error e →
      questions.getLast? = some question ∧
        ∃ c', sortWith calls location v callee c = (Eval.fail e).locate location c' := by
  intro questions
  refine ⟨mergeSort_eq_run v.items, fun answered => ?_, fun question member e failed => ?_⟩
  · obtain ⟨sorted, c', ran⟩ := Questions.run_ok_of_asked answered
    refine ⟨.ofItems sorted, c', sortWith_of_run ran, ?_⟩
    rw [(ValueOf.ofItems_holds sorted).2]
    refine ⟨(sorting_perm v.items).run ran, fun lt weak agree => ?_⟩
    obtain ⟨c₁, reached⟩ := Questions.run_answeredBy agree
    rw [ran] at reached
    cases reached
    exact sorting_ordered weak (List.Subset.refl _)
  · obtain ⟨last, c', ran⟩ := Questions.run_of_asked_failure member failed
    refine ⟨last, c', ?_⟩
    rw [← mergeSort_eq_run] at ran
    unfold sortWith
    rw [Eval.bind_apply]
    simp only [Eval.locate, ran, Eval.fail]
    cases e <;> rfl

/-- `function($a, $b) { $a lt $b }` -/
def lessThan : FunctionItem Expr :=
  let a : Variable := ⟨0, "a", none⟩
  let b : Variable := ⟨1, "b", none⟩
  ⟨0, none, [a, b], .comparisonOf .lt (.varRefOf a none) (.varRefOf b none) none, .anyFunction⟩

/-- The order of atoms. -/
def atomBefore : Item → Item → Bool
  | .atom x, .atom y => (x.compare? y).toOption.any Comparison.lt.holds
  | _, _ => false

theorem ok_of_toOption {A : Type} {x : Except Failure A} {a : A} (given : x.toOption = some a) : x = .ok a := by
  cases x with
  | ok b => exact congrArg _ (Option.some.inj given)
  | error e => cases given

/-- Of equal numbers the one that came first comes first, and a text that cannot be compared with a number ends
the sort. -/
theorem sortWith_stable_numbers :
    let numbers : Value := .ofItems [.integer 2, .atom (.decimal ⟨1, 0⟩), .integer 1]
    let mixed : Value := .ofItems [.integer 1, .atom (.string "a")]
    let sort := fun v => sortWith (callsWithin callDepth) none v (.function lessThan) (.initial {})
    (∃ r c', sort numbers = (.ok r, c') ∧ r.items.Perm numbers.items ∧ Ascending atomBefore r.items ∧
      r.items.filter (tied atomBefore (.integer 1)) = [.atom (.decimal ⟨1, 0⟩), .integer 1]) ∧
    ∃ c', sort mixed = (.error (.error ⟨.incomparable (.atomic .string) .integer, none⟩), c') := by
  intro numbers mixed sort
  have weak : StrictWeak atomBefore numbers.items := by
    refine ⟨?_, ?_, ?_⟩ <;> decide +kernel
  have agree : ∀ question ∈ (sorting numbers.items).asked (comesBefore (callsWithin callDepth) (.function lessThan))
      (.initial {}), question.outcome.toOption = some (atomBefore question.first question.second) := by
    decide +kernel
  replace agree : ∀ question ∈ (sorting numbers.items).asked (comesBefore (callsWithin callDepth)
      (.function lessThan)) (.initial {}),
      question.outcome = .ok (atomBefore question.first question.second) :=
    fun question member => ok_of_toOption (agree question member)
  have failing : (sorting mixed.items).asked (comesBefore (callsWithin callDepth) (.function lessThan))
      (.initial {}) = [⟨.atom (.string "a"), .integer 1,
        .error (.error ⟨.incomparable (.atomic .string) .integer, none⟩)⟩] := by
    with_unfolding_all rfl
  obtain ⟨_, sorts, _⟩ := sortWith_stable (callsWithin callDepth) (.function lessThan) none numbers (.initial {})
  obtain ⟨_, _, fails⟩ := sortWith_stable (callsWithin callDepth) (.function lessThan) none mixed (.initial {})
  rw [failing] at fails
  constructor
  · obtain ⟨r, c', sorted, permuted, ordered⟩ := sorts fun question member => ⟨_, agree question member⟩
    obtain ⟨ascending, stable⟩ := ordered atomBefore weak agree
    refine ⟨r, c', sorted, permuted, ascending, ?_⟩
    rw [stable (.integer 1) (.tail _ (.tail _ (.head _)))]
    with_unfolding_all rfl
  · obtain ⟨-, c', failed⟩ := fails _ List.mem_cons_self _ rfl
    exact ⟨c', failed⟩

end QueryKernel
